/-
  Ferry.Proofs.Project.Destination

  Where outputs go.  Planning takes the outputs one by one, each of which is refused or claims a
  file of its own (`planFrom_cons`).  So it succeeds exactly if no two outputs go to one file, and
  else names the first output that is refused (`planDestinations_cases`).
-/
import Ferry.Command.Run
import Ferry.Project.Directory

namespace Ferry.Project

open Target (Output)

variable (directory : Option String)

def SameFile (a b : Output) : Prop :=
  ∃ path other, a.destination directory = .ok (some path) ∧
    b.destination directory = .ok (some other) ∧ Path.same path other

/-- That all outputs have a destination and no two go to one file. -/
def Apart (outputs : List Output) : Prop :=
  (∀ output ∈ outputs, ∃ d, output.destination directory = .ok d) ∧
    outputs.Pairwise fun a b => ¬ SameFile directory a b

/-- That an output is refused after others, and why. -/
def Refuses (before : List Output) (output : Output) : ProjectError → Prop
  | .noDestination fault => output.destination directory = .error fault
  | .sharedDestination path first second =>
    output.destination directory = .ok (some path) ∧ second = output.source ∧
      ∃ earlier ∈ before, earlier.source = first ∧ SameFile directory earlier output
  | _ => False

/-- The paths that outputs claim, with their sources, the last first. -/
def claims (outputs : List Output) : List (String × String) :=
  outputs.reverse.flatMap fun output =>
    ((output.destination directory).toOption.getD none).toList.map (·, output.source)

variable {directory} {before rest outputs : List Output} {output : Output}

theorem mem_claims {path source : String} : (path, source) ∈ claims directory outputs ↔
    ∃ output ∈ outputs,
      output.destination directory = .ok (some path) ∧ output.source = source := by
  have hown : ∀ output : Output, (path, source) ∈ claims directory [output] ↔
      output.destination directory = .ok (some path) ∧ output.source = source := by
    intro output
    cases h : output.destination directory with
    | error => simp [claims, h, Except.toOption]
    | ok d => cases d <;> simp [claims, h, Except.toOption, eq_comm]
  simpa [claims] using exists_congr fun output => and_congr_right fun _ => hown output

theorem not_refuses_of_apart (h : Apart directory (before ++ output :: rest)) (e : ProjectError) :
    ¬ Refuses directory before output e := by
  intro he
  cases e with
  | noDestination fault =>
    obtain ⟨d, hd⟩ := h.1 output (by simp)
    cases hd.symm.trans he
  | sharedDestination =>
    obtain ⟨-, -, earlier, hearlier, -, hsame⟩ := he
    exact (List.pairwise_append.mp h.2).2.2 earlier hearlier output List.mem_cons_self hsame
  | _ => exact he

theorem planFrom_cons (before : List Output) (output : Output) (rest : List Output) :
    (∃ e, Refuses directory before output e ∧
      planFrom directory (claims directory before) (output :: rest) = .error e) ∨
    ∃ d, output.destination directory = .ok d ∧
      (∀ earlier ∈ before, ¬ SameFile directory earlier output) ∧
      planFrom directory (claims directory before) (output :: rest) =
        (planFrom directory (claims directory (before ++ [output])) rest).map (d :: ·) := by
  have hstep := planFrom.eq_2 directory (claims directory before) output rest
  split at hstep
  next fault hdestination => exact .inl ⟨.noDestination fault, hdestination, hstep⟩
  next hdestination =>
    -- An output that goes to no file claims none.
    refine .inr ⟨none, hdestination, by simp [SameFile, hdestination], hstep.trans ?_⟩
    simp [claims, hdestination, Except.toOption]
    rfl
  next path hdestination =>
    split at hstep
    next other first hfound =>
      -- An earlier output has claimed the file.
      have hsame : Path.same other path = true := by simpa using List.find?_some hfound
      obtain ⟨earlier, hearlier, hother, hfirst⟩ := mem_claims.mp (List.mem_of_find?_eq_some hfound)
      exact .inl ⟨.sharedDestination path first output.source, ⟨hdestination, rfl, earlier,
        hearlier, hfirst, other, path, hother, hdestination, hsame⟩, hstep⟩
    next hfound =>
      -- Nobody has, so the output claims it.
      refine .inr ⟨some path, hdestination, ?_, hstep.trans ?_⟩
      · rintro earlier hearlier ⟨other, own, hother, hown, hsame⟩
        cases hdestination.symm.trans hown
        exact List.find?_eq_none.mp hfound _ (mem_claims.mpr ⟨earlier, hearlier, hother, rfl⟩) hsame
      · simp [claims, hdestination, Except.toOption]
        rfl

theorem planFrom_cases (hbefore : Apart directory before) (outputs : List Output) :
    (∃ ds, planFrom directory (claims directory before) outputs = .ok ds ∧
      outputs.map (·.destination directory) = ds.map .ok ∧ Apart directory (before ++ outputs)) ∨
    ∃ e accepted output rest, planFrom directory (claims directory before) outputs = .error e ∧
      before ++ outputs = accepted ++ output :: rest ∧ Apart directory accepted ∧
      Refuses directory accepted output e := by
  induction outputs generalizing before with
  | nil => exact .inl ⟨[], rfl, rfl, by rwa [List.append_nil]⟩
  | cons output rest ih =>
    obtain ⟨e, he, hplan⟩ | ⟨d, hd, hfree, hplan⟩ := planFrom_cons before output rest
    · exact .inr ⟨e, before, output, rest, hplan, rfl, hbefore, he⟩
    · have hnext : Apart directory (before ++ [output]) := by
        refine ⟨by simpa [or_imp, forall_and, hd] using hbefore.1, ?_⟩
        exact List.pairwise_append.mpr
          ⟨hbefore.2, List.pairwise_singleton .., by simpa using hfree⟩
      rw [List.append_cons, hplan]
      obtain ⟨ds, hds, hmap, hapart⟩ | ⟨e, accepted, refused, others, he, hrefused⟩ := ih hnext
      · refine .inl ⟨d :: ds, by rw [hds]; rfl, ?_, hapart⟩
        rw [List.map_cons, hd, hmap, List.map_cons]
      · exact .inr ⟨e, accepted, refused, others, by rw [he]; rfl, hrefused⟩

/-! ## Runs that end with the plan -/

/-- That an action leaves all files as they are. -/
def Keeps {α : Type} (act : StateM World α) : Prop :=
  ∀ world, (act.run world).2.root = world.root

theorem Keeps.bind {α β : Type} {act : StateM World α} {next : α → StateM World β} (h : Keeps act)
    (hnext : ∀ value, Keeps (next value)) : Keeps (act >>= next) :=
  fun world => (hnext _ _).trans (h world)

theorem run_bind_of_run {α β : Type} {act : StateM World α} {next : α → StateM World β} {value : α}
    {world after : World} (h : act.run world = (value, after)) :
    (act >>= next).run world = (next value).run after := by
  rw [StateT.run_bind, h]
  rfl

theorem Keeps.forM {α : Type} {act : α → StateM World Unit} (h : ∀ item, Keeps (act item))
    (items : List α) : Keeps (items.forM act) := by
  induction items with
  | nil => exact fun _ => rfl
  | cons item rest ih => exact (h item).bind fun _ => ih

theorem keeps_showResult (shell : String → StateM World (Except FileFault Ending))
    (config : DisplayConfig) (result : RunResult) :
    Keeps (showResult (inMemory shell) config result) := by
  refine (Keeps.forM (fun outcome => ?_) _).bind fun _ => .forM (fun _ _ => rfl) _
  unfold showOutcome
  dsimp only
  split
  · refine Keeps.bind (fun _ => rfl) fun _ => Keeps.bind (fun _ => rfl) fun _ => ?_
    split <;> exact fun _ => rfl
  · exact fun _ => rfl

section

variable {m : Type → Type} [Monad m] (fs : FileSystem m)
  (write : (path text : String) → m (Except FileFault Unit))

theorem collectInputs_write (paths : List String) :
    collectInputs { fs with write } paths = collectInputs fs paths := by
  induction paths with
  | nil => rfl
  | cons path rest ih => simp only [collectInputs, ih]

theorem adaptInputs_write (command : Option String) (isSequential : Bool) (shared : Shared)
    (inputs : List InputFile) :
    adaptInputs { fs with write } (fileIndex { fs with write } command) isSequential shared inputs =
      adaptInputs fs (fileIndex fs command) isSequential shared inputs := by
  induction inputs generalizing shared with
  | nil => rfl
  | cons input rest ih =>
    have hinput :
        adaptInput { fs with write } (fileIndex { fs with write } command) shared input =
          adaptInput fs (fileIndex fs command) shared input := rfl
    simp only [adaptInputs, hinput, ih]

/-- A translation writes nothing itself; only the command that refreshes the index may. -/
theorem translate_write (settings : Settings) (inputs : List InputFile) :
    translate { fs with write } settings inputs = translate fs settings inputs := by
  simp only [translate, adaptInputs_write]

end

theorem runTranslate_of_plan {fs : FileSystem (StateM World)}
    {arguments : Command.TranslateArguments} {world found left : World} {inputs : List InputFile}
    {result : RunResult} {e : ProjectError} (isVerbose : Bool)
    (hindent : arguments.indent < Command.indentLimit)
    (hinputs : (collectInputs fs arguments.inputs).run world = (.ok inputs, found))
    (hresult : (translate fs arguments.settings inputs).run found = (.ok result, left))
    (hplan : planDestinations arguments.outDir result.outcomes = .error e) :
    (Command.runTranslate fs arguments isVerbose).run.run world =
      let config := Command.displayConfig isVerbose arguments.suppressed
      (.error e, ((showResult fs config result).run left).2) := by
  simp only [Command.runTranslate, if_neg (Nat.not_le.mpr hindent), ExceptT.run_bind,
    ExceptT.run_mk, ExceptT.run_lift, bind_assoc, pure_bind]
  rw [run_bind_of_run hinputs]
  dsimp only [Except.mapError]
  rw [run_bind_of_run hresult]
  dsimp only
  rw [StateT.run_bind, hplan]
  rfl

/-- If all outputs have destinations and no two of them go to one file, each is given its own.  Else
the first output that is refused is named, with the one before it that has its file, and a run ends
there: files are as the translation left them, and nothing was written but by the command that
refreshes the index. -/
theorem planDestinations_cases (directory : Option String) (outcomes : List Outcome) :
    (Apart directory (outcomes.map Outcome.output) ∧
      ∃ ds, planDestinations directory outcomes = .ok ds ∧
        outcomes.map (·.output.destination directory) = ds.map .ok) ∨
    ¬ Apart directory (outcomes.map Outcome.output) ∧
      ∃ e before outcome rest, planDestinations directory outcomes = .error e ∧
        outcomes = before ++ outcome :: rest ∧ Apart directory (before.map Outcome.output) ∧
        Refuses directory (before.map Outcome.output) outcome.output e ∧
        ∀ shell arguments isVerbose world inputs found failures left,
          arguments.outDir = directory → arguments.indent < Command.indentLimit →
          (collectInputs (inMemory shell) arguments.inputs).run world = (.ok inputs, found) →
          (translate (inMemory shell) arguments.settings inputs).run found =
            (.ok ⟨outcomes, failures⟩, left) →
          ∃ last, (Command.runTranslate (inMemory shell) arguments isVerbose).run.run world =
            (.error e, last) ∧ last.root = left.root ∧
            ∀ write,
              (Command.runTranslate { inMemory shell with write } arguments isVerbose).run.run
                world = (.error e, last) := by
  have hnone : Apart directory [] := ⟨by simp, .nil⟩
  obtain ⟨ds, hplan, hmap, hapart⟩ | ⟨e, _, _, _, hplan, hsplit, hbefore, hrefuses⟩ :=
    planFrom_cases hnone (outcomes.map Outcome.output)
  · exact .inl ⟨hapart, ds, hplan, by simpa [Function.comp_def] using hmap⟩
  · rw [List.nil_append] at hsplit
    refine .inr ⟨fun hapart => not_refuses_of_apart (hsplit ▸ hapart) e hrefuses, ?_⟩
    obtain ⟨before, _, rfl, rfl, hrest⟩ := List.map_eq_append_iff.mp hsplit
    obtain ⟨outcome, rest, rfl, rfl, -⟩ := List.map_eq_cons_iff.mp hrest
    refine ⟨e, before, outcome, rest, hplan, rfl, hbefore, hrefuses, ?_⟩
    rintro shell arguments isVerbose world inputs found failures left rfl hindent hinputs hresult
    refine ⟨_, runTranslate_of_plan isVerbose hindent hinputs hresult hplan,
      keeps_showResult shell _ _ left, fun write => ?_⟩
    -- Nothing before the plan writes, so it makes no difference what writing does.
    rw [← collectInputs_write (inMemory shell) write] at hinputs
    rw [← translate_write (inMemory shell) write] at hresult
    exact runTranslate_of_plan isVerbose hindent hinputs hresult hplan

end Ferry.Project
