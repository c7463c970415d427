/-
  Ferry.Proofs.Pass.Collection

  Files that are learned from in turns.  A learner takes one file through the collecting passes and
  records what they tell fact by fact, while others record theirs into the same registry.

  Which facts a file tells, and what it looks like in the end, is settled from the start, since the
  passes read nothing but the file (`promised_step`).  The registry is a blend of what the learners
  recorded (`blend_run`).  So where no two files tell different things of one subject, all turns
  lead to the same answers (`learn_run`).
-/
import Ferry.Proofs.Pass.Pipeline
import Ferry.Proofs.Registry
import Ferry.Proofs.Turns
import Mathlib.Data.List.Pairwise

namespace Ferry

/-! ## Registries put together -/

/-- Whether a fact says more than that its subject is there. -/
def Fact.isDetailed : Fact → Bool
  | .enumeration .. | .function .. => true
  | _ => false

namespace Registry

/-- What is known of each subject once facts were recorded. -/
def knownFrom (facts : List Fact) : Subject → Option Fact :=
  (empty.recordAll facts).about

theorem knownFrom_concat (facts : List Fact) (fact : Fact) (subject : Subject) :
    knownFrom (facts ++ [fact]) subject =
      if fact.subject = subject then some fact else knownFrom facts subject := by
  rw [knownFrom, recordAll_concat, about_record]
  rfl

theorem knownFrom_append (facts more : List Fact) (subject : Subject) :
    knownFrom (facts ++ more) subject =
      (knownFrom more subject).or (knownFrom facts subject) := by
  rw [knownFrom, recordAll_append, about_recordAll]
  rfl

theorem mem_of_knownFrom {facts : List Fact} {subject : Subject} {fact : Fact}
    (h : knownFrom facts subject = some fact) : fact ∈ facts ∧ fact.subject = subject := by
  induction facts with
  | nil => exact absurd (h.symm.trans (about_empty subject)) (by simp)
  | cons first rest ih =>
    rw [← List.singleton_append, knownFrom_append, Option.or_eq_some_iff] at h
    obtain hrest | ⟨-, hfirst⟩ := h
    · obtain ⟨hmem, hsubject⟩ := ih hrest
      exact ⟨List.mem_cons_of_mem first hmem, hsubject⟩
    · rw [← List.nil_append [first], knownFrom_concat] at hfirst
      split at hfirst
      next hsubject =>
        obtain rfl := Option.some.inj hfirst
        exact ⟨List.mem_cons_self, hsubject⟩
      next => exact absurd (hfirst.symm.trans (about_empty subject)) (by simp)

/-- That two places tell nothing different of one subject. -/
def Compatible (facts more : List Fact) : Prop :=
  ∀ fact ∈ facts, ∀ other ∈ more, fact.subject = other.subject → fact = other

instance : Std.Symm Compatible where
  symm _ _ h fact hfact other hother hsubject := (h other hother fact hfact hsubject.symm).symm

/-- Only about enumerations and functions can different things be told, so it is enough that the
    places share none. -/
theorem compatible_of_distinct {facts more : List Fact}
    (h : ∀ fact ∈ facts, ∀ other ∈ more, fact.subject = other.subject →
      fact.isDetailed = false) : Compatible facts more := by
  intro fact hfact other hother hsubject
  have hplain := h fact hfact other hother hsubject
  cases fact with
  | enumeration => cases hplain
  | function => cases hplain
  | protocolType => cases other <;> cases hsubject; rfl
  | pureFunction => cases other <;> cases hsubject; rfl
  | structType => cases other <;> cases hsubject; rfl
  | classType => cases other <;> cases hsubject; rfl

/-- Of no subject do compatible places know different things. -/
theorem knownFrom_eq_of_pairwise {parts : List (List Fact)} (h : parts.Pairwise Compatible)
    {part other : List Fact} (hpart : part ∈ parts) (hother : other ∈ parts) {subject : Subject}
    (hknown : knownFrom part subject ≠ none) (hother_known : knownFrom other subject ≠ none) :
    knownFrom part subject = knownFrom other subject := by
  by_cases heq : part = other
  · rw [heq]
  · obtain ⟨fact, hfact⟩ := Option.ne_none_iff_exists'.mp hknown
    obtain ⟨last, hlast⟩ := Option.ne_none_iff_exists'.mp hother_known
    obtain ⟨hmem, hsubject⟩ := mem_of_knownFrom hfact
    obtain ⟨hlast_mem, hlast_subject⟩ := mem_of_knownFrom hlast
    have hcompatible := h.forall hpart hother heq
    rw [hfact, hlast, hcompatible fact hmem last hlast_mem (hsubject.trans hlast_subject.symm)]

theorem blend_flatten (parts : List (List Fact)) :
    Blend (knownFrom parts.flatten) (parts.map knownFrom) := by
  induction parts with
  | nil => exact .nothing about_empty (by simp)
  | cons part rest ih =>
    rw [List.flatten_cons, List.map_cons]
    constructor
    · intro subject fact hfact
      rw [knownFrom_append, Option.or_eq_some_iff] at hfact
      obtain hrest | ⟨-, hpart⟩ := hfact
      · obtain ⟨source, hsource, hheld⟩ := ih.some_of subject fact hrest
        exact ⟨source, List.mem_cons_of_mem _ hsource, hheld⟩
      · exact ⟨knownFrom part, List.mem_cons_self, hpart⟩
    · intro subject hnone source hsource
      rw [knownFrom_append, Option.or_eq_none_iff] at hnone
      obtain rfl | hsource := List.mem_cons.mp hsource
      · exact hnone.2
      · exact ih.none_of subject hnone.1 source hsource

end Registry

/-! ## Learners -/

namespace Pipeline

/-- A file on its way through collecting passes, with the facts that are found and not recorded yet,
    and those that are. -/
structure Learner where
  passes : List PassId
  file : SourceFile
  found : List Fact := []
  recorded : List Fact := []

/-- What a file tells when it is learned from, and what it looks like then. -/
def lesson (passes : List PassId) (file : SourceFile) : List Fact × SourceFile :=
  ((collectFrom passes file).2, Stage.lastFile file (collectFrom passes file).1)

theorem lesson_cons (pass : PassId) (rest : List PassId) (file : SourceFile) :
    lesson (pass :: rest) file =
      ((pass.collect file).2 ++ (lesson rest (pass.collect file).1).1,
        (lesson rest (pass.collect file).1).2) := by
  rw [lesson, collectFrom, Stage.lastFile_cons]
  rfl

namespace Learner

/-- Records a fact that was found, or else runs the next pass. -/
def step (learner : Learner) (registry : Registry) : Learner × Registry :=
  match learner.found, learner.passes with
  | fact :: rest, _ =>
    ({ learner with found := rest, recorded := learner.recorded ++ [fact] }, registry.record fact)
  | [], pass :: rest =>
    let (file, found) := pass.collect learner.file
    ({ learner with passes := rest, file, found }, registry)
  | [], [] => (learner, registry)

def isFinished (learner : Learner) : Bool :=
  learner.passes.isEmpty && learner.found.isEmpty

/-- What the file will have told in the end, and what it will look like. -/
def promised (learner : Learner) : List Fact × SourceFile :=
  let (facts, file) := lesson learner.passes learner.file
  (learner.recorded ++ learner.found ++ facts, file)

def known (learner : Learner) : Subject → Option Fact :=
  Registry.knownFrom learner.recorded

theorem promised_step (learner : Learner) (registry : Registry) :
    (learner.step registry).1.promised = learner.promised := by
  obtain ⟨passes, file, found, recorded⟩ := learner
  cases found with
  | cons fact rest => simp [step, promised]
  | nil =>
    cases passes with
    | nil => rfl
    | cons pass rest => simp [step, promised, lesson_cons]

/-- The number of passes and facts that are left. -/
def left (learner : Learner) : Nat :=
  learner.found.length + learner.passes.length + (lesson learner.passes learner.file).1.length

theorem left_step (learner : Learner) (registry : Registry) :
    (learner.step registry).1.left ≤ learner.left - 1 := by
  obtain ⟨passes, file, found, recorded⟩ := learner
  cases found with
  | cons fact rest =>
    simp only [step, left, List.length_cons]
    omega
  | nil =>
    cases passes with
    | nil => exact Nat.zero_le _
    | cons pass rest =>
      simp only [step, left, lesson_cons, List.length_nil, List.length_cons, List.length_append]
      omega

theorem isFinished_of_left {learner : Learner} (h : learner.left = 0) :
    learner.isFinished = true := by
  unfold left at h
  rw [isFinished, Bool.and_eq_true, List.isEmpty_iff, List.isEmpty_iff]
  exact ⟨List.eq_nil_of_length_eq_zero (by omega), List.eq_nil_of_length_eq_zero (by omega)⟩

theorem promised_of_isFinished {learner : Learner} (h : learner.isFinished = true) :
    learner.promised = (learner.recorded, learner.file) := by
  obtain ⟨passes, file, found, recorded⟩ := learner
  rw [isFinished, Bool.and_eq_true, List.isEmpty_iff, List.isEmpty_iff] at h
  obtain ⟨rfl, rfl⟩ := h
  simp [promised, lesson, collectFrom, Stage.lastFile]

end Learner

/-- Files that nothing has been learned from yet. -/
def learners (disabled : List String) (files : List SourceFile) : Crew Learner Registry where
  workers := files.map fun file => { passes := enabled disabled PassId.collecting, file }
  shared := .empty

/-- What a learner records it knows, and the registry as well. -/
theorem Learner.learns_step (learner : Learner) (registry : Registry) (subject : Subject) :
    Learns (registry.about subject) (learner.known subject)
      ((learner.step registry).2.about subject) ((learner.step registry).1.known subject) := by
  obtain ⟨passes, file, found, recorded⟩ := learner
  cases found with
  | cons fact rest =>
    simp only [Learner.step, Learner.known, Registry.about_record, Registry.knownFrom_concat]
    by_cases hsubject : fact.subject = subject
    · exact .inl ⟨by rw [if_pos hsubject, if_pos hsubject], by simp [hsubject]⟩
    · exact .inr (.inl ⟨if_neg hsubject, if_neg hsubject⟩)
  | nil =>
    cases passes with
    | nil => exact .inr (.inl ⟨rfl, rfl⟩)
    | cons pass rest => exact .inr (.inl ⟨rfl, rfl⟩)

theorem blend_run (disabled : List String) (files : List SourceFile) (schedule : List Nat) :
    Blend ((learners disabled files).run Learner.step schedule).shared.about
      (((learners disabled files).run Learner.step schedule).workers.map Learner.known) := by
  have hstart : Blend (learners disabled files).shared.about
      ((learners disabled files).workers.map Learner.known) := by
    refine .nothing Registry.about_empty ?_
    intro part hpart
    simp only [learners, List.map_map, List.mem_map] at hpart
    obtain ⟨file, -, rfl⟩ := hpart
    exact Registry.about_empty
  exact Crew.run_induction (P := fun crew =>
    Blend crew.shared.about (crew.workers.map Learner.known))
    (fun crew _ learner h hlearner => Crew.blend_turn h hlearner
      fun subject _ => learner.learns_step crew.shared subject) hstart schedule

/-- A schedule with a turn for every pass and every fact of each file goes through all of them. -/
theorem isFinished_run {disabled : List String} {files : List SourceFile} {schedule : List Nat}
    (hturns : ∀ i file, files[i]? = some file →
      (enabled disabled PassId.collecting).length + (collect disabled file).2.length ≤
        schedule.count i) :
    ∀ learner ∈ ((learners disabled files).run Learner.step schedule).workers,
      learner.isFinished = true := by
  intro learner hlearner
  obtain ⟨i, hi⟩ := List.getElem?_of_mem hlearner
  obtain ⟨hi_lt, -⟩ := List.getElem?_eq_some_iff.mp hi
  have hlt : i < files.length := by
    rwa [Crew.length_run, learners, List.length_map] at hi_lt
  have hfile : files[i]? = some files[i] := List.getElem?_eq_getElem hlt
  have hstart : (learners disabled files).workers[i]? =
      some { passes := enabled disabled PassId.collecting, file := files[i] } := by
    rw [learners, List.getElem?_map, hfile, Option.map_some]
  -- A turn for each pass, and one for each fact that it finds.
  have hneeded : Learner.left { passes := enabled disabled PassId.collecting, file := files[i] } ≤
      schedule.count i := by
    simpa [Learner.left, lesson, collect] using hturns i _ hfile
  obtain ⟨after, hafter, hleft⟩ := Crew.run_finishes Learner.left_step hstart hneeded
  obtain rfl := Option.some.inj (hafter.symm.trans hi)
  exact Learner.isFinished_of_left hleft

/-- In the end every file has told all it tells, and looks as it does after its passes alone. -/
theorem recorded_run {disabled : List String} {files : List SourceFile} {schedule : List Nat}
    (hfinished : ∀ learner ∈ ((learners disabled files).run Learner.step schedule).workers,
      learner.isFinished = true) :
    ((learners disabled files).run Learner.step schedule).workers.map
        (fun learner => (learner.recorded, learner.file)) =
      files.map (lesson (enabled disabled PassId.collecting)) :=
  calc ((learners disabled files).run Learner.step schedule).workers.map
        (fun learner => (learner.recorded, learner.file))
      = ((learners disabled files).run Learner.step schedule).workers.map Learner.promised :=
        List.map_congr_left fun learner hlearner =>
          (Learner.promised_of_isFinished (hfinished learner hlearner)).symm
    _ = (learners disabled files).workers.map Learner.promised :=
        Crew.map_run Learner.promised_step schedule
    _ = files.map (lesson (enabled disabled PassId.collecting)) := by
        rw [learners, List.map_map]
        rfl

/-! ## Passes and answers -/

section

variable {registry other : Registry}

theorem passTransform_congr (h : registry.SameAnswers other) (pass : PassId) :
    pass.transform registry = pass.transform other := by
  cases pass with
  -- Three passes ask the registry, each one or two questions.
  | capitalizeEnumCases =>
    have hstyle : Pass.styleCase registry = Pass.styleCase other := by
      funext e
      unfold Pass.styleCase
      simp only [h.isEnumCase, h.enumKind?]
    simp only [PassId.transform, Pass.capitalizeEnumCases, hstyle]
  | callLabelsToParameterNames =>
    have hnames : Pass.nameArguments registry = Pass.nameArguments other := by
      funext e
      unfold Pass.nameArguments
      simp only [funext h.parameterNames?]
    simp only [PassId.transform, Pass.callLabelsToParameterNames, hnames]
  | pureCalls =>
    have hpure : Pass.markPure registry = Pass.markPure other := by
      funext e
      unfold Pass.markPure
      simp only [funext h.isPure]
    simp only [PassId.transform, Pass.pureCalls, hpure]
  | _ => rfl

theorem transformFrom_congr (h : registry.SameAnswers other) (passes : List PassId)
    (file : SourceFile) : transformFrom registry passes file = transformFrom other passes file := by
  induction passes generalizing file with
  | nil => rfl
  | cons pass rest ih => rw [transformFrom, transformFrom, passTransform_congr h, ih]

end

/-- Whatever the turns, if no two files tell different things of one subject, then the answers are
    those got from the files one after the other, every file is left as its passes alone leave it,
    and every file is changed alike. -/
theorem learn_run (disabled : List String) (files : List SourceFile) (schedule : List Nat)
    (hfiles : (files.map fun file => (collect disabled file).2).Pairwise Registry.Compatible)
    (hturns : ∀ i file, files[i]? = some file →
      (enabled disabled PassId.collecting).length + (collect disabled file).2.length ≤
        schedule.count i) :
    let after := (learners disabled files).run Learner.step schedule
    let registry := Registry.empty.recordAll (files.flatMap fun file => (collect disabled file).2)
    (∀ learner ∈ after.workers, learner.isFinished = true) ∧
      after.shared.SameAnswers registry ∧
      after.workers.map Learner.file =
        files.map (fun file => Stage.lastFile file (collect disabled file).1) ∧
      ∀ file, transform disabled after.shared file = transform disabled registry file := by
  intro after registry
  have hfinished := isFinished_run hturns
  have hrecorded := recorded_run hfinished
  have hfacts : after.workers.map Learner.recorded =
      files.map fun file => (collect disabled file).2 := by
    have h := congrArg (List.map Prod.fst) hrecorded
    rwa [List.map_map, List.map_map] at h
  have hblend : Blend after.shared.about
      ((files.map fun file => (collect disabled file).2).map Registry.knownFrom) := by
    rw [← hfacts, List.map_map]
    exact blend_run disabled files schedule
  -- The facts blend with each other in the one order as in the other, and no two differ on a
  -- subject.
  have hsame : after.shared.SameAnswers registry := by
    refine Registry.sameAnswers_of_about (hblend.eq (Registry.blend_flatten _) ?_)
    intro subject known hknown other hother
    obtain ⟨part, hpart, rfl⟩ := List.mem_map.mp hknown
    obtain ⟨source, hsource, rfl⟩ := List.mem_map.mp hother
    exact Registry.knownFrom_eq_of_pairwise hfiles hpart hsource
  refine ⟨hfinished, hsame, ?_, fun file => transformFrom_congr hsame _ file⟩
  have h := congrArg (List.map Prod.snd) hrecorded
  rwa [List.map_map, List.map_map] at h

def shapeFile : SourceFile :=
  { path := "shape"
    declarations :=
      [.enumDecl { name := "Shape", inherits := ["Equatable"] } none
          [⟨"dot", [], none, none⟩] [] none,
        .protocolDecl { name := "Drawable" } [] none,
        .function { name := "area" } [⟨some "of", "shape", "Shape", none, false⟩] none none] }

def colorFile : SourceFile :=
  { path := "color"
    declarations :=
      [.enumDecl { name := "Color" } none [⟨"red", [], none, none⟩] [] none,
        .protocolDecl { name := "Drawable" } [] none,
        .function { name := "mix", isPure := true } [] none none] }

theorem learn_run_shapeFile :
    ([shapeFile, colorFile].map fun file => (collect [] file).2).Pairwise Registry.Compatible ∧
      let after := (learners [] [shapeFile, colorFile]).run Learner.step
        [1, 0, 1, 0, 0, 1, 1, 0, 1, 0, 1, 0, 0, 1, 1, 0, 1, 0, 1]
      let registry := Registry.empty.recordAll
        ((collect [] shapeFile).2 ++ (collect [] colorFile).2)
      (∀ learner ∈ after.workers, learner.isFinished = true) ∧
        after.shared.SameAnswers registry ∧
        after.workers.map Learner.file = [shapeFile, colorFile].map collected ∧
        ∀ file, transform [] after.shared file = transform [] registry file := by
  have hfiles : ([shapeFile, colorFile].map fun file => (collect [] file).2).Pairwise
      Registry.Compatible :=
    List.pairwise_pair.mpr (Registry.compatible_of_distinct (by decide))
  refine ⟨hfiles, learn_run [] [shapeFile, colorFile] _ hfiles ?_⟩
  intro i file hfile
  match i with
  | 0 =>
    obtain rfl := Option.some.inj hfile
    decide
  | 1 =>
    obtain rfl := Option.some.inj hfile
    decide
  | i + 2 => cases hfile

end Pipeline

end Ferry
