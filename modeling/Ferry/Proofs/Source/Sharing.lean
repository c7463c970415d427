/-
  Ferry.Proofs.Source.Sharing

  Files that are read in turns while they share the origins of names.  What a file records and is
  told on the way is its acts.

  A file is told the same whatever the turns exactly when the readings are settled: no other file
  records first, for a name that this one asks about, an origin that speaks against what it would be
  told alone.  Then every file is read as it is alone (`adapt_run`).  Files need not be settled, and
  then the turns can show in the program (`adapt_run_printing`).
-/
import Ferry.Proofs.Turns
import Ferry.Source.Adapt

namespace Ferry.Source

/-! ## Acts -/

/-- What a computation does with shared origins. -/
inductive Act where
  | recorded (name origin : String)
  | asked (name : String) (answer : Bool)
deriving DecidableEq

def Act.originFor? (name : String) : Act → Option String
  | recorded other origin => if other = name then some origin else none
  | asked .. => none

/-- The origin that is recorded for a name first. -/
def firstOrigin? (acts : List Act) (name : String) : Option String :=
  acts.findSome? (Act.originFor? name)

theorem firstOrigin?_append (acts more : List Act) (name : String) :
    firstOrigin? (acts ++ more) name = (firstOrigin? acts name).or (firstOrigin? more name) :=
  List.findSome?_append

theorem OriginCache.origin?_record_eq_or (cache : OriginCache) (other origin name : String) :
    (cache.record other origin).origin? name =
      (cache.origin? name).or (firstOrigin? [.recorded other origin] name) := by
  rw [OriginCache.origin?_record]
  by_cases h : other = name
  · subst h
    cases cache.origin? other <;> simp [firstOrigin?, Act.originFor?]
  · simp [h, Ne.symm h, firstOrigin?, Act.originFor?]

namespace Exchange

variable {α : Type}

/-- The acts of a computation that takes all its steps at once. -/
def acts : Exchange α → OriginCache → List Act
  | done _, _ => []
  | record name origin rest, cache =>
    .recorded name origin :: (rest ()).acts (cache.record name origin)
  | ask name rest, cache =>
    .asked name (cache.isLibrary name) :: (rest (cache.isLibrary name)).acts cache

/-- What is recorded in the end: what was, and then what the computation records first. -/
theorem origin?_run (e : Exchange α) (cache : OriginCache) (name : String) :
    (e.run cache).2.origin? name =
      (cache.origin? name).or (firstOrigin? (e.acts cache) name) := by
  induction e generalizing cache with
  | done value => exact (Option.or_none).symm
  | record other origin rest ih =>
    rw [run, ih, acts, ← List.singleton_append, firstOrigin?_append,
      OriginCache.origin?_record_eq_or, Option.or_assoc]
  | ask other rest ih =>
    rw [run, ih, acts, ← List.singleton_append, firstOrigin?_append]
    rfl

theorem answer_of_origin? {e : Exchange α} {cache : OriginCache} {name origin : String}
    {answer : Bool} (hasked : .asked name answer ∈ e.acts cache)
    (horigin : cache.origin? name = some origin) : answer = isLibraryOrigin origin := by
  induction e generalizing cache with
  | done value => exact absurd hasked List.not_mem_nil
  | record other first rest ih =>
    refine ih () (List.mem_of_ne_of_mem (by simp) hasked) ?_
    rw [OriginCache.origin?_record_eq_or, horigin, Option.some_or]
  | ask other rest ih =>
    obtain heq | hasked := List.mem_cons.mp hasked
    · obtain ⟨rfl, rfl⟩ := Act.asked.inj heq
      rw [OriginCache.isLibrary, horigin, Option.any_some]
    · exact ih _ hasked horigin

end Exchange

/-! ## Readers -/

/-- A computation on its way, with what it has done. -/
structure Reader (α : Type) where
  acts : List Act := []
  rest : Exchange α

def readers {α : Type} (computations : List (Exchange α)) : Crew (Reader α) OriginCache where
  workers := computations.map fun e => { rest := e }
  shared := .empty

namespace Reader

variable {α : Type}

def step (reader : Reader α) (cache : OriginCache) : Reader α × OriginCache :=
  match reader.rest with
  | .done _ => (reader, cache)
  | .record name origin rest =>
    (⟨reader.acts ++ [.recorded name origin], rest ()⟩, cache.record name origin)
  | .ask name rest =>
    (⟨reader.acts ++ [.asked name (cache.isLibrary name)], rest (cache.isLibrary name)⟩, cache)

def value? (reader : Reader α) : Option α :=
  match reader.rest with
  | .done value => some value
  | _ => none

/-- The origins that a computation has recorded first. -/
def known (reader : Reader α) : String → Option String :=
  firstOrigin? reader.acts

/-- The reader after all its steps at once. -/
def finished (reader : Reader α) (cache : OriginCache) : Reader α :=
  ⟨reader.acts ++ reader.rest.acts cache, .done (reader.rest.run cache).1⟩

theorem step_of_isSome {reader : Reader α} (h : reader.value?.isSome = true) (cache : OriginCache) :
    reader.step cache = (reader, cache) := by
  obtain ⟨acts, rest⟩ := reader
  cases rest with
  | done value => rfl
  | record name origin rest => cases h
  | ask name rest => cases h

theorem finished_of_isSome {reader : Reader α} (h : reader.value?.isSome = true)
    (cache : OriginCache) : reader.finished cache = reader := by
  obtain ⟨acts, rest⟩ := reader
  cases rest with
  | done value => exact congrArg (Reader.mk · (.done value)) (List.append_nil acts)
  | record name origin rest => cases h
  | ask name rest => cases h

theorem finished_step (reader : Reader α) (cache : OriginCache) :
    (reader.step cache).1.finished (reader.step cache).2 = reader.finished cache := by
  obtain ⟨acts, rest⟩ := reader
  cases rest with
  | done value => rfl
  | record name origin rest => simp [step, finished, Exchange.acts, Exchange.run]
  | ask name rest => simp [step, finished, Exchange.acts, Exchange.run]

/-- Origins matter to a step only for the name that it asks about. -/
theorem step_congr {reader : Reader α} {cache other : OriginCache}
    (h : ∀ name rest, reader.rest = .ask name rest → cache.isLibrary name = other.isLibrary name) :
    (reader.step cache).1 = (reader.step other).1 := by
  obtain ⟨acts, rest⟩ := reader
  cases rest with
  | done value => rfl
  | record name origin rest => rfl
  | ask name rest => simp only [step, h name rest rfl]

/-- A step adds the same to what its reader knows and to what is shared. -/
theorem exists_origin?_step (reader : Reader α) (cache : OriginCache) :
    ∃ more, (∀ name, (reader.step cache).1.known name =
        (reader.known name).or (firstOrigin? more name)) ∧
      ∀ name, (reader.step cache).2.origin? name =
        (cache.origin? name).or (firstOrigin? more name) := by
  obtain ⟨acts, rest⟩ := reader
  cases rest with
  | done value => exact ⟨[], fun _ => Option.or_none.symm, fun _ => Option.or_none.symm⟩
  | record name origin rest =>
    exact ⟨[.recorded name origin], firstOrigin?_append acts _,
      cache.origin?_record_eq_or name origin⟩
  | ask name rest =>
    exact ⟨[.asked name (cache.isLibrary name)], firstOrigin?_append acts _,
      fun _ => Option.or_none.symm⟩

end Reader

def IsFinished {α : Type} (crew : Crew (Reader α) OriginCache) : Prop :=
  ∀ reader ∈ crew.workers, reader.value?.isSome = true

/-! ## Some schedules -/

section

variable {α : Type} {crew : Crew (Reader α) OriginCache} {i : Nat} {reader : Reader α}

theorem getElem?_run_of_isSome (hreader : crew.workers[i]? = some reader)
    (h : reader.value?.isSome = true) (schedule : List Nat) :
    (crew.run Reader.step schedule).workers[i]? = some reader := by
  refine Crew.run_induction (P := fun crew => crew.workers[i]? = some reader) ?_ hreader schedule
  intro crew j worker hreader hworker
  by_cases hj : i = j
  · subst hj
    rw [Crew.getElem?_turn_self hreader, Reader.step_of_isSome h]
  · rwa [Crew.getElem?_turn_of_ne hj]

theorem exists_run_finished (hreader : crew.workers[i]? = some reader) :
    ∃ schedule, crew.run Reader.step schedule =
      ⟨crew.workers.set i (reader.finished crew.shared), (reader.rest.run crew.shared).2⟩ := by
  obtain ⟨acts, rest⟩ := reader
  induction rest generalizing crew acts with
  | done value =>
    -- No steps are left, and the crew is as it was.
    refine ⟨[], ?_⟩
    obtain ⟨hi, hget⟩ := List.getElem?_eq_some_iff.mp hreader
    have hsame : Reader.finished ⟨acts, .done value⟩ crew.shared = crew.workers[i] := by
      rw [hget, Reader.finished, Exchange.acts, List.append_nil]
      rfl
    rw [Crew.run_nil, hsame, List.set_getElem_self]
    rfl
  | record name origin rest ih =>
    -- A turn of its own, and then those that the induction gives for what is left.
    have hturn : (crew.turn Reader.step i).workers[i]? =
        some ⟨acts ++ [.recorded name origin], rest ()⟩ := Crew.getElem?_turn_self hreader
    obtain ⟨schedule, hrun⟩ := ih () _ hturn
    refine ⟨i :: schedule, ?_⟩
    rw [Crew.run_cons, hrun, Crew.turn_eq hreader, List.set_set]
    simp [Reader.finished, Reader.step, Exchange.acts, Exchange.run]
  | ask name rest ih =>
    have hturn : (crew.turn Reader.step i).workers[i]? =
        some ⟨acts ++ [.asked name (crew.shared.isLibrary name)],
          rest (crew.shared.isLibrary name)⟩ := Crew.getElem?_turn_self hreader
    obtain ⟨schedule, hrun⟩ := ih _ _ hturn
    refine ⟨i :: schedule, ?_⟩
    rw [Crew.run_cons, hrun, Crew.turn_eq hreader, List.set_set]
    simp [Reader.finished, Reader.step, Exchange.acts, Exchange.run]

theorem exists_run_isFinished (crew : Crew (Reader α) OriginCache) :
    ∃ schedule, IsFinished (crew.run Reader.step schedule) := by
  -- one after the other
  have hfirst (count : Nat) : ∃ schedule, ∀ i < count, ∀ reader,
      (crew.run Reader.step schedule).workers[i]? = some reader → reader.value?.isSome = true := by
    induction count with
    | zero => exact ⟨[], fun i hi => absurd hi (Nat.not_lt_zero i)⟩
    | succ count ih =>
      obtain ⟨schedule, hdone⟩ := ih
      cases hnext : (crew.run Reader.step schedule).workers[count]? with
      | none =>
        refine ⟨schedule, fun i hi reader hreader => ?_⟩
        obtain hi | rfl := Nat.lt_succ_iff_lt_or_eq.mp hi
        · exact hdone i hi reader hreader
        · rw [hnext] at hreader
          cases hreader
      | some next =>
        obtain ⟨more, hmore⟩ := exists_run_finished hnext
        obtain ⟨hcount, -⟩ := List.getElem?_eq_some_iff.mp hnext
        refine ⟨schedule ++ more, fun i hi reader hreader => ?_⟩
        rw [Crew.run_append, hmore] at hreader
        obtain hi | rfl := Nat.lt_succ_iff_lt_or_eq.mp hi
        · rw [List.getElem?_set_ne (Nat.ne_of_gt hi)] at hreader
          exact hdone i hi reader hreader
        · rw [List.getElem?_set_self hcount] at hreader
          obtain rfl := Option.some.inj hreader
          rfl
  obtain ⟨schedule, hdone⟩ := hfirst crew.workers.length
  refine ⟨schedule, fun reader hreader => ?_⟩
  obtain ⟨i, hi⟩ := List.getElem?_of_mem hreader
  obtain ⟨hlt, -⟩ := List.getElem?_eq_some_iff.mp hi
  rw [Crew.length_run] at hlt
  exact hdone i hlt reader hi

/-- A reader can take all its steps before the others take theirs. -/
theorem exists_run_first (hreader : crew.workers[i]? = some reader) :
    ∃ schedule, IsFinished (crew.run Reader.step schedule) ∧
      (crew.run Reader.step schedule).workers[i]? = some (reader.finished crew.shared) := by
  obtain ⟨schedule, hschedule⟩ := exists_run_finished hreader
  obtain ⟨rest, hrest⟩ := exists_run_isFinished (crew.run Reader.step schedule)
  refine ⟨schedule ++ rest, by rwa [Crew.run_append], ?_⟩
  obtain ⟨hi, -⟩ := List.getElem?_eq_some_iff.mp hreader
  rw [Crew.run_append]
  refine getElem?_run_of_isSome ?_ rfl rest
  rw [hschedule, List.getElem?_set_self hi]

end

/-! ## Settled readings -/

/-- That no computation records first, for a name that another asks about, an origin that speaks
    against what the other is told alone. -/
def Settled {α : Type} (computations : List (Exchange α)) : Prop :=
  ∀ (i j : Nat) (e other : Exchange α), i ≠ j → computations[i]? = some e →
    computations[j]? = some other → ∀ (name origin : String) (answer : Bool),
      .asked name answer ∈ e.acts .empty → firstOrigin? (other.acts .empty) name = some origin →
        answer = isLibraryOrigin origin

section

variable {α : Type} {computations : List (Exchange α)}

theorem getElem?_readers {i : Nat} {e : Exchange α} (h : computations[i]? = some e) :
    (readers computations).workers[i]? = some { rest := e } := by
  rw [readers, List.getElem?_map, h, Option.map_some]

/-- If it makes no difference whose turn it is, the computations are settled. -/
theorem settled_of_forall_run
    (h : ∀ first second,
      IsFinished ((readers computations).run Reader.step first) →
      IsFinished ((readers computations).run Reader.step second) →
      ((readers computations).run Reader.step first).workers =
        ((readers computations).run Reader.step second).workers) :
    Settled computations := by
  intro i j e other hij he hother name origin answer hasked horigin
  have hstart := getElem?_readers he
  -- either the computation is the first to take its steps, or the one that records is
  obtain ⟨first, hfirst, hfirst_i⟩ := exists_run_first hstart
  obtain ⟨before, hbefore⟩ := exists_run_finished (getElem?_readers hother)
  have hafter : ((readers computations).run Reader.step before).workers[i]? =
      some { rest := e } := by
    rw [hbefore, List.getElem?_set_ne (Ne.symm hij), hstart]
  obtain ⟨second, hsecond, hsecond_i⟩ := exists_run_first hafter
  rw [← Crew.run_append] at hsecond hsecond_i
  rw [h first (before ++ second) hfirst hsecond, hsecond_i, hbefore] at hfirst_i
  have hacts : e.acts (other.run .empty).2 = e.acts .empty :=
    congrArg Reader.acts (Option.some.inj hfirst_i)
  rw [← hacts] at hasked
  refine Exchange.answer_of_origin? hasked ?_
  rw [Exchange.origin?_run, horigin]
  rfl

def Reader.alone (e : Exchange α) : Reader α :=
  Reader.finished { rest := e } .empty

/-- That a reader is on the way that its computation takes alone. -/
def Follows (e : Exchange α) (reader : Reader α) : Prop :=
  ∃ cache : OriginCache, (∀ name, cache.origin? name = reader.known name) ∧
    reader.finished cache = Reader.alone e

/-- What is invariant when computations are settled. -/
structure Undisturbed (computations : List (Exchange α)) (crew : Crew (Reader α) OriginCache) :
    Prop where
  follows : ∀ (i : Nat) (reader : Reader α), crew.workers[i]? = some reader →
    ∃ e, computations[i]? = some e ∧ Follows e reader
  /-- The origins that are shared come from the readers. -/
  blend : Blend crew.shared.origin? (crew.workers.map Reader.known)

/-- A step against the origins of its own keeps a reader on its way. -/
theorem Follows.step {e : Exchange α} {reader : Reader α} {cache shared : OriginCache}
    (hcache : ∀ name, cache.origin? name = reader.known name)
    (hreader : reader.finished cache = Reader.alone e)
    (hsame : (reader.step shared).1 = (reader.step cache).1) :
    Follows e (reader.step shared).1 := by
  obtain ⟨more, hknown, horigin⟩ := reader.exists_origin?_step cache
  rw [hsame]
  refine ⟨(reader.step cache).2, fun name => ?_, (reader.finished_step cache).trans hreader⟩
  rw [horigin, hcache, hknown]

/-- What a reader records first it knows, and the others do unless they know an origin already. -/
theorem Reader.learns_step (reader : Reader α) (cache : OriginCache) (name : String)
    (hnone : cache.origin? name = none → reader.known name = none) :
    Learns (cache.origin? name) (reader.known name) ((reader.step cache).2.origin? name)
      ((reader.step cache).1.known name) := by
  obtain ⟨more, hknown, horigin⟩ := reader.exists_origin?_step cache
  rw [horigin, hknown]
  cases hmore : firstOrigin? more name with
  | none => exact .inr (.inl ⟨Option.or_none, Option.or_none⟩)
  | some origin =>
    cases hcache : cache.origin? name with
    | none =>
      exact .inl ⟨by rw [hnone hcache], by simp⟩
    | some known =>
      refine .inr (.inr ⟨rfl, by simp, fun hown => ?_⟩)
      obtain ⟨first, hfirst⟩ := Option.ne_none_iff_exists'.mp hown
      rw [hfirst, Option.some_or]

namespace Undisturbed

variable {crew : Crew (Reader α) OriginCache}

theorem isLibrary_eq {i : Nat} {reader : Reader α} {e : Exchange α} {cache : OriginCache}
    {name : String} {rest : Bool → Exchange α} (hsettled : Settled computations)
    (h : Undisturbed computations crew) (hreader : crew.workers[i]? = some reader)
    (he : computations[i]? = some e)
    (hcache : ∀ name, cache.origin? name = reader.known name)
    (halone : reader.finished cache = Reader.alone e) (hask : reader.rest = .ask name rest) :
    crew.shared.isLibrary name = cache.isLibrary name := by
  cases hshared : crew.shared.origin? name with
  | none =>
    -- Nobody has recorded the name, so the reader itself has not.
    have hown := h.blend.none_of name hshared _
      (List.mem_map_of_mem (List.mem_of_getElem? hreader))
    rw [OriginCache.isLibrary, OriginCache.isLibrary, hshared, hcache, hown]
  | some origin =>
    -- Somebody was the first to record it: the reader itself, or a reader that the condition is
    -- about.
    obtain ⟨part, hpart, hfirst⟩ := h.blend.some_of name origin hshared
    obtain ⟨writer, hwriter, rfl⟩ := List.mem_map.mp hpart
    obtain ⟨j, hj⟩ := List.getElem?_of_mem hwriter
    by_cases hij : i = j
    · subst hij
      obtain rfl := Option.some.inj (hreader.symm.trans hj)
      rw [OriginCache.isLibrary, OriginCache.isLibrary, hshared, hcache, hfirst]
    · obtain ⟨other, hother, otherCache, -, hwriter_alone⟩ := h.follows j writer hj
      have hasked : .asked name (cache.isLibrary name) ∈ e.acts .empty := by
        have hacts : reader.acts ++ reader.rest.acts cache = e.acts .empty :=
          congrArg Reader.acts halone
        rw [← hacts, hask]
        exact List.mem_append_right _ List.mem_cons_self
      have horigin : firstOrigin? (other.acts .empty) name = some origin := by
        have hacts : writer.acts ++ writer.rest.acts otherCache = other.acts .empty :=
          congrArg Reader.acts hwriter_alone
        have hown : firstOrigin? writer.acts name = some origin := hfirst
        rw [← hacts, firstOrigin?_append, hown, Option.some_or]
      rw [hsettled i j e other hij he hother name origin _ hasked horigin, OriginCache.isLibrary,
        hshared, Option.any_some]

theorem turn {i : Nat} {reader : Reader α} (hsettled : Settled computations)
    (h : Undisturbed computations crew) (hreader : crew.workers[i]? = some reader) :
    Undisturbed computations (crew.turn Reader.step i) := by
  refine ⟨Crew.forall_turn hreader ?_ h.follows,
    Crew.blend_turn h.blend hreader (reader.learns_step crew.shared)⟩
  obtain ⟨e, he, cache, hcache, halone⟩ := h.follows i reader hreader
  refine ⟨e, he, Follows.step hcache halone (Reader.step_congr ?_)⟩
  exact fun name rest hask => h.isLibrary_eq hsettled hreader he hcache halone hask

theorem start (computations : List (Exchange α)) :
    Undisturbed computations (readers computations) where
  follows i reader hreader := by
    rw [readers, List.getElem?_map, Option.map_eq_some_iff] at hreader
    obtain ⟨e, he, rfl⟩ := hreader
    exact ⟨e, he, .empty, fun _ => rfl, rfl⟩
  blend := by
    refine .nothing (fun _ => rfl) fun part hpart _ => ?_
    simp only [readers, List.map_map, List.mem_map] at hpart
    obtain ⟨e, -, rfl⟩ := hpart
    rfl

end Undisturbed

/-- Settled computations come out of every schedule as they come out alone. -/
theorem workers_run_of_settled (hsettled : Settled computations) {schedule : List Nat}
    (hfinished : IsFinished ((readers computations).run Reader.step schedule)) :
    ((readers computations).run Reader.step schedule).workers =
      computations.map Reader.alone := by
  have hrun : Undisturbed computations ((readers computations).run Reader.step schedule) :=
    Crew.run_induction (fun _ _ _ h hreader => h.turn hsettled hreader)
      (.start computations) schedule
  refine List.ext_getElem (by rw [Crew.length_run, readers, List.length_map, List.length_map]) ?_
  intro i hi hi'
  have hreader := List.getElem?_eq_getElem hi
  obtain ⟨e, he, cache, -, halone⟩ := hrun.follows i _ hreader
  rw [Reader.finished_of_isSome (hfinished _ (List.mem_of_getElem? hreader))] at halone
  rw [halone, List.getElem_map]
  exact congrArg Reader.alone (List.getElem_eq_iff _ |>.mpr he).symm

end

/-! ## Files -/

/-- A file to be read. -/
structure Unread where
  path : String
  root : Node
  tables : SideTables := {}

namespace Unread

/-- The reading of a file, which waits for origins to be shared. -/
def reading (input : Unread) : Exchange (SourceFile × AdapterState) :=
  Source.reading input.path input.root input.tables

/-- The program tree and the warnings of a file that is read alone. -/
def readAlone (input : Unread) : SourceFile × List Diagnostic :=
  let found := adapt input.path input.root input.tables (some .empty)
  (found.file, found.warnings)

end Unread

/-- The program tree and the warnings that the reading of a file has come to. -/
def Reader.program? (reader : Reader (SourceFile × AdapterState)) :
    Option (SourceFile × List Diagnostic) :=
  reader.value?.map fun (file, state) => (file, state.warnings)

/-- Whose turn it is makes no difference to what files are told exactly when their readings are
    settled, and then every file gets the program tree and the warnings that it gets alone. -/
theorem adapt_run (inputs : List Unread) :
    let crew := readers (inputs.map Unread.reading)
    ((∀ first second, IsFinished (crew.run Reader.step first) →
        IsFinished (crew.run Reader.step second) →
        (crew.run Reader.step first).workers = (crew.run Reader.step second).workers) ↔
      Settled (inputs.map Unread.reading)) ∧
    (Settled (inputs.map Unread.reading) → ∀ schedule, IsFinished (crew.run Reader.step schedule) →
      (crew.run Reader.step schedule).workers.map Reader.program? =
        inputs.map fun input => some input.readAlone) := by
  intro crew
  refine ⟨⟨settled_of_forall_run, fun hsettled first second hfirst hsecond => ?_⟩,
    fun hsettled schedule hfinished => ?_⟩
  · rw [workers_run_of_settled hsettled hfirst, workers_run_of_settled hsettled hsecond]
  · rw [workers_run_of_settled hsettled hfinished, List.map_map, List.map_map]
    rfl

/-- A file that only mentions `print`. -/
def printing (path : String) (entries : List SymbolEntry) : Unread where
  path
  root := .node { kind := .declRef, text := some "print", length := 5 } []
  tables := { symbols := .ofList entries }

/-- One file knows what `print` is and the other does not: it is told so only if it comes second. -/
theorem adapt_run_printing :
    let inputs := [printing "known" [{ offset := 0, origin := "Swift.print" }],
      printing "unknown" []]
    let crew := readers (inputs.map Unread.reading)
    ¬ Settled (inputs.map Unread.reading) ∧
      IsFinished (crew.run Reader.step [0, 1]) ∧ IsFinished (crew.run Reader.step [1, 0]) ∧
      (crew.run Reader.step [0, 1]).workers.map Reader.program? ≠
        (crew.run Reader.step [1, 0]).workers.map Reader.program? := by
  intro inputs crew
  have hfirst : IsFinished (crew.run Reader.step [0, 1]) := by
    unfold IsFinished
    decide
  have hsecond : IsFinished (crew.run Reader.step [1, 0]) := by
    unfold IsFinished
    decide
  have hprograms : (crew.run Reader.step [0, 1]).workers.map Reader.program? ≠
      (crew.run Reader.step [1, 0]).workers.map Reader.program? := by
    intro h
    cases h
  refine ⟨fun hsettled => hprograms ?_, hfirst, hsecond, hprograms⟩
  rw [(adapt_run inputs).1.mpr hsettled [0, 1] [1, 0] hfirst hsecond]

end Ferry.Source
