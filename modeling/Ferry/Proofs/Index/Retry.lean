/-
  Ferry.Proofs.Index.Retry

  One refresh for all files that are loaded through a gate, whatever the turns.

  The refresh calls tell what the gate holds (`Recorded`), and the calls for a file tell how far it
  has come (`Reached`).  Every move keeps both.  `oneRefresh_run` puts together what that means for
  the files.
-/
import Ferry.Proofs.Index.Loader

namespace Ferry.Index

/-! ## The gate and the refresh calls -/

/-- That the refresh calls are those that led to what the gate holds. -/
def Recorded (gate : Gate) (calls : List Call) : Prop :=
  match gate.outcome with
  | none => calls.filter Call.isRefresh = []
  | some outcome =>
    (∃ e, outcome = .error e ∧ calls.filter Call.isRefresh = [.refreshTypes (.error e)]) ∨
      calls.filter Call.isRefresh = [.refreshTypes (.ok ()), .refreshSymbols outcome]

namespace Recorded

variable {gate after : Gate} {calls made : List Call}

theorem passes {outcome : Except IndexError Unit} (h : Recorded gate calls)
    (hpass : Passes gate outcome made after) : Recorded after (calls ++ made) := by
  cases hpass with
  | known hgate => rwa [List.append_nil]
  | typesFail hgate e =>
    rw [Recorded, hgate] at h
    exact .inl ⟨e, rfl, by rw [List.filter_append, h]; rfl⟩
  | refresh hgate outcome =>
    rw [Recorded, hgate] at h
    exact .inr (by rw [List.filter_append, h]; rfl)

theorem move {loading next : Loading} (h : Recorded gate calls)
    (hmove : Move gate loading made after next) : Recorded after (calls ++ made) := by
  -- a question is no refresh
  have hquestion : made.filter Call.isRefresh = [] → Recorded gate (calls ++ made) := by
    intro hmade
    unfold Recorded
    rw [List.filter_append, hmade, List.append_nil]
    exact h
  cases hmove with
  | passForTypes hpass => exact h.passes hpass
  | passForSymbols _ hpass => exact h.passes hpass
  | _ => exact hquestion rfl

/-- Nothing was refreshed, or the types alone and in vain, or both. -/
theorem filter_isRefresh (h : Recorded gate calls) :
    calls.filter Call.isRefresh = [] ∨
      (∃ e, calls.filter Call.isRefresh = [.refreshTypes (.error e)]) ∨
      ∃ outcome, calls.filter Call.isRefresh =
        [.refreshTypes (.ok ()), .refreshSymbols outcome] := by
  unfold Recorded at h
  split at h
  next => exact .inl h
  next outcome _ =>
    obtain ⟨e, -, h⟩ | h := h
    · exact .inr (.inl ⟨e, h⟩)
    · exact .inr (.inr ⟨outcome, h⟩)

theorem length_refreshTypes_le (h : Recorded gate calls) :
    (calls.filterMap Call.refreshTypes?).length ≤ 1 := by
  have hcalls : calls.filterMap Call.refreshTypes? =
      (calls.filter Call.isRefresh).filterMap Call.refreshTypes? := by
    rw [List.filterMap_filter]
    exact List.filterMap_congr fun call _ => by cases call <;> rfl
  obtain h | ⟨e, h⟩ | ⟨outcome, h⟩ := h.filter_isRefresh <;> rw [hcalls, h]
  · exact Nat.zero_le 1
  · exact Nat.le_refl 1
  · exact Nat.le_refl 1

theorem length_refreshSymbols_le (h : Recorded gate calls) :
    (calls.filterMap Call.refreshSymbols?).length ≤ 1 := by
  have hcalls : calls.filterMap Call.refreshSymbols? =
      (calls.filter Call.isRefresh).filterMap Call.refreshSymbols? := by
    rw [List.filterMap_filter]
    exact List.filterMap_congr fun call _ => by cases call <;> rfl
  obtain h | ⟨e, h⟩ | ⟨outcome, h⟩ := h.filter_isRefresh <;> rw [hcalls, h]
  · exact Nat.zero_le 1
  · exact Nat.zero_le 1
  · exact Nat.le_refl 1

/-- Symbols are refreshed only after the types were, with success. -/
theorem refreshTypes_mem (h : Recorded gate calls) {before later : List Call}
    {answer : Except IndexError Unit} (hcalls : calls = before ++ .refreshSymbols answer :: later) :
    .refreshTypes (.ok ()) ∈ before := by
  have hfilter : calls.filter Call.isRefresh = before.filter Call.isRefresh ++
      .refreshSymbols answer :: later.filter Call.isRefresh := by
    rw [hcalls, List.filter_append, List.filter_cons_of_pos rfl]
  have hfirst : Call.refreshTypes (.ok ()) ∈ before.filter Call.isRefresh := by
    -- The refreshes are none, one of the types that failed, or one of the types and one of the
    -- symbols.
    cases hbefore : before.filter Call.isRefresh with
    | nil =>
      rw [hbefore, List.nil_append] at hfilter
      obtain h | ⟨e, h⟩ | ⟨outcome, h⟩ := h.filter_isRefresh <;> simp [hfilter] at h
    | cons call rest =>
      rw [hbefore, List.cons_append] at hfilter
      obtain h | ⟨e, h⟩ | ⟨outcome, h⟩ := h.filter_isRefresh
      · simp [hfilter] at h
      · simp [hfilter] at h
      · rw [hfilter, List.cons.injEq] at h
        rw [h.1]
        exact List.mem_cons_self
  exact List.mem_of_mem_filter hfirst

end Recorded

/-! ## The calls for one file -/

section

variable {α : Type}

/-- A question answered with a value, at once or when it was asked again. -/
inductive AnsweredWith (value : α) : List (Except IndexError α) → Prop where
  | atOnce : AnsweredWith value [.ok value]
  | again (e : IndexError) : AnsweredWith value [.error e, .ok value]

/-- A question that has failed and was not asked again. -/
inductive FailedOnce : List (Except IndexError α) → Prop where
  | intro (e : IndexError) : FailedOnce [.error e]

/-- A question that has failed and will not be asked again. -/
inductive FailedForGood : List (Except IndexError α) → Prop where
  | once {answers : List (Except IndexError α)} (h : FailedOnce answers) : FailedForGood answers
  | twice (e again : IndexError) : FailedForGood [.error e, .error again]

variable {answers : List (Except IndexError α)} {value : α}

theorem AnsweredWith.getLast? (h : AnsweredWith value answers) :
    answers.getLast? = some (.ok value) := by
  cases h <;> rfl

theorem AnsweredWith.length_le (h : AnsweredWith value answers) : answers.length ≤ 2 := by
  cases h <;> simp

theorem FailedOnce.length_le (h : FailedOnce answers) : answers.length ≤ 2 := by
  cases h
  simp

theorem FailedOnce.getLast?_ne (h : FailedOnce answers) (value : α) :
    answers.getLast? ≠ some (.ok value) := by
  cases h
  simp

theorem FailedForGood.length_le (h : FailedForGood answers) : answers.length ≤ 2 := by
  cases h with
  | once h => exact h.length_le
  | twice => simp

theorem FailedForGood.getLast?_ne (h : FailedForGood answers) (value : α) :
    answers.getLast? ≠ some (.ok value) := by
  cases h with
  | once h => exact h.getLast?_ne value
  | twice => simp

end

/-- How the answers for a file stand when its loading has come so far.  Asking again takes a gate
    that holds success. -/
def Reached (gate : Gate) (types : List (Except IndexError Source.TypeTable))
    (symbols : List (Except IndexError Source.SymbolTable)) : Loading → Prop
  | .askTypes => types = [] ∧ symbols = []
  | .refreshForTypes => FailedOnce types ∧ symbols = []
  | .retryTypes => FailedOnce types ∧ symbols = [] ∧ gate.outcome = some (.ok ())
  | .askSymbols table => AnsweredWith table types ∧ symbols = []
  | .refreshForSymbols table => AnsweredWith table types ∧ FailedOnce symbols
  | .retrySymbols table =>
    AnsweredWith table types ∧ FailedOnce symbols ∧ gate.outcome = some (.ok ())
  | .loaded table found => AnsweredWith table types ∧ AnsweredWith found symbols
  | .failed _ =>
    (FailedForGood types ∧ symbols = []) ∨
      ∃ table, AnsweredWith table types ∧ FailedForGood symbols

namespace Reached

variable {gate after : Gate} {types : List (Except IndexError Source.TypeTable)}
  {symbols : List (Except IndexError Source.SymbolTable)} {loading next : Loading}
  {made : List Call}

theorem of_other (h : Reached gate types symbols loading) {other otherNext : Loading}
    (hmove : Move gate other made after otherNext) : Reached after types symbols loading := by
  have hgate : gate.outcome = some (.ok ()) → after.outcome = some (.ok ()) := by
    intro hok
    rw [hmove.eq_of_outcome hok, hok]
  cases loading with
  | retryTypes => exact ⟨h.1, h.2.1, hgate h.2.2⟩
  | retrySymbols table => exact ⟨h.1, h.2.1, hgate h.2.2⟩
  | _ => exact h

theorem move (h : Reached gate types symbols loading)
    (hmove : Move gate loading made after next) :
    Reached after (types ++ made.filterMap Call.types?) (symbols ++ made.filterMap Call.symbols?)
      next := by
  cases hmove with
  -- What a move asks is added to the questions before it.
  | askTypes answer =>
    obtain ⟨rfl, rfl⟩ := h
    cases answer with
    | ok table => exact ⟨.atOnce, rfl⟩
    | error e => exact ⟨.intro e, rfl⟩
  | @passForTypes outcome _ _ hpass =>
    rw [hpass.filterMap_types?, hpass.filterMap_symbols?, List.append_nil, List.append_nil]
    cases outcome with
    | ok _ => exact ⟨h.1, h.2, hpass.outcome_after⟩
    | error e => exact .inl ⟨.once h.1, h.2⟩
  | retryTypes answer =>
    obtain ⟨⟨e⟩, rfl, -⟩ := h
    cases answer with
    | ok table => exact ⟨.again e, rfl⟩
    | error again => exact .inl ⟨.twice e again, rfl⟩
  | askSymbols table answer =>
    obtain ⟨htypes, rfl⟩ := h
    rw [show [Call.symbols answer].filterMap Call.types? = [] from rfl, List.append_nil]
    cases answer with
    | ok found => exact ⟨htypes, .atOnce⟩
    | error e => exact ⟨htypes, .intro e⟩
  | @passForSymbols table outcome _ _ hpass =>
    rw [hpass.filterMap_types?, hpass.filterMap_symbols?, List.append_nil, List.append_nil]
    cases outcome with
    | ok _ => exact ⟨h.1, h.2, hpass.outcome_after⟩
    | error e => exact .inr ⟨table, h.1, .once h.2⟩
  | retrySymbols table answer =>
    obtain ⟨htypes, ⟨e⟩, -⟩ := h
    rw [show [Call.symbols answer].filterMap Call.types? = [] from rfl, List.append_nil]
    cases answer with
    | ok found => exact ⟨htypes, .again e⟩
    | error again => exact .inr ⟨table, htypes, .twice e again⟩
  | stay =>
    rw [List.filterMap_nil, List.filterMap_nil, List.append_nil, List.append_nil]
    exact h

theorem length_le (h : Reached gate types symbols loading) :
    types.length ≤ 2 ∧ symbols.length ≤ 2 := by
  cases loading with
  | askTypes =>
    obtain ⟨rfl, rfl⟩ := h
    exact ⟨Nat.zero_le 2, Nat.zero_le 2⟩
  | refreshForTypes =>
    obtain ⟨htypes, rfl⟩ := h
    exact ⟨htypes.length_le, Nat.zero_le 2⟩
  | retryTypes =>
    obtain ⟨htypes, rfl, -⟩ := h
    exact ⟨htypes.length_le, Nat.zero_le 2⟩
  | askSymbols table =>
    obtain ⟨htypes, rfl⟩ := h
    exact ⟨htypes.length_le, Nat.zero_le 2⟩
  | refreshForSymbols table => exact ⟨h.1.length_le, h.2.length_le⟩
  | retrySymbols table => exact ⟨h.1.length_le, h.2.1.length_le⟩
  | loaded table found => exact ⟨h.1.length_le, h.2.length_le⟩
  | failed e =>
    obtain ⟨htypes, rfl⟩ | ⟨table, htypes, hsymbols⟩ := h
    · exact ⟨htypes.length_le, Nat.zero_le 2⟩
    · exact ⟨htypes.length_le, hsymbols.length_le⟩

/-- A file is loaded with what the last questions gave, and only when both gave something. -/
theorem result?_eq_ok_iff (h : Reached gate types symbols loading) (table : Source.TypeTable)
    (found : Source.SymbolTable) :
    loading.result? = some (.ok (table, found)) ↔
      types.getLast? = some (.ok table) ∧ symbols.getLast? = some (.ok found) := by
  cases loading with
  | askTypes =>
    obtain ⟨rfl, rfl⟩ := h
    simp [Loading.result?]
  | refreshForTypes =>
    obtain ⟨htypes, rfl⟩ := h
    simp [Loading.result?]
  | retryTypes =>
    obtain ⟨htypes, rfl, -⟩ := h
    simp [Loading.result?]
  | askSymbols table =>
    obtain ⟨htypes, rfl⟩ := h
    simp [Loading.result?]
  | refreshForSymbols table => simp [Loading.result?, h.2.getLast?_ne found]
  | retrySymbols table => simp [Loading.result?, h.2.1.getLast?_ne found]
  | loaded table found => simp [Loading.result?, h.1.getLast?, h.2.getLast?]
  | failed e =>
    obtain ⟨htypes, rfl⟩ | ⟨table, htypes, hsymbols⟩ := h
    · simp [Loading.result?]
    · simp [Loading.result?, hsymbols.getLast?_ne found]

/-- A question that is asked again is asked with success in the gate. -/
theorem outcome_of_again (h : Reached gate types symbols loading)
    (hmove : Move gate loading made after next)
    (hagain : (types ≠ [] ∧ made.filterMap Call.types? ≠ []) ∨
      (symbols ≠ [] ∧ made.filterMap Call.symbols? ≠ [])) :
    gate.outcome = some (.ok ()) := by
  cases hmove with
  | askTypes answer =>
    obtain ⟨rfl, rfl⟩ := h
    simp at hagain
  | passForTypes hpass => simp [hpass.filterMap_types?, hpass.filterMap_symbols?] at hagain
  | retryTypes answer => exact h.2.2
  | askSymbols table answer =>
    obtain ⟨htypes, rfl⟩ := h
    simp [Call.types?] at hagain
  | passForSymbols table hpass => simp [hpass.filterMap_types?, hpass.filterMap_symbols?] at hagain
  | retrySymbols table answer => exact h.2.2
  | stay => simp at hagain

end Reached

def Loading.isAtGate : Loading → Bool
  | .refreshForTypes | .refreshForSymbols _ => true
  | _ => false

section

variable {gate after : Gate} {loading next : Loading} {made : List Call} {e : IndexError}

theorem Move.eq_failed (h : Move gate loading made after next)
    (hgate : gate.outcome = some (.error e)) (hwait : loading.isAtGate = true) :
    next = .failed e := by
  cases h with
  | passForTypes hpass =>
    obtain ⟨rfl, -⟩ := hpass.eq_of_outcome hgate
    rfl
  | passForSymbols _ hpass =>
    obtain ⟨rfl, -⟩ := hpass.eq_of_outcome hgate
    rfl
  | stay h => cases loading <;> simp [Loading.isAtGate, Loading.result?] at h hwait
  | _ => simp [Loading.isAtGate] at hwait

/-- With a failure in the gate nothing is asked again: a question that fails leads to the gate. -/
theorem Move.isAtGate_of_error {types : List (Except IndexError Source.TypeTable)}
    {symbols : List (Except IndexError Source.SymbolTable)} {cause : IndexError}
    (h : Move gate loading made after next) (hreached : Reached gate types symbols loading)
    (hgate : gate.outcome = some (.error e))
    (hfails : .types (.error cause) ∈ made ∨ .symbols (.error cause) ∈ made) :
    next.isAtGate = true := by
  cases h with
  | askTypes answer =>
    obtain rfl : .error cause = answer := by simpa using hfails
    rfl
  | retryTypes => exact absurd (hreached.2.2.symm.trans hgate) (by simp)
  | askSymbols _ answer =>
    obtain rfl : .error cause = answer := by simpa using hfails
    rfl
  | retrySymbols => exact absurd (hreached.2.2.symm.trans hgate) (by simp)
  | passForTypes hpass => cases hpass <;> simp at hfails
  | passForSymbols _ hpass => cases hpass <;> simp at hfails
  | stay => simp at hfails

end

theorem Move.stepsLeft_le {gate after : Gate} {loading next : Loading} {calls : List Call}
    (h : Move gate loading calls after next) : next.stepsLeft ≤ loading.stepsLeft - 1 := by
  cases h with
  | askTypes answer => cases answer <;> simp [Loading.proceed, Loading.stepsLeft]
  | @passForTypes outcome => cases outcome <;> simp [Loading.proceed, Loading.stepsLeft]
  | retryTypes answer => cases answer <;> simp [Loading.proceed, Loading.stepsLeft]
  | askSymbols _ answer => cases answer <;> simp [Loading.proceed, Loading.stepsLeft]
  | @passForSymbols _ outcome => cases outcome <;> simp [Loading.proceed, Loading.stepsLeft]
  | retrySymbols _ answer => cases answer <;> simp [Loading.proceed, Loading.stepsLeft]
  | stay h =>
    have hleft := (Loading.result?_isSome_iff loading).mp h
    omega

/-! ## All files -/

/-- What every turn keeps. -/
structure Orderly {W : Type} (paths : List String) (crew : Crew Loader (Station W)) : Prop where
  paths_eq : crew.workers.map Loader.path = paths
  recorded : Recorded crew.shared.gate crew.shared.calls
  reached : ∀ (i : Nat) (loader : Loader), crew.workers[i]? = some loader →
    Reached crew.shared.gate loader.typesAnswers loader.symbolsAnswers loader.loading

section

variable {W : Type} {index : TableSource (StateM W)} {paths : List String}
  {crew : Crew Loader (Station W)} {i : Nat} {loader : Loader}

theorem orderly_loaders (world : W) (paths : List String) :
    Orderly paths (loaders world paths) where
  paths_eq := by simp [loaders, Function.comp_def]
  recorded := rfl
  reached i loader h := by
    obtain ⟨path, -, rfl⟩ := List.mem_map.mp (List.mem_of_getElem? h)
    exact ⟨rfl, rfl⟩

theorem Orderly.turn (h : Orderly paths crew) (hloader : crew.workers[i]? = some loader) :
    Orderly paths (crew.turn (Loader.step index) i) := by
  have hmove := move_outcome index loader crew.shared
  refine ⟨?_, ?_, ?_⟩
  · rw [Crew.map_turn (fun _ _ => rfl) i, h.paths_eq]
  · rw [Crew.shared_turn hloader]
    exact h.recorded.move hmove
  · rw [Crew.shared_turn hloader]
    refine Crew.forall_turn hloader ?_ fun j other hother =>
      (h.reached j other hother).of_other hmove
    have hreached := (h.reached i loader hloader).move hmove
    simp only [Loader.typesAnswers, Loader.symbolsAnswers, ← List.filterMap_append] at hreached
    exact hreached

theorem orderly_run (index : TableSource (StateM W)) (world : W) (paths : List String)
    (schedule : List Nat) :
    Orderly paths ((loaders world paths).run (Loader.step index) schedule) :=
  Crew.run_induction (fun _ _ _ h hloader => h.turn hloader) (orderly_loaders world paths) schedule

/-- That a loader waits at the gate, which holds a failure. -/
def Doomed (i : Nat) (path : String) (e : IndexError) (crew : Crew Loader (Station W)) : Prop :=
  crew.shared.gate.outcome = some (.error e) ∧
    ∃ loader, crew.workers[i]? = some loader ∧ loader.path = path ∧
      loader.loading.isAtGate = true

def GivenUp (i : Nat) (path : String) (e : IndexError) (crew : Crew Loader (Station W)) : Prop :=
  ∃ loader, crew.workers[i]? = some loader ∧ loader.path = path ∧ loader.loading = .failed e

variable {path : String} {e : IndexError}

theorem outcome_turn {held : Except IndexError Unit} (h : crew.shared.gate.outcome = some held)
    (j : Nat) : (crew.turn (Loader.step index) j).shared.gate.outcome = some held := by
  cases hloader : crew.workers[j]? with
  | none => rwa [Crew.turn_eq_self hloader]
  | some loader =>
    rw [Crew.shared_turn hloader]
    exact (congrArg Gate.outcome ((move_outcome index loader crew.shared).eq_of_outcome h)).trans h

theorem Doomed.turn_of_ne {j : Nat} (h : Doomed i path e crew) (hj : j ≠ i) :
    Doomed i path e (crew.turn (Loader.step index) j) := by
  obtain ⟨hgate, loader, hloader, hwait⟩ := h
  exact ⟨outcome_turn hgate j, loader, (Crew.getElem?_turn_of_ne (Ne.symm hj)).trans hloader, hwait⟩

/-- Who waits at a gate that holds a failure is given up for it. -/
theorem Doomed.turn (h : Doomed i path e crew) :
    GivenUp i path e (crew.turn (Loader.step index) i) := by
  obtain ⟨hgate, loader, hloader, hpath, hwait⟩ := h
  refine ⟨_, Crew.getElem?_turn_self hloader, hpath, ?_⟩
  exact (move_outcome index loader crew.shared).eq_failed hgate hwait

theorem GivenUp.turn (h : GivenUp i path e crew) (j : Nat) :
    GivenUp i path e (crew.turn (Loader.step index) j) := by
  obtain ⟨loader, hloader, hpath, hfailed⟩ := h
  by_cases hj : i = j
  · subst hj
    refine ⟨_, Crew.getElem?_turn_self hloader, hpath, ?_⟩
    show (loader.loading.step index.noting loader.path crew.shared.gate _).1.1 = .failed e
    rw [hfailed]
    rfl
  · exact ⟨loader, (Crew.getElem?_turn_of_ne hj).trans hloader, hpath, hfailed⟩

end

/-- One refresh for all files, as it shows in a state of the loaders. -/
structure OneRefresh {W : Type} (index : TableSource (StateM W)) (paths : List String)
    (crew : Crew Loader (Station W)) : Prop where
  /-- Each loader has a path of its own. -/
  paths_eq : crew.workers.map Loader.path = paths
  /-- What the gate holds comes from the refresh calls. -/
  recorded : Recorded crew.shared.gate crew.shared.calls
  typesOnce : (crew.shared.calls.filterMap Call.refreshTypes?).length ≤ 1
  symbolsOnce : (crew.shared.calls.filterMap Call.refreshSymbols?).length ≤ 1
  /-- Symbols are refreshed only after the types were, with success. -/
  symbolsAfterTypes : ∀ (before later : List Call) (answer : Except IndexError Unit),
    crew.shared.calls = before ++ .refreshSymbols answer :: later →
      .refreshTypes (.ok ()) ∈ before
  atMostTwice : ∀ loader ∈ crew.workers,
    loader.typesAnswers.length ≤ 2 ∧ loader.symbolsAnswers.length ≤ 2
  /-- A turn that asks something again is taken with success in the gate. -/
  againOnSuccess : ∀ loader ∈ crew.workers,
    ((loader.typesAnswers ≠ [] ∧ (loader.made index crew.shared).filterMap Call.types? ≠ []) ∨
      (loader.symbolsAnswers ≠ [] ∧
        (loader.made index crew.shared).filterMap Call.symbols? ≠ [])) →
      crew.shared.gate.outcome = some (.ok ())
  /-- A file is loaded exactly when the last question for each table was answered. -/
  loaded_iff : ∀ loader ∈ crew.workers, ∀ types symbols,
    loader.result? = some (.ok (types, symbols)) ↔
      loader.typesAnswers.getLast? = some (.ok types) ∧
        loader.symbolsAnswers.getLast? = some (.ok symbols)
  /-- A loader that is given the turns it may need finishes. -/
  finishes : ∀ (i : Nat) (loader : Loader), crew.workers[i]? = some loader →
    ∀ schedule : List Nat, Loading.stepLimit ≤ schedule.count i →
      ((crew.run (Loader.step index) schedule).workers[i]?.bind Loader.result?).isSome = true
  /-- A question that fails with a failure in the gate ends the loading with that failure. -/
  failsAsRefreshed : ∀ (i : Nat) (loader : Loader) (e cause : IndexError),
    crew.workers[i]? = some loader → crew.shared.gate.outcome = some (.error e) →
      (.types (.error cause) ∈ loader.made index crew.shared ∨
        .symbols (.error cause) ∈ loader.made index crew.shared) →
      ∀ schedule : List Nat, i ∈ schedule →
        ((crew.turn (Loader.step index) i).run (Loader.step index) schedule).workers[i]?.bind
          Loader.result? = some (.error (.index loader.path e))

section

variable {W : Type} {index : TableSource (StateM W)} {paths : List String}
  {crew : Crew Loader (Station W)} {i : Nat} {loader : Loader}

theorem Loader.result?_eq_ok_iff (loader : Loader) (types : Source.TypeTable)
    (symbols : Source.SymbolTable) :
    loader.result? = some (.ok (types, symbols)) ↔
      loader.loading.result? = some (.ok (types, symbols)) := by
  unfold Loader.result?
  cases loader.loading.result? with
  | none => simp
  | some result => cases result <;> simp [Except.mapError]

theorem Loader.stepsLeft_step (index : TableSource (StateM W)) (loader : Loader)
    (station : Station W) :
    (loader.step index station).1.loading.stepsLeft ≤ loader.loading.stepsLeft - 1 :=
  (move_outcome index loader station).stepsLeft_le

theorem isSome_result?_run (hloader : crew.workers[i]? = some loader) {schedule : List Nat}
    (hturns : Loading.stepLimit ≤ schedule.count i) :
    ((crew.run (Loader.step index) schedule).workers[i]?.bind Loader.result?).isSome = true := by
  have hleft : loader.loading.stepsLeft ≤ Loading.stepLimit := by
    cases loader.loading <;> simp [Loading.stepsLeft, Loading.stepLimit]
  obtain ⟨after, hafter, hdone⟩ :=
    Crew.run_finishes (f := fun loader : Loader => loader.loading.stepsLeft)
      (Loader.stepsLeft_step index) hloader (Nat.le_trans hleft hturns)
  rw [hafter, Option.bind_some, Loader.result?, Option.isSome_map]
  exact (Loading.result?_isSome_iff after.loading).mpr hdone

/-- A question that fails with a failure in the gate ends the loading with that failure. -/
theorem Orderly.result?_run (h : Orderly paths crew) {e cause : IndexError}
    (hloader : crew.workers[i]? = some loader) (hgate : crew.shared.gate.outcome = some (.error e))
    (hfails : .types (.error cause) ∈ loader.made index crew.shared ∨
      .symbols (.error cause) ∈ loader.made index crew.shared)
    {schedule : List Nat} (hi : i ∈ schedule) :
    ((crew.turn (Loader.step index) i).run (Loader.step index) schedule).workers[i]?.bind
      Loader.result? = some (.error (.index loader.path e)) := by
  have hmove := move_outcome index loader crew.shared
  have hdoomed : Doomed i loader.path e (crew.turn (Loader.step index) i) :=
    ⟨outcome_turn hgate i, _, Crew.getElem?_turn_self hloader, rfl,
      hmove.isAtGate_of_error (h.reached i loader hloader) hgate hfails⟩
  obtain ⟨after, hafter, hpath, hfailed⟩ : GivenUp i loader.path e
      ((crew.turn (Loader.step index) i).run (Loader.step index) schedule) :=
    Crew.run_leads (fun _ _ hj hdoomed => hdoomed.turn_of_ne hj) (fun _ hdoomed => hdoomed.turn)
      (fun _ j hgiven => hgiven.turn j) hdoomed hi
  rw [hafter, Option.bind_some, Loader.result?, hfailed, hpath]
  rfl

end

/-- Whatever the index answers and whoever's turn it is, there is one refresh for all files. -/
theorem oneRefresh_run {W : Type} (index : TableSource (StateM W)) (world : W)
    (paths : List String) (schedule : List Nat) :
    OneRefresh index paths ((loaders world paths).run (Loader.step index) schedule) := by
  have h := orderly_run index world paths schedule
  have hreached {loader : Loader} (hmem : loader ∈ _) :=
    let ⟨i, hi⟩ := List.getElem?_of_mem hmem
    h.reached i loader hi
  exact {
    paths_eq := h.paths_eq
    recorded := h.recorded
    typesOnce := h.recorded.length_refreshTypes_le
    symbolsOnce := h.recorded.length_refreshSymbols_le
    symbolsAfterTypes := fun _ _ _ hcalls => h.recorded.refreshTypes_mem hcalls
    atMostTwice := fun _ hmem => (hreached hmem).length_le
    againOnSuccess := fun loader hmem hagain =>
      (hreached hmem).outcome_of_again (move_outcome index loader _) hagain
    loaded_iff := fun loader hmem types symbols =>
      (loader.result?_eq_ok_iff types symbols).trans
        ((hreached hmem).result?_eq_ok_iff types symbols)
    finishes := fun _ _ hloader _ hturns => isSome_result?_run hloader hturns
    failsAsRefreshed := fun _ _ _ _ hloader hgate hfails _ hi =>
      h.result?_run hloader hgate hfails hi }

end Ferry.Index
