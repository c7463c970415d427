/-
  Ferry.Proofs.Source.Outcome

  What a reading can come to.  While a file is read, others may record origins at any time, so a
  question may be answered either way: `Exchange.Reaches` allows for every answer, and so covers
  every way to take the steps.  `Adapter.Yields` is the same for readings, from any state on.

  A reading is taken apart by the lemmas on its steps: what a sequence yields comes from what its
  parts yield (`yields_bind`).  In the other direction, what the parts of a reading are sure to
  yield is put together to what the whole is sure to yield, with the pending bindings as they were
  (`Ensures`).
-/
import Ferry.Source.Adapter
import Mathlib.Data.List.Forall2

namespace Ferry.Source

namespace Exchange

variable {α β : Type}

/-- The values that a computation comes to under some answers. -/
inductive Reaches : Exchange α → α → Prop where
  | done (value : α) : Reaches (.done value) value
  | record {name origin : String} {rest : Unit → Exchange α} {value : α}
      (h : Reaches (rest ()) value) : Reaches (.record name origin rest) value
  | ask {name : String} {rest : Bool → Exchange α} {value : α} (answer : Bool)
      (h : Reaches (rest answer) value) : Reaches (.ask name rest) value

/-- Taking all steps at once is one way. -/
theorem reaches_run (e : Exchange α) (cache : OriginCache) : Reaches e (e.run cache).1 := by
  induction e generalizing cache with
  | done value => exact .done value
  | record name origin rest ih => exact .record (ih () (cache.record name origin))
  | ask name rest ih => exact .ask (cache.isLibrary name) (ih (cache.isLibrary name) cache)

/-- Taking them without anything shared is another. -/
theorem reaches_alone (e : Exchange α) : Reaches e e.alone := by
  induction e with
  | done value => exact .done value
  | record name origin rest ih => exact .record (ih ())
  | ask name rest ih => exact .ask false (ih false)

theorem reaches_bind {e : Exchange α} {next : α → Exchange β} {value : β}
    (h : Reaches (e >>= next) value) : ∃ first, Reaches e first ∧ Reaches (next first) value := by
  induction e with
  | done first => exact ⟨first, .done first, h⟩
  | record name origin rest ih =>
    cases h with
    | record h =>
      obtain ⟨first, hfirst, hnext⟩ := ih () h
      exact ⟨first, .record hfirst, hnext⟩
  | ask name rest ih =>
    cases h with
    | ask answer h =>
      obtain ⟨first, hfirst, hnext⟩ := ih answer h
      exact ⟨first, .ask answer hfirst, hnext⟩

end Exchange

namespace Adapter

variable {α β : Type} {tables : SideTables}

/-- That a reading against side tables may go from one state to another and come to a value. -/
def Runs (tables : SideTables) (reading : Adapter α) (before : AdapterState) (value : α)
    (after : AdapterState) : Prop :=
  Exchange.Reaches ((reading.run tables).run before) (value, after)

theorem runs_pure {value other : α} {before after : AdapterState}
    (h : Runs tables (pure value) before other after) : other = value ∧ after = before := by
  cases h
  exact ⟨rfl, rfl⟩

theorem runs_bind {reading : Adapter α} {next : α → Adapter β} {value : β}
    {before after : AdapterState} (h : Runs tables (reading >>= next) before value after) :
    ∃ first middle, Runs tables reading before first middle ∧
      Runs tables (next first) middle value after := by
  obtain ⟨⟨first, middle⟩, hfirst, hnext⟩ := Exchange.reaches_bind h
  exact ⟨first, middle, hfirst, hnext⟩

theorem runs_read {found : SideTables} {before after : AdapterState}
    (h : Runs tables read before found after) : tables = found ∧ before = after := by
  cases h
  exact ⟨rfl, rfl⟩

theorem runs_get {found before after : AdapterState} (h : Runs tables get before found after) :
    before = found ∧ before = after := by
  cases h
  exact ⟨rfl, rfl⟩

theorem runs_setPending {pending : Pending} {before after : AdapterState}
    (h : Runs tables (setPending pending) before () after) : after = { before with pending } := by
  cases h
  rfl

theorem runs_takePending {pending : Pending} {before after : AdapterState}
    (h : Runs tables takePending before pending after) :
    pending = before.pending ∧ after = { before with pending := [] } := by
  cases h
  exact ⟨rfl, rfl⟩

/-- The values that a reading comes to against side tables, from some state on. -/
def Yields (tables : SideTables) (reading : Adapter α) (value : α) : Prop :=
  ∃ before after, Runs tables reading before value after

theorem yields_pure {value other : α} (h : Yields tables (pure value) other) : other = value := by
  obtain ⟨before, after, h⟩ := h
  exact (runs_pure h).1

theorem yields_bind {reading : Adapter α} {next : α → Adapter β} {value : β}
    (h : Yields tables (reading >>= next) value) :
    ∃ first, Yields tables reading first ∧ Yields tables (next first) value := by
  obtain ⟨before, after, h⟩ := h
  obtain ⟨first, middle, hfirst, hnext⟩ := runs_bind h
  exact ⟨first, ⟨before, middle, hfirst⟩, middle, after, hnext⟩

theorem yields_map {f : α → β} {reading : Adapter α} {value : β}
    (h : Yields tables (f <$> reading) value) :
    ∃ first, Yields tables reading first ∧ value = f first := by
  rw [map_eq_pure_bind] at h
  obtain ⟨first, hfirst, h⟩ := yields_bind h
  exact ⟨first, hfirst, yields_pure h⟩

theorem yields_read {found : SideTables} (h : Yields tables read found) : found = tables := by
  obtain ⟨before, after, h⟩ := h
  exact (runs_read h).1.symm

theorem yields_mapM {f : α → Adapter β} {items : List α} {values : List β}
    (h : Yields tables (items.mapM f) values) :
    List.Forall₂ (fun item value => Yields tables (f item) value) items values := by
  induction items generalizing values with
  | nil =>
    obtain rfl := yields_pure h
    exact .nil
  | cons item rest ih =>
    rw [List.mapM_cons] at h
    obtain ⟨first, hfirst, h⟩ := yields_bind h
    obtain ⟨others, hothers, h⟩ := yields_bind h
    obtain rfl := yields_pure h
    exact .cons hfirst (ih hothers)

/-- What may be missing is read if it is there. -/
theorem rel_of_yields_mapM {f : α → Adapter β} {item : Option α} {value : Option β}
    (h : Yields tables (item.mapM f) value) :
    Option.Rel (fun item value => Yields tables (f item) value) item value := by
  cases item with
  | none =>
    obtain rfl := yields_pure h
    exact .none
  | some item =>
    obtain ⟨first, hfirst, rfl⟩ := yields_map h
    exact .some hfirst

theorem rel_of_yields_mapM_map {γ : Type} {g : γ → α} {f : α → Adapter β} {item : Option γ}
    {value : Option β} (h : Yields tables ((item.map g).mapM f) value) :
    Option.Rel (fun item value => Yields tables (f (g item)) value) item value := by
  cases item with
  | none =>
    cases rel_of_yields_mapM h
    exact .none
  | some item =>
    cases rel_of_yields_mapM h with
    | some hvalue => exact .some hvalue

theorem isSome_of_yields_mapM {f : α → Adapter β} {item : Option α} {value : Option β}
    (h : Yields tables (item.mapM f) value) : value.isSome = item.isSome := by
  cases rel_of_yields_mapM h <;> rfl

theorem exists_of_yields_errorExpr {n : Node} {code : Code} {message : String} {value : Expr}
    (h : Yields tables (errorExpr n code message) value) :
    ∃ found, value = .error found (some n.head.span) ∧ found.code = some code ∧
      found.message = message := by
  obtain ⟨found, hfound, h⟩ := yields_bind h
  obtain ⟨span, -, hfound⟩ := yields_bind hfound
  obtain rfl := yields_pure hfound
  exact ⟨_, yields_pure h, rfl, rfl⟩

theorem yields_errorExpr {n : Node} {code : Code} {message : String} {value : Expr}
    (h : Yields tables (errorExpr n code message) value) :
    ∃ found span, value = .error found span := by
  obtain ⟨found, rfl, -, -⟩ := exists_of_yields_errorExpr h
  exact ⟨found, _, rfl⟩

/-! ## What readings are sure to do -/

/-- That a reading leaves the pending bindings as they are and comes only to values with a
property. -/
def Ensures (tables : SideTables) (reading : Adapter α) (P : α → Prop) : Prop :=
  ∀ before value after, Runs tables reading before value after →
    after.pending = before.pending ∧ P value

namespace Ensures

variable {reading : Adapter α} {next : α → Adapter β} {P P' : α → Prop} {Q : β → Prop}

theorem pure {value : α} (h : P value) : Ensures tables (Pure.pure value) P := by
  intro before other after hruns
  obtain ⟨rfl, rfl⟩ := runs_pure hruns
  exact ⟨rfl, h⟩

theorem bind (h : Ensures tables reading P) (hnext : ∀ value, P value →
    Ensures tables (next value) Q) : Ensures tables (reading >>= next) Q := by
  intro before value after hruns
  obtain ⟨first, middle, hfirst, hrest⟩ := runs_bind hruns
  obtain ⟨hmiddle, hvalue⟩ := h _ _ _ hfirst
  obtain ⟨hafter, hQ⟩ := hnext first hvalue _ _ _ hrest
  exact ⟨hafter.trans hmiddle, hQ⟩

theorem mono (h : Ensures tables reading P) (hP : ∀ value, P value → P' value) :
    Ensures tables reading P' :=
  fun _ _ _ hruns => ⟨(h _ _ _ hruns).1, hP _ (h _ _ _ hruns).2⟩

theorem map {f : α → β} (h : Ensures tables reading P) (hf : ∀ value, P value → Q (f value)) :
    Ensures tables (f <$> reading) Q := by
  rw [map_eq_pure_bind]
  exact h.bind fun value hvalue => pure (hf value hvalue)

end Ensures

theorem ensures_read : Ensures tables read (tables = ·) := by
  intro before found after h
  obtain ⟨rfl, rfl⟩ := runs_read h
  exact ⟨rfl, rfl⟩

theorem ensures_place (head : NodeHead) : Ensures tables (place head) (· = head.span) := by
  intro before span after h
  rw [place] at h
  split at h <;> cases h <;> exact ⟨rfl, rfl⟩

theorem ensures_diagnostic (n : Node) (code : Code) (message : String) :
    Ensures tables (diagnostic n code message) fun _ => True :=
  (ensures_place n.head).bind fun _ _ => .pure trivial

theorem ensures_warn (n : Node) (code : Code) (message : String) :
    Ensures tables (warn n code message) fun _ => True := by
  refine (ensures_place n.head).bind fun span _ before _ after h => ?_
  cases h
  exact ⟨rfl, trivial⟩

theorem ensures_isLibrary (offset : Nat) (name : String) :
    Ensures tables (isLibrary offset name) fun _ => True := by
  refine ensures_read.bind ?_
  rintro _ rfl
  split <;> intro before answer after h
  · cases h with
    | record h => cases h; exact ⟨rfl, trivial⟩
  · cases h with
    | ask answer h => cases h; exact ⟨rfl, trivial⟩

end Adapter

end Ferry.Source
