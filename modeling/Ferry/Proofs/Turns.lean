/-
  Ferry.Proofs.Turns

  Workers that take turns on something they share.  A schedule says whose turn it is.  A turn is one
  step of one worker, which may change that worker and what is shared, and leaves the others alone.

  What every turn keeps holds after every schedule (`run_induction`).  What the turns of others
  keep, and a worker's own turn turns into something lasting, has become that after every schedule
  in which the worker has a turn (`run_leads`).  A worker that gets a turn for each of its steps
  finishes (`run_finishes`).

  What workers share is often a blend of what each of them has learned (`Blend`).
-/
import Mathlib.Data.List.Basic

namespace Ferry

structure Crew (ω σ : Type) where
  workers : List ω
  shared : σ

namespace Crew

variable {ω σ : Type} {step : ω → σ → ω × σ} {crew : Crew ω σ} {i : Nat}

/-- The worker at a place takes one step; without one there nothing happens. -/
def turn (step : ω → σ → ω × σ) (crew : Crew ω σ) (i : Nat) : Crew ω σ :=
  match crew.workers[i]? with
  | none => crew
  | some worker =>
    ⟨crew.workers.set i (step worker crew.shared).1, (step worker crew.shared).2⟩

def run (step : ω → σ → ω × σ) (crew : Crew ω σ) (schedule : List Nat) : Crew ω σ :=
  schedule.foldl (turn step) crew

@[simp] theorem run_nil : crew.run step [] = crew := rfl

theorem run_cons (i : Nat) (rest : List Nat) :
    crew.run step (i :: rest) = (crew.turn step i).run step rest :=
  rfl

theorem run_append (first rest : List Nat) :
    crew.run step (first ++ rest) = (crew.run step first).run step rest :=
  List.foldl_append

/-! ## One turn -/

theorem turn_eq_self (h : crew.workers[i]? = none) : crew.turn step i = crew := by
  rw [turn, h]

theorem turn_eq {worker : ω} (h : crew.workers[i]? = some worker) :
    crew.turn step i =
      ⟨crew.workers.set i (step worker crew.shared).1, (step worker crew.shared).2⟩ := by
  rw [turn, h]

theorem getElem?_turn_self {worker : ω} (h : crew.workers[i]? = some worker) :
    (crew.turn step i).workers[i]? = some (step worker crew.shared).1 := by
  obtain ⟨hlt, -⟩ := List.getElem?_eq_some_iff.mp h
  rw [turn_eq h, List.getElem?_set_self hlt]

theorem getElem?_turn_of_ne {j : Nat} (h : j ≠ i) :
    (crew.turn step i).workers[j]? = crew.workers[j]? := by
  cases hworker : crew.workers[i]? with
  | none => rw [turn_eq_self hworker]
  | some worker => rw [turn_eq hworker, List.getElem?_set_ne (Ne.symm h)]

theorem shared_turn {worker : ω} (h : crew.workers[i]? = some worker) :
    (crew.turn step i).shared = (step worker crew.shared).2 := by
  rw [turn_eq h]

@[simp] theorem length_turn (i : Nat) :
    (crew.turn step i).workers.length = crew.workers.length := by
  cases hworker : crew.workers[i]? with
  | none => rw [turn_eq_self hworker]
  | some worker => rw [turn_eq hworker, List.length_set]

theorem forall_turn {Q : Nat → ω → Prop} {worker : ω} (h : crew.workers[i]? = some worker)
    (hown : Q i (step worker crew.shared).1)
    (hothers : ∀ j other, crew.workers[j]? = some other → Q j other) :
    ∀ j other, (crew.turn step i).workers[j]? = some other → Q j other := by
  intro j other hother
  by_cases hj : j = i
  · subst hj
    rw [getElem?_turn_self h] at hother
    obtain rfl := Option.some.inj hother
    exact hown
  · rw [getElem?_turn_of_ne hj] at hother
    exact hothers j other hother

theorem map_turn {β : Type} {f : ω → β}
    (hf : ∀ worker shared, f (step worker shared).1 = f worker) (i : Nat) :
    (crew.turn step i).workers.map f = crew.workers.map f := by
  refine List.ext_getElem? fun j => ?_
  rw [List.getElem?_map, List.getElem?_map]
  by_cases hj : j = i
  · subst hj
    cases hworker : crew.workers[j]? with
    | none => rw [turn_eq_self hworker, hworker]
    | some worker => rw [getElem?_turn_self hworker, Option.map_some, Option.map_some, hf]
  · rw [getElem?_turn_of_ne hj]

/-! ## Schedules -/

/-- What every turn keeps holds after every schedule. -/
theorem run_induction {P : Crew ω σ → Prop}
    (hturn : ∀ crew i worker, P crew → crew.workers[i]? = some worker → P (crew.turn step i))
    (h : P crew) (schedule : List Nat) : P (crew.run step schedule) := by
  induction schedule generalizing crew with
  | nil => exact h
  | cons i rest ih =>
    rw [run_cons]
    refine ih ?_
    cases hworker : crew.workers[i]? with
    | none =>
      rw [turn_eq_self hworker]
      exact h
    | some worker => exact hturn crew i worker h hworker

/-- A worker that has a turn brings about what lasts from then on. -/
theorem run_leads {P R : Crew ω σ → Prop}
    (hother : ∀ crew j, j ≠ i → P crew → P (crew.turn step j))
    (hown : ∀ crew, P crew → R (crew.turn step i))
    (hlasting : ∀ crew j, R crew → R (crew.turn step j))
    (h : P crew) {schedule : List Nat} (hi : i ∈ schedule) : R (crew.run step schedule) := by
  induction schedule generalizing crew with
  | nil => exact absurd hi List.not_mem_nil
  | cons j rest ih =>
    rw [run_cons]
    by_cases hj : j = i
    · subst hj
      exact run_induction (fun crew j _ hR _ => hlasting crew j hR) (hown crew h) rest
    · refine ih (hother crew j hj h) ?_
      exact (List.mem_cons.mp hi).resolve_left (Ne.symm hj)

/-- A worker with a turn for each step that it may still need has none left. -/
theorem run_finishes {f : ω → Nat}
    (hstep : ∀ worker shared, f (step worker shared).1 ≤ f worker - 1)
    {worker : ω} (h : crew.workers[i]? = some worker) {schedule : List Nat}
    (hturns : f worker ≤ schedule.count i) :
    ∃ after, (crew.run step schedule).workers[i]? = some after ∧ f after = 0 := by
  induction schedule generalizing crew worker with
  | nil => exact ⟨worker, h, Nat.le_zero.mp hturns⟩
  | cons j rest ih =>
    by_cases hj : i = j
    · subst hj
      refine ih (getElem?_turn_self h) ?_
      have hleft := hstep worker crew.shared
      rw [List.count_cons_self] at hturns
      omega
    · refine ih ((getElem?_turn_of_ne hj).trans h) ?_
      rwa [List.count_cons_of_ne (Ne.symm hj)] at hturns

theorem map_run {β : Type} {f : ω → β}
    (hf : ∀ worker shared, f (step worker shared).1 = f worker) (schedule : List Nat) :
    (crew.run step schedule).workers.map f = crew.workers.map f :=
  run_induction (P := fun after => after.workers.map f = crew.workers.map f)
    (fun _ i _ h _ => by rw [map_turn hf i, h]) rfl schedule

theorem length_run (step : ω → σ → ω × σ) (crew : Crew ω σ) (schedule : List Nat) :
    (crew.run step schedule).workers.length = crew.workers.length :=
  run_induction (P := fun after => after.workers.length = crew.workers.length)
    (fun _ i _ h _ => by rw [length_turn, h]) rfl schedule

end Crew

/-! ## What is put together from several places -/

/-- That what is known in one place is put together from what is known in others: each value comes
    from one of them, and there is none only where none of them has one. -/
structure Blend {κ ν : Type} (whole : κ → Option ν) (parts : List (κ → Option ν)) : Prop where
  some_of : ∀ key value, whole key = some value → ∃ part ∈ parts, part key = some value
  none_of : ∀ key, whole key = none → ∀ part ∈ parts, part key = none

/-- What it may mean for a key that one of the places learns something: the whole learns it too, or
    nothing changes, or the whole keeps what it knows and the place does not give up what it
    knew. -/
def Learns {ν : Type} (whole part after grown : Option ν) : Prop :=
  (after = grown ∧ grown ≠ none) ∨ (after = whole ∧ grown = part) ∨
    (after = whole ∧ whole ≠ none ∧ (part ≠ none → grown = part))

namespace Blend

variable {κ ν : Type} {whole other after : κ → Option ν} {parts : List (κ → Option ν)}

theorem nothing (hwhole : ∀ key, whole key = none)
    (hparts : ∀ part ∈ parts, ∀ key, part key = none) : Blend whole parts where
  some_of key value h := absurd ((hwhole key).symm.trans h) (by simp)
  none_of key _ part hpart := hparts part hpart key

theorem set {i : Nat} {part grown : κ → Option ν} (h : Blend whole parts)
    (hpart : parts[i]? = some part)
    (hafter : ∀ key, Learns (whole key) (part key) (after key) (grown key)) :
    Blend after (parts.set i grown) := by
  obtain ⟨hi, -⟩ := List.getElem?_eq_some_iff.mp hpart
  have hgrown : grown ∈ parts.set i grown := List.mem_set hi grown
  -- a value from a place that does not forget it is still there
  have hkept (key : κ) (value : ν) (hwhole : whole key = some value)
      (hsame : part key ≠ none → grown key = part key) :
      ∃ source ∈ parts.set i grown, source key = some value := by
    obtain ⟨source, hsource, hvalue⟩ := h.some_of key value hwhole
    obtain ⟨j, hj⟩ := List.getElem?_of_mem hsource
    by_cases hij : i = j
    · subst hij
      obtain rfl := Option.some.inj (hpart.symm.trans hj)
      exact ⟨grown, hgrown, (hsame (by simp [hvalue])).trans hvalue⟩
    · refine ⟨source, List.mem_of_getElem? (i := j) ?_, hvalue⟩
      rwa [List.getElem?_set_ne hij]
  constructor
  · intro key value hvalue
    obtain ⟨hnew, -⟩ | ⟨hsame, hpart'⟩ | ⟨hsame, -, hpart'⟩ := hafter key
    · exact ⟨grown, hgrown, hnew.symm.trans hvalue⟩
    · exact hkept key value (hsame.symm.trans hvalue) fun _ => hpart'
    · exact hkept key value (hsame.symm.trans hvalue) hpart'
  · intro key hnone source hsource
    obtain ⟨hnew, hsome⟩ | ⟨hsame, hpart'⟩ | ⟨hsame, hsome, -⟩ := hafter key
    · exact absurd (hnew.symm.trans hnone) hsome
    · have hwhole := hsame.symm.trans hnone
      obtain hsource | rfl := List.mem_or_eq_of_mem_set hsource
      · exact h.none_of key hwhole source hsource
      · rw [hpart']
        exact h.none_of key hwhole part (List.mem_of_getElem? hpart)
    · exact absurd (hsame.symm.trans hnone) hsome

theorem eq_none (h : Blend whole parts) (hother : Blend other parts) {key : κ}
    (hnone : whole key = none) : other key = none := by
  cases hvalue : other key with
  | none => rfl
  | some value =>
    obtain ⟨part, hpart, hheld⟩ := hother.some_of key value hvalue
    exact hheld.symm.trans (h.none_of key hnone part hpart)

theorem eq (h : Blend whole parts) (hother : Blend other parts)
    (hparts : ∀ key, ∀ part ∈ parts, ∀ source ∈ parts, part key ≠ none → source key ≠ none →
      part key = source key) (key : κ) : whole key = other key := by
  cases hvalue : whole key with
  | none => exact (h.eq_none hother hvalue).symm
  | some value =>
    cases hlast : other key with
    | none => exact hvalue.symm.trans (hother.eq_none h hlast)
    | some last =>
      obtain ⟨part, hpart, hheld⟩ := h.some_of key value hvalue
      obtain ⟨source, hsource, hlasting⟩ := hother.some_of key last hlast
      rw [← hheld, ← hlasting]
      exact hparts key part hpart source hsource (by simp [hheld]) (by simp [hlasting])

end Blend

namespace Crew

variable {ω σ κ ν : Type} {step : ω → σ → ω × σ} {crew : Crew ω σ} {own : ω → κ → Option ν}
  {known : σ → κ → Option ν}

/-- What is known to all stays a blend of what the workers know of their own. -/
theorem blend_turn {i : Nat} {worker : ω} (h : Blend (known crew.shared) (crew.workers.map own))
    (hworker : crew.workers[i]? = some worker)
    (hstep : ∀ key, (known crew.shared key = none → own worker key = none) →
      Learns (known crew.shared key) (own worker key) (known (step worker crew.shared).2 key)
        (own (step worker crew.shared).1 key)) :
    Blend (known (crew.turn step i).shared) ((crew.turn step i).workers.map own) := by
  have hown : (crew.workers.map own)[i]? = some (own worker) := by
    rw [List.getElem?_map, hworker, Option.map_some]
  rw [turn_eq hworker, List.map_set]
  exact h.set hown fun key =>
    hstep key fun hnone => h.none_of key hnone _ (List.mem_of_getElem? hown)

end Crew

end Ferry
