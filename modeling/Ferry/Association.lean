/-
  Ferry.Association

  Lists of pairs read as finite maps. A value put under a key that is present replaces the old value
  where it stands, so keys keep the order in which they came first.
-/

namespace Ferry.Association

variable {α β : Type} [BEq α]

def put (key : α) (value : β) : List (α × β) → List (α × β)
  | [] => [(key, value)]
  | (k, v) :: rest => if key == k then (k, value) :: rest else (k, v) :: put key value rest

/-- What is found under a key after a value was put under another or the same. -/
theorem lookup_put [LawfulBEq α] (key other : α) (value : β) (pairs : List (α × β)) :
    (put key value pairs).lookup other =
      if other == key then some value else pairs.lookup other := by
  induction pairs with
  | nil =>
    simp only [put, List.lookup_cons, List.lookup_nil]
    cases other == key <;> rfl
  | cons pair rest ih =>
    obtain ⟨k, v⟩ := pair
    simp only [put]
    split
    next h =>
      -- The key stands here, and its value is replaced.
      have hk := eq_of_beq h
      subst hk
      simp only [List.lookup_cons]
      cases other == key <;> rfl
    next h =>
      -- Another key stands here; if it is the one asked for, that is not the one put.
      simp only [List.lookup_cons, ih]
      cases hk : other == k with
      | false => rfl
      | true =>
        have hk := eq_of_beq hk
        subst hk
        cases ho : other == key with
        | false => rfl
        | true => exact absurd (by rw [eq_of_beq ho]; exact BEq.rfl) h

/-- Adds a member that is not there yet at the end. -/
def add (member : α) (members : List α) : List α :=
  if members.contains member then members else members ++ [member]

theorem contains_add [LawfulBEq α] (member other : α) (members : List α) :
    (add member members).contains other = (other == member || members.contains other) := by
  unfold add
  split
  next h =>
    cases ho : other == member with
    | false => simp
    | true => rw [eq_of_beq ho, h]; rfl
  next =>
    by_cases ho : other = member
    · simp [ho]
    · simp [ho]

end Ferry.Association
