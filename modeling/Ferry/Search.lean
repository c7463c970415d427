/-
  Ferry.Search

  Binary search in an array. What is sought is given by an order, which tells of an element whether
  it lies before the place that is sought, there or after it. In an array in that order
  (`Ascending`), a search that fails gives the place where the element would belong
  (`search_error`).
-/
namespace Ferry

namespace Search

variable {α : Type} {order : α → Ordering} {items : Array α}

/-- Halves a stretch of an array until one element is left: the last one that does not lie after the
place, if there is any. -/
def bisect (order : α → Ordering) (items : Array α) (base size : Nat) (hsize : 0 < size)
    (hstop : base + size ≤ items.size) : Fin items.size :=
  if hone : size = 1 then ⟨base, by omega⟩
  else
    have hhalf : 0 < size - size / 2 := by omega
    if order items[base + size / 2] = .gt then
      bisect order items base (size - size / 2) hhalf (by omega)
    else bisect order items (base + size / 2) (size - size / 2) hhalf (by omega)
termination_by size

/-- The last place an order tells to be the one, or where it would be. -/
def search (order : α → Ordering) (items : Array α) : Except Nat (Fin items.size) :=
  if hsize : 0 < items.size then
    let found := bisect order items 0 items.size hsize (by omega)
    match order items[found] with
    | .eq => .ok found
    | .lt => .error (found + 1)
    | .gt => .error found
  else .error 0

/-- Where the elements end that have a property, which come first. -/
def partitionPoint (p : α → Bool) (items : Array α) : Nat :=
  match search (fun a => if p a then .lt else .gt) items with
  | .ok index => index
  | .error index => index

/-- That an array is in the order of a search: no element that lies after the place, or there, is
followed by one further ahead. -/
def Ascending (order : α → Ordering) (items : Array α) : Prop :=
  items.toList.Pairwise fun a b =>
    (order a = .gt → order b = .gt) ∧ (order b = .lt → order a = .lt)

theorem Ascending.gt (h : Ascending order items) {i j : Nat} (hi : i < items.size)
    (hj : j < items.size) (hle : i ≤ j) (hgt : order items[i] = .gt) : order items[j] = .gt := by
  obtain rfl | hlt := Nat.eq_or_lt_of_le hle
  · exact hgt
  · exact (List.pairwise_iff_getElem.mp h i j (by simpa) (by simpa) hlt).1 hgt

theorem Ascending.lt (h : Ascending order items) {i j : Nat} (hi : i < items.size)
    (hj : j < items.size) (hle : i ≤ j) (hlt : order items[j] = .lt) : order items[i] = .lt := by
  obtain rfl | hless := Nat.eq_or_lt_of_le hle
  · exact hlt
  · exact (List.pairwise_iff_getElem.mp h i j (by simpa) (by simpa) hless).2 hlt

/-- What is left of a stretch does not lie after the place unless it starts the stretch, and all
that follows it does. -/
theorem bisect_spec (h : Ascending order items) {base size : Nat} (hsize : 0 < size)
    (hstop : base + size ≤ items.size) {found : Fin items.size}
    (hfound : bisect order items base size hsize hstop = found) :
    (found = base ∨ order items[found] ≠ .gt) ∧
      ∀ j (hj : j < items.size), found < j → j < base + size → order items[j] = .gt := by
  fun_induction bisect order items base size hsize hstop with
  | case1 base hsize hstop =>
    rw [bisect, dif_pos rfl] at hfound
    subst hfound
    exact ⟨.inl rfl, fun j _ hfound hbelow => absurd hbelow (by dsimp only at hfound; omega)⟩
  | case2 base size hsize hstop hone hhalf hgt ih =>
    rw [bisect, dif_neg hone, if_pos hgt] at hfound
    obtain ⟨hstart, hrest⟩ := ih hfound
    refine ⟨hstart, fun j hj hfound hbelow => ?_⟩
    -- The upper half lies after the place.
    obtain hlower | hupper := Nat.lt_or_ge j (base + (size - size / 2))
    · exact hrest j hj hfound hlower
    · exact h.gt _ hj (by omega) hgt
  | case3 base size hsize hstop hone hhalf hgt ih =>
    rw [bisect, dif_neg hone, if_neg hgt] at hfound
    obtain ⟨hstart, hrest⟩ := ih hfound
    refine ⟨.inr ?_, fun j hj hfound hbelow => hrest j hj hfound (by omega)⟩
    obtain hstart | hfound := hstart
    · simpa only [Fin.getElem_fin, hstart] using hgt
    · exact hfound

theorem search_ok {index : Fin items.size} (h : search order items = .ok index) :
    order items[index] = .eq := by
  simp only [search] at h
  split at h
  · split at h
    · rename_i heq
      cases h
      exact heq
    all_goals cases h
  · cases h

/-- Where a search fails, all elements before the place lie before what is sought, and the others
after it. -/
theorem search_error (hordered : Ascending order items) {place : Nat}
    (h : search order items = .error place) (j : Nat) (hj : j < items.size) :
    order items[j] = if j < place then .lt else .gt := by
  simp only [search] at h
  split at h
  · rename_i hsize
    have ⟨hstart, habove⟩ := bisect_spec hordered hsize (Nat.le_of_eq (Nat.zero_add _)) rfl
    split at h
    · cases h
    · rename_i hlt
      cases h
      split
      · exact hordered.lt hj _ (by omega) hlt
      · exact habove j hj (by omega) (by omega)
    · rename_i hgt
      cases h
      -- Only the first element can be left although it lies after the place.
      have hzero := hstart.resolve_right (fun hne => hne hgt)
      rw [if_neg (by omega)]
      exact hordered.gt _ hj (by omega) hgt
  · exact absurd hj (by omega)

/-- The elements with a property end where they are told to. -/
theorem partitionPoint_spec {p : α → Bool}
    (hordered : items.toList.Pairwise fun a b => p b = true → p a = true) (j : Nat)
    (hj : j < items.size) : p items[j] = decide (j < partitionPoint p items) := by
  have hascending : Ascending (fun a => if p a then .lt else .gt) items := by
    refine hordered.imp fun {a b} hab => ?_
    cases hb : p b <;> cases ha : p a <;> simp_all
  rw [partitionPoint]
  cases h : search (fun a => if p a then .lt else .gt) items with
  | ok index =>
    have := search_ok h
    split at this <;> cases this
  | error place =>
    have := search_error hascending h j hj
    by_cases hlt : j < place <;> cases hp : p items[j] <;> simp_all

end Search

end Ferry
