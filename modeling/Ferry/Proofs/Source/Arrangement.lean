/-
  Ferry.Proofs.Source.Arrangement

  Argument nodes from bindings.  The shares of a binding are the arguments themselves, by parameter;
  `slotsOf_eq` gives the slots of a shuffle from the shares, one slot for each parameter, and
  `arrangeFor_eq` says which of the two kinds of node a call gets.
-/
import Ferry.Proofs.Program.Shuffle
import Ferry.Proofs.Source.Binding
import Ferry.Source.Call

namespace Ferry.Source

/-- The arguments each parameter takes. -/
def shares (binding : Binding) (values : List Expr) : List (List Expr) :=
  binding.map fun bound => bound.filterMap (values[·]?)

/-- The slot of a parameter with its arguments in it. -/
def slotOf (p : ParameterInfo) (share : List Expr) : Slot :=
  if p.isVariadic then .variadic p.label share
  else match share with
    | [] => .absent p.label
    | value :: _ => .present p.label value

/-! ## Shares -/

theorem filterMap_getElem?_range' {α : Type} (values : List α) (start count : Nat) :
    (List.range' start count).filterMap (values[·]?) = (values.drop start).take count := by
  induction count generalizing start with
  | zero => simp
  | succ count ih =>
    rw [List.range'_succ]
    cases hv : values[start]? with
    | none =>
      have hlen : values.length ≤ start := List.getElem?_eq_none_iff.mp hv
      rw [List.filterMap_cons_none hv, ih, List.drop_eq_nil_of_le hlen,
        List.drop_eq_nil_of_le (by omega), List.take_nil, List.take_nil]
    | some value =>
      obtain ⟨hlt, hvalue⟩ := List.getElem?_eq_some_iff.mp hv
      rw [List.filterMap_cons_some hv, ih, List.drop_eq_getElem_cons hlt, List.take_succ_cons,
        hvalue]

theorem length_filterMap_getElem? {α : Type} {values : List α} {bound : List Nat}
    (h : ∀ i ∈ bound, i < values.length) :
    (bound.filterMap (values[·]?)).length = bound.length := by
  induction bound with
  | nil => rfl
  | cons i rest ih =>
    have hi : i < values.length := h i List.mem_cons_self
    rw [List.filterMap_cons_some (List.getElem?_eq_getElem hi), List.length_cons, List.length_cons,
      ih fun j hj => h j (List.mem_cons_of_mem _ hj)]

theorem moveOut_of_nodup {α : Type} {indices : List Nat} (h : indices.Nodup)
    (places : List (Option α)) : moveOut indices places = indices.filterMap (places[·]?.join) := by
  induction indices generalizing places with
  | nil => rfl
  | cons i rest ih =>
    obtain ⟨hi, hrest⟩ := List.nodup_cons.mp h
    have hset : ∀ j ∈ rest, (places.set i none)[j]?.join = places[j]?.join := by
      intro j hj
      have hne : i ≠ j := fun heq => hi (heq ▸ hj)
      rw [List.getElem?_set_ne hne]
    rw [moveOut, ih hrest, List.filterMap_congr hset, List.filterMap_cons]
    cases places[i]?.join <;> rfl

theorem flatten_shares {binding : Binding} {values : List Expr}
    (h : binding.flatten = List.range' 0 values.length) :
    (shares binding values).flatten = values := by
  rw [shares, ← List.filterMap_flatten, h, filterMap_getElem?_range', List.drop_zero,
    List.take_length]

theorem forall₂_length_shares {binding : Binding} {values : List Expr}
    (h : ∀ i ∈ binding.flatten, i < values.length) :
    List.Forall₂ (fun bound share => share.length = bound.length) binding
    (shares binding values) := by
  rw [shares, List.forall₂_map_right_iff, List.forall₂_same]
  intro bound hbound
  exact length_filterMap_getElem? fun i hi => h i (List.mem_flatten_of_mem hbound hi)

theorem shares_range (values : List Expr) :
    shares ((List.range values.length).map fun i => [i]) values = values.map fun value =>
    [value] := by
  apply List.ext_getElem
  · simp [shares]
  · intro i hi _
    have hlt : i < values.length := by simpa [shares] using hi
    simp [shares, hlt]

/-- The shares of a call with a trailing closure: the parameters before the one it goes to share the
    other arguments, and those after it take none. -/
theorem shares_trailing {before after : Binding} {values : List Expr}
    (hbefore : before.flatten = List.range' 0 values.length) (hafter : ∀ bound ∈ after, bound = [])
    (more : List Expr) :
    shares (before ++ [values.length] :: after) (values ++ more) =
      shares before values ++ more.take 1 :: after.map fun _ => [] := by
  have hshare : ∀ bound ∈ before, bound.filterMap ((values ++ more)[·]?) =
      bound.filterMap (values[·]?) := by
    intro bound hbound
    refine List.filterMap_congr fun i hi => ?_
    have hmem : i ∈ before.flatten := List.mem_flatten_of_mem hbound hi
    rw [hbefore] at hmem
    rw [List.getElem?_append_left (by simpa using hmem)]
  rw [shares, shares, List.map_append, List.map_cons, List.map_congr_left hshare]
  congr 2
  · cases more <;> simp
  · refine List.map_congr_left fun bound hbound => ?_
    rw [hafter bound hbound, List.filterMap_nil]

theorem flatten_of_bindArguments {ps : List ParameterInfo} {regular : List Argument}
    {trailing : Option Expr} {binding : Binding}
    (h : bindArguments ps (regular.map Argument.label) trailing.isSome = some binding) :
    binding.flatten = List.range' 0 (supplied regular trailing).length := by
  cases trailing with
  | none => simpa [supplied] using flatten_bindArguments h
  | some closure =>
    obtain ⟨before, after, rfl, hbefore, hafter⟩ := bindArguments_trailing h
    have hnil : after.flatten = [] := List.flatten_eq_nil_iff.mpr hafter
    rw [List.flatten_append, List.flatten_cons, hnil, hbefore, List.append_nil]
    simp only [List.length_map, supplied, Option.toList_some, List.map_cons, List.map_nil,
      List.length_append, List.length_singleton]
    rw [← List.range'_append_1, Nat.zero_add]
    rfl

/-! ## Slots -/

theorem parts_slotOf {p : ParameterInfo} {bound : List Nat} {share : List Expr} (h : FitsIn p bound)
    (hshare : share.length = bound.length) :
    (slotOf p share).label = p.label ∧ Shuffle.indexOf (slotOf p share) = shuffleIndex p bound ∧
      (slotOf p share).values = share := by
  by_cases hp : p.isVariadic
  · simp [slotOf, shuffleIndex, hp, Slot.label, Shuffle.indexOf, Slot.values, hshare]
  · rw [Bool.not_eq_true] at hp
    have hle := h hp
    obtain hnone | hone : bound.length = 0 ∨ bound.length = 1 := by omega
    · rw [hnone, List.length_eq_zero_iff] at hshare
      rw [List.length_eq_zero_iff] at hnone
      simp [slotOf, shuffleIndex, hp, Slot.label, Shuffle.indexOf, Slot.values, hnone, hshare]
    · obtain ⟨e, rfl⟩ := List.length_eq_one_iff.mp (hshare.trans hone)
      obtain ⟨i, rfl⟩ := List.length_eq_one_iff.mp hone
      simp [slotOf, shuffleIndex, hp, Slot.label, Shuffle.indexOf, Slot.values]

theorem parts_zipWith_slotOf {ps : List ParameterInfo} {binding : Binding}
    {parts : List (List Expr)} (h : List.Forall₂ FitsIn ps binding)
    (hparts : List.Forall₂ (fun bound share => share.length = bound.length) binding parts) :
    Shuffle.labels (List.zipWith slotOf ps parts) = ps.map ParameterInfo.label ∧
      Shuffle.indices (List.zipWith slotOf ps parts) = List.zipWith shuffleIndex ps binding ∧
      (List.zipWith slotOf ps parts).map Slot.values = parts := by
  induction h generalizing parts with
  | nil =>
    cases hparts
    exact ⟨rfl, rfl, rfl⟩
  | cons hfits _ ih =>
    cases hparts with
    | cons hshare hparts =>
      obtain ⟨hlabel, hindex, hvalues⟩ := parts_slotOf hfits hshare
      obtain ⟨hlabels, hindices, hrest⟩ := ih hparts
      exact ⟨congrArg₂ List.cons hlabel hlabels, congrArg₂ List.cons hindex hindices,
        congrArg₂ List.cons hvalues hrest⟩

theorem slotsOf_eq {ps : List ParameterInfo} {binding : Binding} {values : List Expr}
    (h : List.Forall₂ FitsIn ps binding) (hflat : binding.flatten = List.range' 0 values.length) :
    slotsOf ps binding values = .ok (List.zipWith slotOf ps (shares binding values)) := by
  have hlt : ∀ i ∈ binding.flatten, i < values.length := by
    rw [hflat]
    simp
  obtain ⟨hlabels, hindices, hvalues⟩ := parts_zipWith_slotOf h (forall₂_length_shares hlt)
  refine Shuffle.ofParts_eq_ok_iff.mpr ⟨hlabels, hindices, ?_⟩
  have hnodup : binding.flatten.Nodup := hflat ▸ List.nodup_range'
  have hplaces : ∀ i : Nat, (values.map some)[i]?.join = values[i]? := by
    intro i
    rw [List.getElem?_map]
    cases values[i]? <;> rfl
  rw [Shuffle.expressions, hvalues, shares, ← List.filterMap_flatten, moveOut_of_nodup hnodup,
    List.filterMap_congr fun i _ => hplaces i]

/-! ## Argument nodes -/

theorem isIdentity_iff {ps : List ParameterInfo} {binding : Binding} {count : Nat} :
    isIdentity ps binding count = true ↔
      binding.length = count ∧ (∀ p ∈ ps, p.isVariadic = false) ∧
        binding = (List.range count).map fun i => [i] := by
  simp only [isIdentity, Bool.and_eq_true, beq_iff_eq, List.all_eq_true, Bool.not_eq_true',
    and_assoc]
  constructor
  · rintro ⟨hlen, hps, hbinding⟩
    exact ⟨hlen, hps, by rw [← hlen]; exact hbinding⟩
  · rintro ⟨hlen, hps, hbinding⟩
    exact ⟨hlen, hps, by rw [hlen]; exact hbinding⟩

/-- The argument node of a call that can be bound: the arguments as they are written if each is at
    its own position, and slots otherwise. -/
theorem arrangeFor_eq {ps : List ParameterInfo} {regular : List Argument} {trailing : Option Expr}
    {binding : Binding} (declaration : String) (span : Span)
    (h : bindArguments ps (regular.map Argument.label) trailing.isSome = some binding) :
    arrangeFor ps declaration regular trailing span = .ok
      (if isIdentity ps binding (supplied regular trailing).length then
        .tuple (supplied regular trailing) {}
      else .shuffle
        (List.zipWith slotOf ps (shares binding ((supplied regular trailing).map Argument.value)))
        { span := some span }) := by
  have hflat := flatten_of_bindArguments h
  rw [← List.length_map Argument.value] at hflat
  rw [arrangeFor]
  simp only [h]
  split
  next => rfl
  next => rw [slotsOf_eq (forall₂_fitsIn_bindArguments h) hflat]

end Ferry.Source
