/-
  Ferry.Proofs.Program.Shuffle

  Shuffles and their parts.  A shuffle is kept as slots, and its parts are the labels, the indices
  and the expressions of the slots, each in order.  Three lists make a shuffle exactly when they are
  the parts of one, that is when labels and indices pair up and the indices take every expression
  (`ofParts_eq_ok_iff`, `exists_ofParts_iff`).

  An edit puts other labels or other expressions in place.  It leaves the indices alone, so that a
  reader who goes over the expressions with an offset finds those of each slot after any number of
  edits and never reads beyond the end (`isIntact_edited`).
-/
import Mathlib.Data.List.Basic
import Ferry.Program.Shuffle

namespace Ferry.Shuffle

/-! ## Parts -/

def labels (slots : List Slot) : List (Option String) :=
  slots.map Slot.label

def indices (slots : List Slot) : List ShuffleIndex :=
  slots.map indexOf

/-- How many expressions slots with these indices take together. -/
def totalWidth (indices : List ShuffleIndex) : Nat :=
  (indices.map ShuffleIndex.width).foldr (· + ·) 0

@[simp] theorem width_indexOf (slot : Slot) : (indexOf slot).width = slot.values.length := by
  cases slot <;> rfl

@[simp] theorem length_labels (slots : List Slot) : (labels slots).length = slots.length :=
  List.length_map ..

@[simp] theorem length_indices (slots : List Slot) : (indices slots).length = slots.length :=
  List.length_map ..

theorem expressions_cons (slot : Slot) (slots : List Slot) :
    expressions (slot :: slots) = slot.values ++ expressions slots := rfl

theorem totalWidth_cons (index : ShuffleIndex) (rest : List ShuffleIndex) :
    totalWidth (index :: rest) = index.width + totalWidth rest := rfl

theorem totalWidth_indices (slots : List Slot) :
    totalWidth (indices slots) = (expressions slots).length := by
  induction slots with
  | nil => rfl
  | cons slot slots ih =>
    rw [expressions_cons, List.length_append, ← ih, ← width_indexOf]
    rfl

theorem deal_parts (slots : List Slot) :
    deal (labels slots) (indices slots) (expressions slots) = slots := by
  induction slots with
  | nil => rfl
  | cons slot slots ih =>
    rw [expressions_cons]
    cases slot with
    | absent label => exact congrArg (_ :: ·) ih
    | present label value => exact congrArg (_ :: ·) ih
    | variadic label values =>
      show Slot.variadic label ((values ++ expressions slots).take values.length) ::
        deal (labels slots) (indices slots) ((values ++ expressions slots).drop values.length) = _
      rw [List.take_left, List.drop_left, ih]

theorem exists_slot (label : Option String) {index : ShuffleIndex} {values : List Expr}
    (h : index.width = values.length) :
    ∃ slot : Slot, slot.label = label ∧ indexOf slot = index ∧ slot.values = values := by
  cases index with
  | absent => exact ⟨.absent label, rfl, rfl, (List.eq_nil_of_length_eq_zero h.symm).symm⟩
  | present =>
    obtain ⟨value, rfl⟩ := List.length_eq_one_iff.mp h.symm
    exact ⟨.present label value, rfl, rfl, rfl⟩
  | variadic count => exact ⟨.variadic label values, rfl, congrArg _ h.symm, rfl⟩

/-- Lists that fit together are the parts of a shuffle. -/
theorem exists_slots {ls : List (Option String)} {is : List ShuffleIndex} {values : List Expr}
    (hlength : ls.length = is.length) (hwidth : totalWidth is = values.length) :
    ∃ slots, labels slots = ls ∧ indices slots = is ∧ expressions slots = values := by
  induction is generalizing ls values with
  | nil =>
    obtain rfl := List.eq_nil_of_length_eq_zero hlength
    obtain rfl := List.eq_nil_of_length_eq_zero hwidth.symm
    exact ⟨[], rfl, rfl, rfl⟩
  | cons index rest ih =>
    obtain ⟨label, more, rfl⟩ := List.exists_cons_of_length_eq_add_one hlength
    rw [totalWidth_cons] at hwidth
    -- The first slot takes as many expressions as it is wide.
    have htake : index.width = (values.take index.width).length := by
      rw [List.length_take]
      omega
    obtain ⟨slot, rfl, hindex, hvalues⟩ := exists_slot label htake
    have hdrop : totalWidth rest = (values.drop index.width).length := by
      rw [List.length_drop]
      omega
    obtain ⟨slots, rfl, rfl, hrest⟩ := ih (Nat.succ.inj hlength) hdrop
    refine ⟨slot :: slots, rfl, congrArg (· :: _) hindex, ?_⟩
    rw [expressions_cons, hvalues, hrest, List.take_append_drop]

theorem parts_deal {ls : List (Option String)} {is : List ShuffleIndex} {values : List Expr}
    (hlength : ls.length = is.length) (hwidth : totalWidth is = values.length) :
    labels (deal ls is values) = ls ∧ indices (deal ls is values) = is ∧
      expressions (deal ls is values) = values := by
  obtain ⟨slots, rfl, rfl, rfl⟩ := exists_slots hlength hwidth
  rw [deal_parts]
  exact ⟨rfl, rfl, rfl⟩

theorem ofParts_eq_ok_iff {ls : List (Option String)} {is : List ShuffleIndex} {values : List Expr}
    {slots : List Slot} :
    ofParts ls is values = .ok slots ↔
      labels slots = ls ∧ indices slots = is ∧ expressions slots = values := by
  constructor
  · intro h
    unfold ofParts at h
    split at h
    next => cases h
    next hlength =>
      rw [Decidable.not_not] at hlength
      dsimp only at h
      split at h
      next hwidth =>
        obtain rfl := Except.ok.inj h
        exact parts_deal hlength hwidth
      next => split at h <;> cases h
  · rintro ⟨rfl, rfl, rfl⟩
    unfold ofParts
    rw [if_neg (by simp)]
    exact (if_pos (totalWidth_indices slots)).trans (congrArg _ (deal_parts slots))

/-- Three lists make a shuffle exactly when there is one label for each index and the indices take
    every expression. -/
theorem exists_ofParts_iff {ls : List (Option String)} {is : List ShuffleIndex}
    {values : List Expr} :
    (∃ slots, ofParts ls is values = .ok slots) ↔
      ls.length = is.length ∧ totalWidth is = values.length := by
  simp only [ofParts_eq_ok_iff]
  constructor
  · rintro ⟨slots, rfl, rfl, rfl⟩
    exact ⟨by simp, totalWidth_indices slots⟩
  · rintro ⟨hlength, hwidth⟩
    exact exists_slots hlength hwidth

/-! ## Reading with an offset -/

/-- The expressions of each slot, read one slot after the other from an offset on; none if a slot
reaches beyond the end. -/
def slices? (values : List Expr) : (offset : Nat) → List ShuffleIndex → Option (List (List Expr))
  | _, [] => some []
  | offset, index :: rest =>
    if offset + index.width ≤ values.length then
      (slices? values (offset + index.width) rest).map
        ((values.drop offset).take index.width :: ·)
    else none

theorem slices?_append_expressions (before : List Expr) (slots : List Slot) :
    slices? (before ++ expressions slots) before.length (indices slots) =
      some (slots.map Slot.values) := by
  induction slots generalizing before with
  | nil => rfl
  | cons slot slots ih =>
    have hle : before.length + (indexOf slot).width ≤
        (before ++ expressions (slot :: slots)).length := by
      rw [expressions_cons, width_indexOf, List.length_append, List.length_append]
      omega
    have hrest := ih (before ++ slot.values)
    rw [List.length_append, List.append_assoc, ← expressions_cons] at hrest
    show (if _ then _ else _ : Option _) = _
    rw [if_pos hle, width_indexOf, List.drop_left]
    show (slices? _ _ (indices slots)).map _ = _
    rw [hrest, expressions_cons, List.take_left]
    rfl

theorem slices?_expressions (slots : List Slot) :
    slices? (expressions slots) 0 (indices slots) = some (slots.map Slot.values) :=
  slices?_append_expressions [] slots

/-! ## Edits -/

/-- A change of a shuffle in place. -/
inductive Edit where
  /-- Other labels, which are refused unless there is one for each slot. -/
  | relabel (labels : List (Option String))
  /-- Another expression for each one, by its position. -/
  | rewrite (f : Nat → Expr → Expr)

def Edit.apply (slots : List Slot) : Edit → List Slot
  | relabel labels =>
    match Shuffle.relabel labels slots with
    | .ok relabeled => relabeled
    | .error _ => slots
  | rewrite f => deal (Shuffle.labels slots) (indices slots) ((expressions slots).mapIdx f)

def edited (slots : List Slot) (edits : List Edit) : List Slot :=
  edits.foldl Edit.apply slots

theorem edited_append (slots : List Slot) (first second : List Edit) :
    edited slots (first ++ second) = edited (edited slots first) second :=
  List.foldl_append ..

theorem parts_zipWith_relabel {ls : List (Option String)} {slots : List Slot}
    (h : ls.length = slots.length) :
    labels (List.zipWith Slot.relabel ls slots) = ls ∧
      indices (List.zipWith Slot.relabel ls slots) = indices slots ∧
      expressions (List.zipWith Slot.relabel ls slots) = expressions slots := by
  induction slots generalizing ls with
  | nil =>
    obtain rfl := List.eq_nil_of_length_eq_zero h
    exact ⟨rfl, rfl, rfl⟩
  | cons slot slots ih =>
    obtain ⟨label, more, rfl⟩ := List.exists_cons_of_length_eq_add_one h
    obtain ⟨hlabels, hindices, hexpressions⟩ := ih (Nat.succ.inj h)
    rw [List.zipWith_cons_cons]
    cases slot <;>
      exact ⟨congrArg (_ :: ·) hlabels, congrArg (_ :: ·) hindices, congrArg (_ ++ ·) hexpressions⟩

theorem relabel_of_length_eq {ls : List (Option String)} {slots : List Slot}
    (h : ls.length = slots.length) :
    relabel ls slots = .ok (List.zipWith Slot.relabel ls slots) :=
  if_neg fun hne => hne h

theorem relabel_of_length_ne {ls : List (Option String)} {slots : List Slot}
    (h : ls.length ≠ slots.length) :
    relabel ls slots = .error (.lengthMismatch ls.length slots.length) :=
  if_pos h

theorem apply_relabel_of_length_ne {ls : List (Option String)} {slots : List Slot}
    (h : ls.length ≠ slots.length) : Edit.apply slots (.relabel ls) = slots := by
  rw [Edit.apply, relabel_of_length_ne h]

theorem apply_relabel_of_length_eq {ls : List (Option String)} {slots : List Slot}
    (h : ls.length = slots.length) :
    Edit.apply slots (.relabel ls) = List.zipWith Slot.relabel ls slots := by
  rw [Edit.apply, relabel_of_length_eq h]

theorem parts_rewrite (slots : List Slot) (f : Nat → Expr → Expr) :
    labels (Edit.apply slots (.rewrite f)) = labels slots ∧
      indices (Edit.apply slots (.rewrite f)) = indices slots ∧
      expressions (Edit.apply slots (.rewrite f)) = (expressions slots).mapIdx f :=
  parts_deal (by simp) (by rw [totalWidth_indices, List.length_mapIdx])

/-! ## What edits leave alone -/

/-- That a shuffle has the indices of its parts, with a label for each and all the expressions they
take, and that an offset that runs over the expressions meets those of every slot. -/
structure IsIntact (ls : List (Option String)) (is : List ShuffleIndex) (count : Nat)
    (slots : List Slot) : Prop where
  length_labels : (labels slots).length = ls.length
  indices_eq : indices slots = is
  length_expressions : (expressions slots).length = count
  totalWidth_eq : totalWidth (indices slots) = (expressions slots).length
  slices : ∃ slices, slices? (expressions slots) 0 (indices slots) = some slices ∧
    slices.length = (labels slots).length ∧
    slices.map List.length = (indices slots).map ShuffleIndex.width ∧
    slices.flatten = expressions slots

theorem counts_apply (slots : List Slot) (edit : Edit) :
    (Edit.apply slots edit).length = slots.length ∧
      indices (Edit.apply slots edit) = indices slots ∧
      (expressions (Edit.apply slots edit)).length = (expressions slots).length := by
  cases edit with
  | relabel ls =>
    by_cases h : ls.length = slots.length
    · obtain ⟨hlabels, hindices, hexpressions⟩ := parts_zipWith_relabel h
      rw [apply_relabel_of_length_eq h]
      exact ⟨by rw [← length_labels, hlabels, h], hindices, congrArg _ hexpressions⟩
    · rw [apply_relabel_of_length_ne h]
      exact ⟨rfl, rfl, rfl⟩
  | rewrite f =>
    obtain ⟨hlabels, hindices, hexpressions⟩ := parts_rewrite slots f
    exact ⟨by rw [← length_labels, hlabels, length_labels], hindices,
      by rw [hexpressions, List.length_mapIdx]⟩

theorem counts_edited (slots : List Slot) (edits : List Edit) :
    (edited slots edits).length = slots.length ∧ indices (edited slots edits) = indices slots ∧
      (expressions (edited slots edits)).length = (expressions slots).length := by
  induction edits generalizing slots with
  | nil => exact ⟨rfl, rfl, rfl⟩
  | cons edit edits ih =>
    obtain ⟨hlength, hindices, hexpressions⟩ := counts_apply slots edit
    obtain ⟨hlength', hindices', hexpressions'⟩ := ih (Edit.apply slots edit)
    exact ⟨hlength'.trans hlength, hindices'.trans hindices, hexpressions'.trans hexpressions⟩

theorem isIntact_edited (slots : List Slot) (edits : List Edit) :
    IsIntact (labels slots) (indices slots) (expressions slots).length (edited slots edits) := by
  obtain ⟨hlength, hindices, hexpressions⟩ := counts_edited slots edits
  refine ⟨by rw [length_labels, length_labels, hlength], hindices, hexpressions,
    totalWidth_indices _, (edited slots edits).map Slot.values, slices?_expressions _,
    by rw [List.length_map, length_labels], ?_, rfl⟩
  rw [indices, List.map_map, List.map_map]
  exact List.map_congr_left fun slot _ => (width_indexOf slot).symm

end Ferry.Shuffle
