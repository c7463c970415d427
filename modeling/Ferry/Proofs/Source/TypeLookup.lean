/-
  Ferry.Proofs.Source.TypeLookup

  What a type table answers, in terms of the entries as they were given.  Both searches find what a
  scan would, since the table is in order of ranges (`isSome_get?`, `firstAt?_eq_find?`).  Entries
  of one range stay in the order they came in (`filter_covers_ofList`).  So the first entry at an
  offset is the shortest there, and of several as short the one given first (`answers_ofList`).
-/
import Ferry.Source.Table
import Mathlib.Data.List.Nodup

namespace Ferry.Source

open Search TypeEntry

variable {entries : List TypeEntry} {offset length : Nat}

def TypeEntry.covers (offset length : Nat) (entry : TypeEntry) : Bool :=
  entry.offset == offset && entry.length == length

theorem TypeEntry.covers_iff {entry : TypeEntry} :
    entry.covers offset length = true ↔ entry.offset = offset ∧ entry.length = length := by
  simp [covers]

theorem TypeEntry.order_eq_iff {entry : TypeEntry} :
    entry.order offset length = .eq ↔ entry.offset = offset ∧ entry.length = length := by
  simp [order, Ordering.then_eq_eq]

theorem TypeEntry.order_eq_lt_iff {entry : TypeEntry} :
    entry.order offset length = .lt ↔
      entry.offset < offset ∨ entry.offset = offset ∧ entry.length < length := by
  simp [order, Ordering.then_eq_lt, Nat.compare_eq_lt]

theorem TypeEntry.order_eq_gt_iff {entry : TypeEntry} :
    entry.order offset length = .gt ↔
      offset < entry.offset ∨ entry.offset = offset ∧ length < entry.length := by
  simp [order, Ordering.then_eq_gt, Nat.compare_eq_gt]

namespace TypeTable

/-! ## Searches -/

theorem ascending_order (table : TypeTable) (offset length : Nat) :
    Ascending (order offset length) table.entries := by
  refine table.sorted.imp fun {a b} hab => ?_
  simp only [order_eq_gt_iff, order_eq_lt_iff]
  rw [le_iff] at hab
  omega

theorem isSome_get? (table : TypeTable) (offset length : Nat) :
    (table.get? offset length).isSome = true ↔
      ∃ entry ∈ table.entries.toList, entry.offset = offset ∧ entry.length = length := by
  rw [get?]
  cases h : search (order offset length) table.entries with
  | ok index =>
    exact iff_of_true rfl ⟨_, by simp, order_eq_iff.mp (search_ok h)⟩
  | error place =>
    refine iff_of_false (by simp) ?_
    rintro ⟨entry, hentry, hcovers⟩
    obtain ⟨j, hj, rfl⟩ := List.mem_iff_getElem.mp hentry
    -- A search that fails has put the entry on one side of the place.
    have hside := search_error (table.ascending_order offset length) h j (by simpa using hj)
    rw [← Array.getElem_toList, order_eq_iff.mpr hcovers] at hside
    split at hside <;> cases hside

theorem mem_get? {table : TypeTable} {ty : String} (h : ty ∈ table.get? offset length) :
    ∃ entry ∈ table.entries.toList, entry.offset = offset ∧ entry.length = length ∧
      entry.ty = ty := by
  rw [get?] at h
  cases hfound : search (order offset length) table.entries with
  | ok index =>
    rw [hfound] at h
    cases h
    have ⟨hoffset, hlength⟩ := order_eq_iff.mp (search_ok hfound)
    exact ⟨_, by simp, hoffset, hlength, rfl⟩
  | error place =>
    rw [hfound] at h
    cases h

theorem firstAt?_eq_find? (table : TypeTable) (offset : Nat) :
    table.firstAt? offset =
      (table.entries.toList.find? (·.offset == offset)).map TypeEntry.ty := by
  have hordered : table.entries.toList.Pairwise fun a b =>
      decide (b.offset < offset) = true → decide (a.offset < offset) = true := by
    refine table.sorted.imp fun {a b} hab => ?_
    rw [le_iff] at hab
    simp only [decide_eq_true_eq]
    omega
  have hsides := partitionPoint_spec hordered
  simp only [firstAt?]
  congr 1
  generalize partitionPoint (·.offset < offset) table.entries = start at hsides ⊢
  cases hstart : table.entries[start]? with
  | none =>
    -- All entries lie before the offset.
    refine (List.find?_eq_none.mpr fun entry hentry => ?_).symm
    obtain ⟨j, hj, rfl⟩ := List.mem_iff_getElem.mp hentry
    have hj' : j < table.entries.size := by simpa using hj
    have := hsides j hj'
    rw [Array.getElem?_eq_none_iff] at hstart
    simp only [decide_eq_decide, ← Array.getElem_toList] at this
    simp only [beq_iff_eq]
    omega
  | some entry =>
    obtain ⟨hlt, rfl⟩ := Array.getElem?_eq_some_iff.mp hstart
    have hat := hsides start hlt
    simp only [decide_eq_decide, Nat.lt_irrefl, iff_false, Nat.not_lt] at hat
    by_cases heq : table.entries[start].offset = offset
    · rw [Option.filter_some, if_pos (by simpa using heq)]
      refine (List.find?_eq_some_iff_getElem.mpr
        ⟨by simpa using heq, start, hlt, rfl, fun j hj => ?_⟩).symm
      have := (decide_eq_decide.mp (hsides j (by omega))).mpr hj
      simp only [← Array.getElem_toList] at this
      simp only [Bool.not_eq_true', beq_eq_false_iff_ne]
      omega
    · rw [Option.filter_some, if_neg (by simpa using heq)]
      refine (List.find?_eq_none.mpr fun other hother => ?_).symm
      obtain ⟨j, hj, rfl⟩ := List.mem_iff_getElem.mp hother
      have hj' : j < table.entries.size := by simpa using hj
      have := hsides j hj'
      simp only [decide_eq_decide, ← Array.getElem_toList] at this
      simp only [beq_iff_eq]
      -- Entries behind the place start at it or later, by the order of the table.
      obtain hbefore | rfl | hbehind := Nat.lt_trichotomy j start
      · omega
      · exact heq
      · have hle := le_iff.mp (List.pairwise_iff_getElem.mp table.sorted start j
          (by simpa) hj hbehind)
        rw [← Array.getElem_toList] at hat heq
        omega

/-! ## Entries as they were given -/

theorem perm_ofList (entries : List TypeEntry) : (ofList entries).entries.toList.Perm entries :=
  List.mergeSort_perm entries TypeEntry.le

theorem filter_covers_ofList (entries : List TypeEntry) (offset length : Nat) :
    (ofList entries).entries.toList.filter (covers offset length) =
      entries.filter (covers offset length) := by
  have hordered : (entries.filter (covers offset length)).Pairwise fun a b => a.le b := by
    refine List.pairwise_of_forall_mem_list fun a ha b hb => ?_
    have ha := covers_iff.mp (List.mem_filter.mp ha).2
    have hb := covers_iff.mp (List.mem_filter.mp hb).2
    rw [le_iff]
    omega
  have hkept := (List.sublist_mergeSort le_trans le_total hordered List.filter_sublist).filter
    (covers offset length)
  simp only [List.filter_filter, Bool.and_self] at hkept
  exact (hkept.eq_of_length ((perm_ofList entries).filter _).length_eq.symm).symm

/-- The first entry at an offset is the shortest, and of those as short the first that was given. -/
theorem isFirst_of_find? {entry : TypeEntry}
    (h : (ofList entries).entries.toList.find? (·.offset == offset) = some entry) :
    entries.find? (covers offset entry.length) = some entry ∧
      ∀ other ∈ entries, other.offset = offset → entry.length ≤ other.length := by
  obtain ⟨hoffset, before, after, hsplit, hbefore⟩ := List.find?_eq_some_iff_append.mp h
  simp only [Bool.not_eq_true', beq_eq_false_iff_ne, beq_iff_eq] at hbefore hoffset
  constructor
  -- The sort is stable: entries of one range stand in the order they were given.
  · rw [← List.head?_filter, ← filter_covers_ofList, List.head?_filter,
      List.find?_eq_some_iff_append]
    refine ⟨covers_iff.mpr ⟨hoffset, rfl⟩, before, after, hsplit, fun a ha => ?_⟩
    simp [covers, hbefore a ha]
  · intro other hother hat
    rw [← (perm_ofList entries).mem_iff, hsplit, List.mem_append, List.mem_cons] at hother
    obtain hother | rfl | hother := hother
    · exact absurd hat (hbefore other hother)
    · exact Nat.le_refl _
    -- What comes after it at the same offset is not shorter, by the order of the table.
    · have hordered := (ofList entries).sorted
      rw [hsplit, List.pairwise_append, List.pairwise_cons] at hordered
      have := le_iff.mp (hordered.2.1.1 other hother)
      omega

/-- Entries with ranges of their own are sorted the same way however they come in. -/
theorem ofList_congr {others : List TypeEntry} (hperm : others.Perm entries)
    (h : (entries.map fun entry => (entry.offset, entry.length)).Nodup) :
    ofList others = ofList entries := by
  have hsame : (ofList others).entries.toList.Perm (ofList entries).entries.toList :=
    (perm_ofList others).trans (hperm.trans (perm_ofList entries).symm)
  refine TypeTable.ext (Array.toList_inj.mp (hsame.eq_of_pairwise ?_ (sorted _) (sorted _)))
  intro a b ha hb hab hba
  rw [(perm_ofList _).mem_iff] at ha hb
  refine List.inj_on_of_nodup_map h (hperm.mem_iff.mp ha) hb ?_
  rw [le_iff] at hab hba
  rw [Prod.mk.injEq]
  omega

/-- A table is in order and answers as a scan of the entries would: for a range with the type of an
entry that has it, for an offset with that of the shortest entry there, the first one given of
several.  The answers do not depend on the order of entries that all have ranges of their own. -/
theorem answers_ofList (entries : List TypeEntry) :
    (ofList entries).entries.toList.Pairwise (fun a b => a.le b) ∧
    (∀ offset length,
      (((ofList entries).get? offset length).isSome = true ↔
        ∃ entry ∈ entries, entry.offset = offset ∧ entry.length = length) ∧
      ∀ ty ∈ (ofList entries).get? offset length,
        ∃ entry ∈ entries, entry.offset = offset ∧ entry.length = length ∧ entry.ty = ty) ∧
    (∀ offset,
      (((ofList entries).firstAt? offset).isSome = true ↔
        ∃ entry ∈ entries, entry.offset = offset) ∧
      ∀ ty ∈ (ofList entries).firstAt? offset,
        ∃ entry, entries.find? (covers offset entry.length) = some entry ∧ entry.ty = ty ∧
          ∀ other ∈ entries, other.offset = offset → entry.length ≤ other.length) ∧
    ∀ others, others.Perm entries →
      (entries.map fun entry => (entry.offset, entry.length)).Nodup → ∀ offset length,
        (ofList others).get? offset length = (ofList entries).get? offset length ∧
          (ofList others).firstAt? offset = (ofList entries).firstAt? offset := by
  have hmem : ∀ entry, entry ∈ (ofList entries).entries.toList ↔ entry ∈ entries :=
    fun entry => (perm_ofList entries).mem_iff
  refine ⟨(ofList entries).sorted, fun offset length => ?_, fun offset => ?_, ?_⟩
  · refine ⟨by simpa only [hmem] using isSome_get? (ofList entries) offset length, fun ty hty => ?_⟩
    simpa only [hmem] using mem_get? hty
  · rw [firstAt?_eq_find?]
    refine ⟨by simp only [Option.isSome_map, List.find?_isSome, beq_iff_eq, hmem], fun ty hty => ?_⟩
    obtain ⟨entry, hfound, rfl⟩ := Option.map_eq_some_iff.mp hty
    obtain ⟨hfirst, hshortest⟩ := isFirst_of_find? hfound
    exact ⟨entry, hfirst, rfl, hshortest⟩
  · intro others hperm hdistinct offset length
    rw [ofList_congr hperm hdistinct]
    exact ⟨rfl, rfl⟩

end TypeTable

end Ferry.Source
