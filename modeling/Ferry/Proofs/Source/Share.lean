/-
  Ferry.Proofs.Source.Share

  What each parameter takes of a call.  While parameters take their arguments one after the other,
  what is left of the labels is always an end of the list of labels (`Remaining.IsRestOf`), so the
  label that a parameter compares with its own is that of the argument it takes.  One step is
  `isShare_of_bind`; by induction over the parameters every share of an accepted binding is one that
  its parameter may have (`isSound_bindArguments`).
-/
import Ferry.Proofs.Source.Binding

namespace Ferry.Source

/-- That a parameter may take these arguments of a call with these labels.  A trailing closure comes
after all labels and needs none. -/
structure IsShare (labels : List (Option String)) (p : ParameterInfo) (bound : List Nat) :
    Prop where
  single : p.isVariadic = false → bound.length ≤ 1
  default : p.isVariadic = false → bound = [] → p.hasDefault = true
  first : ∀ i more, bound = i :: more → i < labels.length → labels[i]? = some p.label
  further : ∀ i more, bound = i :: more → ∀ j ∈ more, p.isVariadic = true ∧ labels[j]? = some none

namespace IsShare

variable {labels : List (Option String)} {p : ParameterInfo}

theorem nil (h : p.isVariadic = true ∨ p.hasDefault = true) : IsShare labels p [] where
  single _ := Nat.zero_le 1
  default hp _ := h.resolve_left (by rw [hp]; exact Bool.false_ne_true)
  first _ _ heq := by cases heq
  further _ _ heq := by cases heq

theorem singleton {i : Nat} (h : i < labels.length → labels[i]? = some p.label) :
    IsShare labels p [i] where
  single _ := Nat.le_refl 1
  default _ hnil := by cases hnil
  first j more heq hj := by
    obtain ⟨rfl, -⟩ := List.cons.inj heq
    exact h hj
  further j more heq k hk := by
    obtain ⟨-, rfl⟩ := List.cons.inj heq
    cases hk

end IsShare

/-- That a binding gives every argument of a call to one parameter that may take it. -/
structure IsSound (ps : List ParameterInfo) (labels : List (Option String)) (hasTrailing : Bool)
    (binding : Binding) : Prop where
  length_eq : binding.length = ps.length
  /-- Every argument is bound once, and in order; a trailing closure is the last one. -/
  flatten_eq : binding.flatten =
    List.range labels.length ++ if hasTrailing then [labels.length] else []
  shares : List.Forall₂ (IsShare labels) ps binding
  closure : ∀ i p bound, ps[i]? = some p → binding[i]? = some bound → labels.length ∈ bound →
    p.isClosure = true ∨ i + 1 = ps.length

namespace Remaining

/-- That these are the arguments of a call from some point on. -/
structure IsRestOf (r : Remaining) (labels : List (Option String)) : Prop where
  labels_eq : r.labels = labels.drop r.next
  trailing_eq : ∀ closure, r.trailing = some closure → closure = labels.length

theorem isRestOf_all (labels : List (Option String)) (hasTrailing : Bool) :
    (all labels hasTrailing).IsRestOf labels where
  labels_eq := rfl
  trailing_eq closure h := by
    simp only [all] at h
    split at h
    · exact (Option.some.inj h).symm
    · cases h

namespace IsRestOf

variable {r : Remaining} {labels : List (Option String)} {p : ParameterInfo}

theorem advance (h : r.IsRestOf labels) (count : Nat) : (r.advance count).IsRestOf labels where
  labels_eq := by rw [advance_labels, advance_next, h.labels_eq, List.drop_drop]
  trailing_eq := h.trailing_eq

theorem withoutTrailing (h : r.IsRestOf labels) : r.withoutTrailing.IsRestOf labels where
  labels_eq := h.labels_eq
  trailing_eq _ hnone := by cases hnone

theorem getElem?_labels (h : r.IsRestOf labels) (i : Nat) : r.labels[i]? = labels[r.next + i]? := by
  rw [h.labels_eq, List.getElem?_drop]

theorem label_next (h : r.IsRestOf labels) (hfits : r.fits p = true) :
    labels[r.next]? = some p.label := by
  rw [fits, beq_iff_eq, List.head?_eq_getElem?, h.getElem?_labels] at hfits
  exact hfits

/-- After the first one a variadic parameter takes arguments without a label only. -/
theorem label_further (h : r.IsRestOf labels) {j : Nat} (hj : 0 < j)
    (hlt : j < r.variadicCount p) : labels[r.next + j]? = some none := by
  rw [variadicCount] at hlt
  split at hlt
  next =>
    obtain ⟨k, rfl⟩ : ∃ k, j = 1 + k := ⟨j - 1, by omega⟩
    have hk : k < ((r.labels.drop 1).takeWhile Option.isNone).length := by omega
    have hnone := List.all_takeWhile (p := Option.isNone) (l := r.labels.drop 1)
    rw [List.all_eq_true] at hnone
    have hisNone := hnone _ (List.getElem_mem hk)
    have helement := List.prefix_iff_getElem?.mp (List.takeWhile_prefix Option.isNone) k hk
    rw [Option.isNone_iff_eq_none.mp hisNone, List.getElem?_drop, h.getElem?_labels] at helement
    exact helement
  next => exact absurd hlt (Nat.not_lt_zero _)

theorem length_labels (h : r.IsRestOf labels) : r.labels.length = labels.length - r.next := by
  rw [h.labels_eq, List.length_drop]

end IsRestOf

theorem isShare_variadic {r : Remaining} {labels : List (Option String)} {p : ParameterInfo}
    (hr : r.IsRestOf labels) (hp : p.isVariadic = true) :
    IsShare labels p (List.range' r.next (r.variadicCount p)) := by
  cases hcount : r.variadicCount p with
  | zero => exact .nil (.inl hp)
  | succ count =>
    -- It takes something, so the first argument has its label.
    have hfits : r.fits p = true := by
      by_contra hfits
      rw [variadicCount, if_neg hfits] at hcount
      cases hcount
    have hne : p.isVariadic ≠ false := by rw [hp]; decide
    rw [List.range'_succ]
    refine ⟨fun hplain => absurd hplain hne, fun hplain => absurd hplain hne, ?_, ?_⟩
    · intro i more heq _
      obtain ⟨rfl, -⟩ := List.cons.inj heq
      exact hr.label_next hfits
    · intro i more heq j hj
      obtain ⟨-, rfl⟩ := List.cons.inj heq
      obtain ⟨k, hk, rfl⟩ := List.mem_range'.mp hj
      have hlt : 1 + k < r.variadicCount p := by omega
      rw [Nat.one_mul, Nat.add_assoc]
      exact ⟨hp, hr.label_further (by omega) hlt⟩

/-- One step: the parameter takes a share that it may have, the trailing closure only where it may
    go, and what is left are the arguments from a later point on. -/
theorem isShare_of_bind {r rest : Remaining} {direction : Direction} {p : ParameterInfo}
    {isLast : Bool} {bound : List Nat} {labels : List (Option String)} (hr : r.IsRestOf labels)
    (h : r.bind direction p isLast = some (bound, rest)) :
    IsShare labels p bound ∧ (labels.length ∈ bound → p.isClosure = true ∨ isLast = true) ∧
      rest.IsRestOf labels := by
  obtain ⟨closure, hclosure, rfl, rfl, hplace⟩ | ⟨hvariadic, rfl, rfl⟩ | ⟨-, hfits, rfl, rfl⟩ |
    ⟨-, hdefault, rfl, rfl⟩ := bind_cases h
  · obtain rfl := hr.trailing_eq closure hclosure
    exact ⟨.singleton fun hlt => absurd hlt (Nat.lt_irrefl _),
      fun _ => hplace.symm.imp And.right id, hr.withoutTrailing⟩
  · refine ⟨isShare_variadic hr hvariadic, fun hmem => ?_, hr.advance _⟩
    -- The closure is counted after all arguments, so it is not among those that are taken.
    have hle := r.variadicCount_le p
    have hrange := List.mem_range'_1.mp hmem
    rw [hr.length_labels] at hle
    omega
  · refine ⟨.singleton fun _ => hr.label_next hfits, fun hmem => ?_, hr.advance 1⟩
    have hpos := labels_ne_nil_of_fits hfits
    rw [hr.length_labels] at hpos
    rw [List.mem_singleton] at hmem
    omega
  · exact ⟨.nil (.inr hdefault), fun hmem => absurd hmem List.not_mem_nil, hr⟩

end Remaining

section

variable {direction : Direction} {labels : List (Option String)} {hasTrailing : Bool}
  {binding : Binding}

theorem forall₂_isShare_bindInOrder {ps : List ParameterInfo} {r : Remaining}
    (hr : r.IsRestOf labels)
    (h : bindInOrder direction ps r = some binding) : List.Forall₂ (IsShare labels) ps binding := by
  induction ps generalizing r binding with
  | nil =>
    obtain ⟨-, -, rfl⟩ := bindInOrder_nil h
    exact .nil
  | cons p ps ih =>
    obtain ⟨bound, rest, more, hbound, hmore, rfl⟩ := bindInOrder_cons h
    obtain ⟨hshare, -, hrest⟩ := Remaining.isShare_of_bind hr hbound
    exact .cons hshare (ih hrest hmore)

theorem isClosure_of_bindInOrder {ps : List ParameterInfo} {r : Remaining} (hr : r.IsRestOf labels)
    (h : bindInOrder direction ps r = some binding) (i : Nat) (p : ParameterInfo) (bound : List Nat)
    (hp : ps[i]? = some p) (hbound : binding[i]? = some bound) (hmem : labels.length ∈ bound) :
    p.isClosure = true ∨ i + 1 = ps.length := by
  induction ps generalizing r binding i with
  | nil => cases hp
  | cons q ps ih =>
    obtain ⟨share, rest, more, hshare, hmore, rfl⟩ := bindInOrder_cons h
    obtain ⟨-, hplace, hrest⟩ := Remaining.isShare_of_bind hr hshare
    cases i with
    | zero =>
      obtain rfl : q = p := Option.some.inj hp
      obtain rfl : share = bound := Option.some.inj hbound
      refine (hplace hmem).imp id fun hlast => ?_
      rw [List.isEmpty_iff.mp hlast]
      rfl
    | succ i =>
      refine (ih hrest hmore i hp hbound).imp id fun hlast => ?_
      rw [List.length_cons, hlast]

theorem isSound_bindArguments {ps : List ParameterInfo}
    (h : bindArguments ps labels hasTrailing = some binding) :
    IsSound ps labels hasTrailing binding := by
  obtain ⟨direction, horder⟩ := bindInOrder_of_bindArguments h
  have hr := Remaining.isRestOf_all labels hasTrailing
  have hshares := forall₂_isShare_bindInOrder hr horder
  refine ⟨hshares.length_eq.symm, ?_, hshares, isClosure_of_bindInOrder hr horder⟩
  cases hasTrailing with
  | false =>
    rw [flatten_bindArguments h, List.range_eq_range']
    exact (List.append_nil _).symm
  | true =>
    obtain ⟨before, after, rfl, hbefore, hafter⟩ := bindArguments_trailing h
    rw [List.flatten_append, List.flatten_cons, List.flatten_eq_nil_iff.mpr hafter, hbefore,
      List.range_eq_range']
    rfl

end

/-- The parameters of `func plot(_ x: Int, scale: Int = 1, at points: Int..., body: () -> Void)`. -/
def plotParameters : List ParameterInfo :=
  [⟨none, "x", "Int", false, false⟩, ⟨some "scale", "scale", "Int", true, false⟩,
    ⟨some "at", "points", "Int", false, true⟩, ⟨some "body", "body", "() -> Void", false, false⟩]

/-- The call `plot(0, at: 1, 2) { }` has an argument of each kind. -/
theorem isSound_plotCall :
    bindArguments plotParameters [none, some "at", none] true = some [[0], [], [1, 2], [3]] ∧
      IsSound plotParameters [none, some "at", none] true [[0], [], [1, 2], [3]] :=
  have h : bindArguments plotParameters [none, some "at", none] true =
      some [[0], [], [1, 2], [3]] := by decide +kernel
  ⟨h, isSound_bindArguments h⟩

end Ferry.Source
