/-
  Ferry.Proofs.Source.Binding

  What an accepted binding looks like.  Arguments are bound one after the other, so the shares of
  the parameters in order are the arguments in order; a trailing closure is alone in its share, and
  every share after it is empty; only a variadic parameter takes more than one argument.

  All of this follows from `Remaining.bind_cases`, which says once what a single parameter can take.
-/
import Mathlib.Data.List.Forall2
import Ferry.Source.Binding

namespace Ferry.Source

namespace Remaining

@[simp] theorem advance_next (r : Remaining) (n : Nat) : (r.advance n).next = r.next + n := rfl

@[simp] theorem advance_labels (r : Remaining) (n : Nat) :
    (r.advance n).labels = r.labels.drop n := rfl

@[simp] theorem withoutTrailing_labels (r : Remaining) : r.withoutTrailing.labels = r.labels := rfl

theorem variadicCount_le (r : Remaining) (p : ParameterInfo) :
    r.variadicCount p ≤ r.labels.length := by
  unfold variadicCount
  split
  next hfits =>
    cases hl : r.labels with
    | nil => simp [fits, hl] at hfits
    | cons label rest =>
      have hle := (List.takeWhile_sublist Option.isNone (l := rest)).length_le
      simp only [List.drop_succ_cons, List.drop_zero, List.length_cons]
      omega
  next => exact Nat.zero_le _

theorem labels_ne_nil_of_fits {r : Remaining} {p : ParameterInfo} (h : r.fits p = true) :
    0 < r.labels.length := by
  cases hl : r.labels with
  | nil => simp [fits, hl] at h
  | cons label rest => simp

/-- Everything one parameter can take: the trailing closure, any number of arguments if it is
    variadic, one argument with its label, or nothing if it has a default. -/
theorem bind_cases {r rest : Remaining} {direction : Direction} {p : ParameterInfo} {isLast : Bool}
    {bound : List Nat} (h : r.bind direction p isLast = some (bound, rest)) :
    (∃ closure, r.trailing = some closure ∧ bound = [closure] ∧ rest = r.withoutTrailing ∧
      (isLast = true ∨ r.labels = [] ∧ p.isClosure = true)) ∨
    (p.isVariadic = true ∧ bound = List.range' r.next (r.variadicCount p) ∧
      rest = r.advance (r.variadicCount p)) ∨
    (p.isVariadic = false ∧ r.fits p = true ∧ bound = [r.next] ∧ rest = r.advance 1) ∨
    (p.isVariadic = false ∧ p.hasDefault = true ∧ bound = [] ∧ rest = r) := by
  -- In the order of the definition: last parameter, variadic, label that fits, closure, default.
  unfold bind at h
  split at h
  next closure hclosure =>
    split at hclosure
    next hlast =>
      simp only [Option.some.injEq, Prod.mk.injEq] at h
      simp only [Bool.and_eq_true] at hlast
      exact .inl ⟨closure, hclosure, h.1.symm, h.2.symm, .inl hlast.2⟩
    next => exact absurd hclosure (by simp)
  next =>
    split at h
    next hvariadic =>
      simp only [Option.some.injEq, Prod.mk.injEq] at h
      exact .inr (.inl ⟨hvariadic, h.1.symm, h.2.symm⟩)
    next hvariadic =>
      rw [Bool.not_eq_true] at hvariadic
      split at h
      next hfits =>
        simp only [Option.some.injEq, Prod.mk.injEq] at h
        exact .inr (.inr (.inl ⟨hvariadic, hfits, h.1.symm, h.2.symm⟩))
      next =>
        split at h
        next closure hclosure =>
          simp only [Option.some.injEq, Prod.mk.injEq] at h
          simp only [trailingFor] at hclosure
          split at hclosure
          next hforward =>
            simp only [Bool.and_eq_true, List.isEmpty_iff] at hforward
            exact .inl ⟨closure, hclosure, h.1.symm, h.2.symm, .inr ⟨hforward.1.2, hforward.2⟩⟩
          next => exact absurd hclosure (by simp)
        next =>
          split at h
          next hdefault =>
            simp only [Option.some.injEq, Prod.mk.injEq] at h
            exact .inr (.inr (.inr ⟨hvariadic, hdefault, h.1.symm, h.2.symm⟩))
          next => exact absurd h (by simp)

end Remaining

theorem bindInOrder_cons {direction : Direction} {p : ParameterInfo} {ps : List ParameterInfo}
    {r : Remaining} {binding : Binding} (h : bindInOrder direction (p :: ps) r = some binding) :
    ∃ bound rest more, r.bind direction p ps.isEmpty = some (bound, rest) ∧
      bindInOrder direction ps rest = some more ∧ binding = bound :: more := by
  simp only [bindInOrder, Option.bind_eq_bind, Option.bind_eq_some_iff] at h
  obtain ⟨⟨bound, rest⟩, hbound, more, hmore, hbinding⟩ := h
  exact ⟨bound, rest, more, hbound, hmore, (Option.some.inj hbinding).symm⟩

theorem bindInOrder_nil {direction : Direction} {r : Remaining} {binding : Binding}
    (h : bindInOrder direction [] r = some binding) :
    r.labels = [] ∧ r.trailing = none ∧ binding = [] := by
  simp only [bindInOrder] at h
  split at h
  next hdone =>
    simp only [Remaining.isDone, Bool.and_eq_true, List.isEmpty_iff, Option.isNone_iff_eq_none]
      at hdone
    exact ⟨hdone.1, hdone.2, (Option.some.inj h).symm⟩
  next => exact absurd h (by simp)

/-- Whether the arguments of a share are as many as its parameter can take. -/
def FitsIn (p : ParameterInfo) (bound : List Nat) : Prop :=
  p.isVariadic = false → bound.length ≤ 1

theorem forall₂_fitsIn_bindInOrder {direction : Direction} {ps : List ParameterInfo} {r : Remaining}
    {binding : Binding} (h : bindInOrder direction ps r = some binding) :
    List.Forall₂ FitsIn ps binding := by
  induction ps generalizing r binding with
  | nil =>
    obtain ⟨-, -, rfl⟩ := bindInOrder_nil h
    exact .nil
  | cons p ps ih =>
    obtain ⟨bound, rest, more, hbound, hmore, rfl⟩ := bindInOrder_cons h
    refine .cons ?_ (ih hmore)
    intro hp
    obtain ⟨closure, -, rfl, -⟩ | ⟨hvariadic, -⟩ | ⟨-, -, rfl, -⟩ | ⟨-, -, rfl, -⟩ :=
      Remaining.bind_cases hbound
    · simp
    · rw [hp] at hvariadic
      exact absurd hvariadic (by simp)
    · simp
    · simp

theorem flatten_bindInOrder {direction : Direction} {ps : List ParameterInfo} {r : Remaining}
    {binding : Binding} (h : bindInOrder direction ps r = some binding) (hr : r.trailing = none) :
    binding.flatten = List.range' r.next r.labels.length := by
  induction ps generalizing r binding with
  | nil =>
    obtain ⟨hlabels, -, rfl⟩ := bindInOrder_nil h
    simp [hlabels]
  | cons p ps ih =>
    obtain ⟨bound, rest, more, hbound, hmore, rfl⟩ := bindInOrder_cons h
    rw [List.flatten_cons]
    obtain ⟨closure, hclosure, -⟩ | ⟨-, rfl, rfl⟩ | ⟨-, hfits, rfl, rfl⟩ | ⟨-, -, rfl, rfl⟩ :=
      Remaining.bind_cases hbound
    · rw [hr] at hclosure
      exact absurd hclosure (by simp)
    -- A variadic parameter takes the next arguments, all in one share.
    · have hle := r.variadicCount_le p
      rw [ih hmore hr, Remaining.advance_next, Remaining.advance_labels, List.length_drop,
        List.range'_append_1, Nat.add_sub_cancel' hle]
    · have hpos := Remaining.labels_ne_nil_of_fits hfits
      rw [ih hmore hr, Remaining.advance_next, Remaining.advance_labels, List.length_drop,
        List.singleton_append, ← List.range'_succ]
      congr 1
      omega
    · rw [ih hmore hr, List.nil_append]

/-- A trailing closure is alone in its share.  What comes before it are the other arguments in
    order, and every parameter after it goes without. -/
theorem bindInOrder_trailing {direction : Direction} {ps : List ParameterInfo} {r : Remaining}
    {binding : Binding} {closure : Nat} (h : bindInOrder direction ps r = some binding)
    (hr : r.trailing = some closure) :
    ∃ before after, binding = before ++ [closure] :: after ∧
      before.flatten = List.range' r.next r.labels.length ∧ ∀ share ∈ after, share = [] := by
  induction ps generalizing r binding with
  | nil =>
    obtain ⟨-, htrailing, -⟩ := bindInOrder_nil h
    rw [hr] at htrailing
    exact absurd htrailing (by simp)
  | cons p ps ih =>
    obtain ⟨bound, rest, more, hbound, hmore, rfl⟩ := bindInOrder_cons h
    obtain ⟨found, hfound, rfl, rfl, hlast⟩ | ⟨-, rfl, rfl⟩ | ⟨-, hfits, rfl, rfl⟩ |
      ⟨-, -, rfl, rfl⟩ := Remaining.bind_cases hbound
    · -- The closure is taken here: nothing else is left, now or at the end of the parameters.
      have hlabels : r.labels = [] := by
        rcases hlast with hlast | ⟨hlabels, -⟩
        · rw [List.isEmpty_iff] at hlast
          subst hlast
          exact (bindInOrder_nil hmore).1
        · exact hlabels
      have hflat := flatten_bindInOrder hmore rfl
      rw [Remaining.withoutTrailing_labels, hlabels, List.length_nil, List.range'_zero,
        List.flatten_eq_nil_iff] at hflat
      rw [hr, Option.some.injEq] at hfound
      refine ⟨[], more, by rw [hfound]; rfl, ?_, hflat⟩
      rw [hlabels]
      rfl
    · obtain ⟨before, after, rfl, hbefore, hafter⟩ := ih hmore hr
      have hle := r.variadicCount_le p
      refine ⟨_ :: before, after, rfl, ?_, hafter⟩
      rw [List.flatten_cons, hbefore, Remaining.advance_next, Remaining.advance_labels,
        List.length_drop, List.range'_append_1, Nat.add_sub_cancel' hle]
    · obtain ⟨before, after, rfl, hbefore, hafter⟩ := ih hmore hr
      have hpos := Remaining.labels_ne_nil_of_fits hfits
      refine ⟨_ :: before, after, rfl, ?_, hafter⟩
      rw [List.flatten_cons, hbefore, Remaining.advance_next, Remaining.advance_labels,
        List.length_drop, List.singleton_append, ← List.range'_succ]
      congr 1
      omega
    · obtain ⟨before, after, rfl, hbefore, hafter⟩ := ih hmore hr
      exact ⟨[] :: before, after, rfl, hbefore, hafter⟩

theorem bindInOrder_of_bindArguments {ps : List ParameterInfo} {labels : List (Option String)}
    {hasTrailing : Bool} {binding : Binding}
    (h : bindArguments ps labels hasTrailing = some binding) :
    ∃ direction, bindInOrder direction ps (.all labels hasTrailing) = some binding := by
  rw [bindArguments] at h
  cases hforward : bindInOrder .forward ps (.all labels hasTrailing) with
  | some found =>
    rw [hforward] at h
    exact ⟨.forward, hforward.trans h⟩
  | none =>
    rw [hforward] at h
    exact ⟨.backward, h⟩

theorem forall₂_fitsIn_bindArguments {ps : List ParameterInfo} {labels : List (Option String)}
    {hasTrailing : Bool} {binding : Binding}
    (h : bindArguments ps labels hasTrailing = some binding) : List.Forall₂ FitsIn ps binding := by
  obtain ⟨direction, h⟩ := bindInOrder_of_bindArguments h
  exact forall₂_fitsIn_bindInOrder h

theorem flatten_bindArguments {ps : List ParameterInfo} {labels : List (Option String)}
    {binding : Binding} (h : bindArguments ps labels false = some binding) :
    binding.flatten = List.range' 0 labels.length := by
  obtain ⟨direction, h⟩ := bindInOrder_of_bindArguments h
  exact flatten_bindInOrder h rfl

/-- A trailing closure is the last argument, alone in its share. -/
theorem bindArguments_trailing {ps : List ParameterInfo} {labels : List (Option String)}
    {binding : Binding} (h : bindArguments ps labels true = some binding) :
    ∃ before after, binding = before ++ [labels.length] :: after ∧
      before.flatten = List.range' 0 labels.length ∧ ∀ share ∈ after, share = [] := by
  obtain ⟨direction, h⟩ := bindInOrder_of_bindArguments h
  exact bindInOrder_trailing h rfl

end Ferry.Source
