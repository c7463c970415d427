/-
  Ferry.Proofs.Text.Nesting

  Texts that nest their brackets properly.  `Nested marks s` says which separators stand outside the
  brackets of `s`; inside brackets anything may stand that is nested in its turn.  The cutter counts
  brackets, so it takes such a text as one piece unless the separator is among its marks
  (`splitNested_append`), and a list of such texts is cut back into its items
  (`splitTopLevel_intercalate`).
-/
import Ferry.Text.Nesting

namespace Ferry.Text

/-- Characters without a meaning for nesting: no bracket, separator or part of an arrow. -/
def isPlain (c : Char) : Bool :=
  !(['(', ')', '[', ']', '<', '>', ',', ':', '-'].contains c)

/-- What opens and what closes. -/
def brackets : List (Char × Char) :=
  [('(', ')'), ('[', ']'), ('<', '>')]

theorem eq_of_mem_brackets {pair : Char × Char} (h : pair ∈ brackets) :
    pair = ('(', ')') ∨ pair = ('[', ']') ∨ pair = ('<', '>') := by
  simpa [brackets] using h

/-- The text nests its brackets properly, and outside of them it has no separators and arrows but
    those in `marks`, where `>` stands for an arrow. -/
inductive Nested : (marks : List Char) → List Char → Prop where
  | nil {marks : List Char} : Nested marks []
  | char {marks : List Char} {c : Char} {s : List Char}
      (hc : isPlain c = true ∨ (c = ',' ∨ c = ':') ∧ c ∈ marks) (h : Nested marks s) :
      Nested marks (c :: s)
  | arrow {marks s : List Char} (hm : '>' ∈ marks) (h : Nested marks s) :
      Nested marks ('-' :: '>' :: s)
  | group {marks inner s : List Char} {pair : Char × Char} (hp : pair ∈ brackets)
      (hi : Nested [',', ':', '>'] inner) (h : Nested marks s) :
      Nested marks (pair.1 :: (inner ++ pair.2 :: s))

namespace Nested

variable {marks s t : List Char}

theorem plain {c : Char} (hc : isPlain c = true) (h : Nested marks s) : Nested marks (c :: s) :=
  .char (.inl hc) h

theorem separator {c : Char} (hm : c ∈ marks) (hc : c = ',' ∨ c = ':') (h : Nested marks s) :
    Nested marks (c :: s) :=
  .char (.inr ⟨hc, hm⟩) h

theorem append (hs : Nested marks s) (ht : Nested marks t) : Nested marks (s ++ t) := by
  induction hs with
  | nil => exact ht
  | char hc _ ih => exact .char hc (ih ht)
  | arrow hm _ ih => exact .arrow hm (ih ht)
  | group hp hi _ _ ih =>
    rw [List.cons_append, List.append_assoc, List.cons_append]
    exact .group hp hi (ih ht)

theorem mono {wider : List Char} (h : Nested marks s) (hsub : marks ⊆ wider) : Nested wider s := by
  induction h with
  | nil => exact .nil
  | char hc _ ih => exact .char (hc.imp_right fun h => ⟨h.1, hsub h.2⟩) (ih hsub)
  | arrow hm _ ih => exact .arrow (hsub hm) (ih hsub)
  | group hp hi _ _ ih => exact .group hp hi (ih hsub)

theorem of_plain (h : ∀ c ∈ s, isPlain c = true) : Nested marks s := by
  induction s with
  | nil => exact .nil
  | cons c s ih =>
    exact .plain (h c List.mem_cons_self) (ih fun d hd => h d (List.mem_cons_of_mem _ hd))

theorem enclosed {pair : Char × Char} (hp : pair ∈ brackets) (h : Nested [',', ':', '>'] s) :
    Nested marks (pair.1 :: (s ++ [pair.2])) :=
  .group hp h .nil

theorem intercalate {items : List (List Char)} (h : ∀ item ∈ items, Nested marks item)
    (hm : ',' ∈ marks) : Nested marks ([',', ' '].intercalate items) := by
  induction items with
  | nil => exact .nil
  | cons item items ih =>
    have hitem := h item List.mem_cons_self
    have hrest := ih fun other ho => h other (List.mem_cons_of_mem _ ho)
    cases items with
    | nil => simpa using hitem
    | cons next items =>
      rw [List.intercalate_cons_cons, List.append_assoc]
      exact hitem.append (.separator hm (.inl rfl) (.plain (by decide) hrest))

end Nested

theorem nestingStep_char {marks : List Char} {c : Char}
    (hc : isPlain c = true ∨ (c = ',' ∨ c = ':') ∧ c ∈ marks) :
    c ≠ '-' ∧ ∀ previous, nestingStep previous c = 0 := by
  rcases hc with hc | ⟨rfl | rfl, -⟩
  · simp [isPlain] at hc
    simp [nestingStep, hc]
  · simp [nestingStep]
  · simp [nestingStep]

theorem nestingStep_opening {pair : Char × Char} (h : pair ∈ brackets) (previous : Char) :
    nestingStep previous pair.1 = 1 := by
  rcases eq_of_mem_brackets h with rfl | rfl | rfl <;> rfl

theorem nestingStep_closing {pair : Char × Char} (h : pair ∈ brackets) {previous : Char}
    (hprevious : previous ≠ '-') : nestingStep previous pair.2 = -1 := by
  rcases eq_of_mem_brackets h with rfl | rfl | rfl <;> simp [nestingStep, hprevious]

/-! ## The cutter -/

variable {separator : Char}

/-- The character before matters only if it could begin an arrow. -/
theorem splitNested_previous {depth : Int} {previous : Char} (h : previous ≠ '-') (cs : List Char) :
    splitNested separator depth previous cs = splitNested separator depth ' ' cs := by
  cases cs with
  | nil => rfl
  | cons c cs =>
    have hstep : nestingStep previous c = nestingStep ' ' c := by
      simp [nestingStep, h]
    simp only [splitNested, hstep]

theorem splitNested_cons {depth : Int} {previous c : Char} (h : c = separator → depth ≠ 0)
    (cs : List Char) :
    splitNested separator depth previous (c :: cs) =
      Prod.map (c :: ·) id (splitNested separator (depth + nestingStep previous c) c cs) := by
  rw [splitNested, if_neg fun hc => h hc.1 hc.2]
  rfl

/-- Neither bracket of a pair is a separator, nor can it begin an arrow. -/
theorem ne_of_mem_brackets {pair : Char × Char} (h : pair ∈ brackets)
    (hs : separator = ',' ∨ separator = ':') :
    pair.1 ≠ separator ∧ pair.2 ≠ separator ∧ pair.1 ≠ '-' ∧ pair.2 ≠ '-' := by
  rcases eq_of_mem_brackets h with rfl | rfl | rfl <;> rcases hs with rfl | rfl <;> decide

/-- The cutter passes over a nested text in which, at this depth, there is nothing to cut at. -/
theorem splitNested_append {marks s : List Char} (h : Nested marks s)
    (hs : separator = ',' ∨ separator = ':') {depth : Int} (hd : 0 ≤ depth)
    (hmarks : separator ∈ marks → depth ≠ 0) {previous : Char} (hp : previous ≠ '-')
    (rest : List Char) :
    splitNested separator depth previous (s ++ rest) =
      Prod.map (s ++ ·) id (splitNested separator depth ' ' rest) := by
  induction h generalizing depth previous rest with
  | nil => exact splitNested_previous hp rest
  | @char marks c s hc _ ih =>
    obtain ⟨hdash, hzero⟩ := nestingStep_char hc
    have hcut : c = separator → depth ≠ 0 := by
      rintro rfl
      rcases hc with hc | hc
      · rcases hs with rfl | rfl <;> simp [isPlain] at hc
      · exact hmarks hc.2
    rw [List.cons_append, splitNested_cons hcut, hzero, Int.add_zero, ih hd hmarks hdash]
    rfl
  | @arrow marks s hm _ ih =>
    have hdash : '-' ≠ separator ∧ '>' ≠ separator := by
      rcases hs with rfl | rfl <;> decide
    have hzero : nestingStep previous '-' = 0 ∧ nestingStep '-' '>' = 0 := by
      simp [nestingStep]
    rw [List.cons_append, List.cons_append, splitNested_cons (fun he => absurd he hdash.1), hzero.1,
      Int.add_zero, splitNested_cons (fun he => absurd he hdash.2), hzero.2, Int.add_zero,
      ih hd hmarks (by decide)]
    rfl
  | @group marks inner s pair hpair _ _ ihi ih =>
    obtain ⟨hopen, hclose, hopenDash, hcloseDash⟩ := ne_of_mem_brackets hpair hs
    -- Inside the brackets the depth is positive, so nothing is cut there, whatever the marks.
    rw [List.cons_append, List.append_assoc, List.cons_append,
      splitNested_cons (fun he => absurd he hopen), nestingStep_opening hpair,
      ihi (by omega) (fun _ => by omega) hopenDash, splitNested_cons (fun he => absurd he hclose),
      nestingStep_closing hpair (by decide), Int.add_neg_cancel_right, ih hd hmarks hcloseDash]
    simp [Prod.map]

theorem splitTopLevel_of_nested {marks s : List Char} (h : Nested marks s)
    (hs : separator = ',' ∨ separator = ':') (hm : separator ∉ marks) :
    splitTopLevel separator s = [s] := by
  have hsplit := splitNested_append h hs (Int.le_refl 0) (fun he => absurd he hm)
    (show ' ' ≠ '-' by decide) []
  rw [List.append_nil] at hsplit
  simp [splitTopLevel, hsplit, splitNested]

theorem splitTopLevel_append {marks s : List Char} (h : Nested marks s)
    (hs : separator = ',' ∨ separator = ':') (hm : separator ∉ marks) (rest : List Char) :
    splitTopLevel separator (s ++ separator :: rest) = s :: splitTopLevel separator rest := by
  have hdash : separator ≠ '-' := by
    rcases hs with rfl | rfl <;> decide
  have hcut : splitNested separator 0 ' ' (separator :: rest) =
      ([], splitTopLevel separator rest) := by
    rw [splitNested, if_pos ⟨rfl, rfl⟩, splitNested_previous hdash]
    rfl
  have hsplit := splitNested_append h hs (Int.le_refl 0) (fun he => absurd he hm)
    (show ' ' ≠ '-' by decide) (separator :: rest)
  rw [hcut] at hsplit
  simp [splitTopLevel, hsplit]

/-- Texts of a kind that is never cut are taken apart where they were joined, each but the first
    with a blank before it. -/
theorem splitTopLevel_intercalate_of {P : List Char → Prop}
    (hone : ∀ {s}, P s → splitTopLevel ',' s = [s])
    (happend : ∀ {s}, P s → ∀ rest,
      splitTopLevel ',' (s ++ ',' :: rest) = s :: splitTopLevel ',' rest)
    (hblank : ∀ {s}, P s → P (' ' :: s)) {first : List Char} {more : List (List Char)}
    (h : ∀ item ∈ first :: more, P item) :
    splitTopLevel ',' ([',', ' '].intercalate (first :: more)) = first :: more.map (' ' :: ·) := by
  induction more generalizing first with
  | nil => simpa using hone (h first (by simp))
  | cons next more ih =>
    -- The blank behind a comma belongs to the item after it.
    have hnext : ∀ item ∈ (' ' :: next) :: more, P item := by
      intro item hitem
      rcases List.mem_cons.1 hitem with rfl | hitem
      · exact hblank (h next (by simp))
      · exact h item (by simp [hitem])
    have hjoined : [',', ' '].intercalate ((' ' :: next) :: more) =
        ' ' :: [',', ' '].intercalate (next :: more) := by
      cases more <;> simp
    rw [List.intercalate_cons_cons, List.append_assoc]
    show splitTopLevel ',' (first ++ ',' :: ' ' :: [',', ' '].intercalate (next :: more)) = _
    rw [happend (h first (by simp)), ← hjoined, ih hnext]
    rfl

theorem splitTopLevel_intercalate {marks : List Char} (hm : ',' ∉ marks) {first : List Char}
    {more : List (List Char)} (h : ∀ item ∈ first :: more, Nested marks item) :
    splitTopLevel ',' ([',', ' '].intercalate (first :: more)) = first :: more.map (' ' :: ·) :=
  splitTopLevel_intercalate_of (fun hs => splitTopLevel_of_nested hs (.inl rfl) hm)
    (fun hs => splitTopLevel_append hs (.inl rfl) hm) (fun hs => .plain (by decide) hs) h

end Ferry.Text
