/-
  Ferry.Proofs.Target.TypeCutting

  How the text of a type is cut.  Every cut (at the arrow of a function type, at the brackets around
  a text, at the angle brackets of a generic type) finds its place in a text that nests its brackets
  properly.  `typeChars_eq` unfolds the translation of types to one step on the text without blanks
  and attributes around it; from there on there is one lemma for each form of a type.
-/
import Ferry.Proofs.Text.Nesting
import Ferry.Target.TypeName
import Mathlib.Data.List.Basic
import Mathlib.Data.List.TakeWhile

namespace Ferry.Target

open Text

/-! ## Blanks around a text -/

/-- The text begins and ends with something else than white space. -/
structure IsTight (cs : List Char) : Prop where
  nonempty : cs ≠ []
  first : ∀ c ∈ cs.head?, isBlank c = false
  last : ∀ c ∈ cs.getLast?, isBlank c = false

theorem isBlank_blank : isBlank ' ' = true := by decide

theorem trimStart_eq_self {cs : List Char} (h : ∀ c ∈ cs.head?, isBlank c = false) :
    trimStart cs = cs := by
  cases cs with
  | nil => rfl
  | cons c cs => simp [trimStart, h c (by simp)]

theorem trimEnd_eq_self {cs : List Char} (h : ∀ c ∈ cs.getLast?, isBlank c = false) :
    trimEnd cs = cs := by
  have hrev : trimStart cs.reverse = cs.reverse :=
    trimStart_eq_self (by simpa [List.head?_reverse] using h)
  rw [trimEnd, dropEndWhile, ← trimStart, hrev, List.reverse_reverse]

theorem IsTight.trim {cs : List Char} (h : IsTight cs) : Text.trim cs = cs := by
  rw [Text.trim, trimStart_eq_self h.first, trimEnd_eq_self h.last]

theorem trim_blank_cons (cs : List Char) : Text.trim (' ' :: cs) = Text.trim cs := by
  simp [Text.trim, trimStart, isBlank_blank]

theorem trimEnd_append_blank (cs : List Char) : trimEnd (cs ++ [' ']) = trimEnd cs := by
  simp [trimEnd, dropEndWhile, isBlank_blank]

theorem isTight_enclosed {pair : Char × Char} (h : pair ∈ brackets) (inner : List Char) :
    IsTight (pair.1 :: (inner ++ [pair.2])) := by
  have hpair : isBlank pair.1 = false ∧ isBlank pair.2 = false := by
    rcases eq_of_mem_brackets h with rfl | rfl | rfl <;> decide
  refine ⟨by simp, ?_, ?_⟩
  · simpa using hpair.1
  · rw [← List.cons_append, List.getLast?_concat]
    simpa using hpair.2

/-! ## Arrows -/

theorem splitArrowFrom_cons {depth : Int} {c : Char} (h : c ≠ '-') (cs : List Char) :
    splitArrowFrom depth (c :: cs) =
      (splitArrowFrom (depth + nestingStep ' ' c) cs).map (Prod.map (c :: ·) id) :=
  splitArrowFrom.eq_3 depth c cs fun _ hc => absurd hc h

/-- No arrow is found in a nested text that has none at this depth. -/
theorem splitArrowFrom_append {marks s : List Char} (h : Nested marks s) {depth : Int}
    (hd : 0 ≤ depth) (hm : '>' ∈ marks → depth ≠ 0) (rest : List Char) :
    splitArrowFrom depth (s ++ rest) =
      (splitArrowFrom depth rest).map (Prod.map (s ++ ·) id) := by
  induction h generalizing depth rest with
  | nil => exact (Option.map_id_apply ..).symm
  | @char marks c s hc _ ih =>
    obtain ⟨hdash, hzero⟩ := nestingStep_char hc
    rw [List.cons_append, splitArrowFrom_cons hdash, hzero, Int.add_zero, ih hd hm, Option.map_map]
    rfl
  | @arrow marks s hmark _ ih =>
    rw [List.cons_append, List.cons_append, splitArrowFrom, if_neg (hm hmark), ih hd hm,
      Option.map_map]
    rfl
  | @group marks inner s pair hpair _ _ ihi ih =>
    obtain ⟨-, -, hopen, hclose⟩ := ne_of_mem_brackets hpair (.inl rfl)
    -- An arrow inside the brackets is not at depth zero, whatever the marks there.
    rw [List.cons_append, List.append_assoc, List.cons_append, splitArrowFrom_cons hopen,
      nestingStep_opening hpair, ihi (by omega) (fun _ => by omega), splitArrowFrom_cons hclose,
      nestingStep_closing hpair (by decide), Int.add_neg_cancel_right, ih hd hm]
    simp only [Option.map_map]
    congr 1
    funext parts
    simp [Prod.map]

theorem splitArrow?_of_nested {s : List Char} (h : Nested [] s) : splitArrow? s = none := by
  have hsplit := splitArrowFrom_append h (Int.le_refl 0) (by simp) []
  rw [List.append_nil] at hsplit
  rw [splitArrow?, hsplit]
  rfl

theorem splitArrow?_append {s : List Char} (h : Nested [] s) (rest : List Char) :
    splitArrow? (s ++ '-' :: '>' :: rest) = some (s, rest) := by
  rw [splitArrow?, splitArrowFrom_append h (Int.le_refl 0) (by simp), splitArrowFrom, if_pos rfl]
  simp

/-! ## Brackets around a text -/

/-- A nested text closes nothing that was opened before it. -/
theorem closesAtEnd_append {marks s : List Char} (h : Nested marks s) {pair : Char × Char}
    (hp : pair ∈ brackets) (hangle : pair.2 ≠ '>') (depth : Nat) (rest : List Char) :
    closesAtEnd pair.1 pair.2 depth (s ++ rest) = closesAtEnd pair.1 pair.2 depth rest := by
  have hpair : pair = ('(', ')') ∨ pair = ('[', ']') := by
    rcases eq_of_mem_brackets hp with rfl | rfl | rfl
    · exact .inl rfl
    · exact .inr rfl
    · exact absurd rfl hangle
  induction h generalizing depth rest with
  | nil => rfl
  | @char marks c s hc _ ih =>
    have hne : c ≠ pair.1 ∧ c ≠ pair.2 := by
      rcases hpair with rfl | rfl <;> rcases hc with hc | ⟨rfl | rfl, -⟩ <;> simp_all [isPlain]
    rw [List.cons_append, closesAtEnd, if_neg hne.1, if_neg hne.2, ih]
  | @arrow marks s _ _ ih =>
    have hne : '-' ≠ pair.1 ∧ '-' ≠ pair.2 ∧ '>' ≠ pair.1 ∧ '>' ≠ pair.2 := by
      rcases hpair with rfl | rfl <;> decide
    rw [List.cons_append, List.cons_append, closesAtEnd, if_neg hne.1, if_neg hne.2.1, closesAtEnd,
      if_neg hne.2.2.1, if_neg hne.2.2.2, ih]
  | @group marks inner s other hother _ _ ihi ih =>
    rw [List.cons_append, List.append_assoc, List.cons_append]
    -- Brackets of the same kind are counted, the others passed over.
    rcases hpair with rfl | rfl <;> rcases eq_of_mem_brackets hother with rfl | rfl | rfl <;>
      simp [closesAtEnd, ihi, ih]

theorem enclosed?_of_nested {s : List Char} (h : Nested [',', ':', '>'] s) {pair : Char × Char}
    (hp : pair ∈ brackets) (hangle : pair.2 ≠ '>') :
    enclosed? pair.1 pair.2 (pair.1 :: (s ++ [pair.2])) = some s := by
  have hne : pair.2 ≠ pair.1 := by
    rcases eq_of_mem_brackets hp with rfl | rfl | rfl <;> decide
  have hcloses : closesAtEnd pair.1 pair.2 0 (s ++ [pair.2]) = true := by
    rw [closesAtEnd_append h hp hangle]
    simp [closesAtEnd, hne]
  simp [enclosed?, hcloses]

theorem enclosed?_of_head {opening closing : Char} {cs : List Char}
    (h : cs.head? ≠ some opening) : enclosed? opening closing cs = none := by
  cases cs with
  | nil => rfl
  | cons c cs => simp [enclosed?, show c ≠ opening by simpa using h]

/-! ## Signatures, generic types and labels -/

/-- The parameters before an arrow, with the blank between them and the arrow. -/
theorem signaturePart_enclosed (inner : List Char) :
    signaturePart ('(' :: (inner ++ [')']) ++ [' ']) = '(' :: (inner ++ [')']) := by
  have htight : IsTight ('(' :: (inner ++ [')'])) :=
    isTight_enclosed (show ('(', ')') ∈ brackets by decide) inner
  have hend : dropEnd? "throws".toList ('(' :: (inner ++ [')'])) = none := by
    simp [dropEnd?, dropStart?]
  have hthrows : dropThrows ('(' :: (inner ++ [')'])) = '(' :: (inner ++ [')']) := by
    rw [dropThrows]
    split
    next hsome => exact absurd (hend.symm.trans hsome) (by simp)
    next => rfl
  have hstart : trimStart ('(' :: (inner ++ [')']) ++ [' ']) = '(' :: (inner ++ [')']) ++ [' '] :=
    trimStart_eq_self (by simpa using htight.first)
  rw [signaturePart, Text.trim, hstart, trimEnd_append_blank, trimEnd_eq_self htight.last, hthrows,
    trimEnd_eq_self htight.last]

theorem splitGeneric?_append {base : List Char} (h : '<' ∉ base) (inner : List Char) :
    splitGeneric? (base ++ '<' :: (inner ++ ['>'])) = some (base, inner) := by
  have hbase : ∀ c ∈ base, decide (c ≠ '<') = true := by
    intro c hc
    simpa using ne_of_mem_of_not_mem hc h
  rw [splitGeneric?, List.dropWhile_append_of_pos hbase, List.takeWhile_append_of_pos hbase]
  simp

theorem splitGeneric?_of_not_mem {cs : List Char} (h : '<' ∉ cs) : splitGeneric? cs = none := by
  have hdrop : cs.dropWhile (· ≠ '<') = [] := by
    rw [List.dropWhile_eq_nil_iff]
    intro c hc
    simpa using ne_of_mem_of_not_mem hc h
  rw [splitGeneric?, hdrop]

theorem dropElementLabel_of_nested {element : List Char} (h : Nested ['>'] element) :
    dropElementLabel element = Text.trim element := by
  rw [dropElementLabel, splitTopLevel_of_nested h (.inr rfl) (by decide)]

theorem dropElementLabel_labelled {label element : List Char} (hl : Nested [] label)
    (h : Nested ['>'] element) :
    dropElementLabel (label ++ ':' :: element) = Text.trim element := by
  rw [dropElementLabel, splitTopLevel_append hl (.inr rfl) (by simp),
    splitTopLevel_of_nested h (.inr rfl) (by decide)]

/-! ## One step of the translation -/

def listTexts (items : List Char) : List String :=
  (splitTopLevel ',' items).filterMap fun part =>
    if (Text.trim part).isEmpty then none else some (typeChars (Text.trim part))

def elementTexts (items : List Char) : List String :=
  (splitTopLevel ',' items).filterMap fun part =>
    if (Text.trim part).isEmpty then none else some (typeChars (dropElementLabel part))

/-- The target spelling of a type from the text without blanks and attributes around it. -/
def coreText (core : List Char) : String :=
  match splitArrow? core with
  | some (before, after) =>
    match enclosed? '(' ')' (signaturePart before) with
    | some inner => functionType (listTexts inner) (typeChars after)
    | none => functionType [typeChars (signaturePart before)] (typeChars after)
  | none =>
  match core.getLast? with
  | some last =>
    if last = '?' ∨ last = '!' then optionalType (typeChars core.dropLast)
    else
    match enclosed? '[' ']' core with
    | some inner =>
      match splitTopLevel ':' inner with
      | [key, value] => "MutableMap<" ++ typeChars key ++ ", " ++ typeChars value ++ ">"
      | _ => "MutableList<" ++ typeChars inner ++ ">"
    | none =>
    match enclosed? '(' ')' core with
    | some inner => tupleType (elementTexts inner)
    | none =>
    match splitGeneric? core with
    | some (base, inner) => genericType (String.ofList base) (typeChars base) (listTexts inner)
    | none => (simpleTypes.lookup (String.ofList core)).getD (String.ofList core)
  | none => ""

/-- That a part is shorter matters for the recursion only, not for what becomes of the part. -/
theorem filterMap_attach (parts : List (List Char)) (f : List Char → Option String) :
    (parts.attach.filterMap fun part => f part.1) = parts.filterMap f := by
  rw [List.filterMap_subtype (g := f) fun _ _ => rfl, List.unattach_attach]

theorem typeChars_eq (source : List Char) : typeChars source = coreText (coreType source) := by
  rw [typeChars]
  -- The cuts carry the proofs that the parts are shorter, so both sides are compared in each branch
  -- and not rewritten as a whole.
  split
  next before after ha =>
    dsimp only
    split
    next inner hp =>
      simp only [coreText, ha, hp, listTexts]
      rw [← filterMap_attach (splitTopLevel ',' inner)]
    next hp => simp only [coreText, ha, hp]
  next ha =>
    split
    next last hl =>
      split
      next hlast => simp only [coreText, ha, hl, if_pos hlast]
      next hlast =>
        split
        next inner hb =>
          simp only [coreText, ha, hl, if_neg hlast, hb]
          split
          next hk => simp only [hk]
          next hk =>
            split
            next hpair => exact absurd hpair (hk _ _)
            next => rfl
        next hb =>
          split
          next inner ht =>
            simp only [coreText, ha, hl, if_neg hlast, hb, ht, elementTexts]
            rw [← filterMap_attach (splitTopLevel ',' inner)]
          next ht =>
            split
            next base inner hg =>
              simp only [coreText, ha, hl, if_neg hlast, hb, ht, hg, listTexts]
              rw [← filterMap_attach (splitTopLevel ',' inner)]
            next hg => simp only [coreText, ha, hl, if_neg hlast, hb, ht, hg]
    next hl => simp only [coreText, ha, hl]

theorem typeChars_of_trim {a b : List Char} (h : Text.trim a = Text.trim b) :
    typeChars a = typeChars b := by
  rw [typeChars_eq, typeChars_eq, coreType, coreType, h]

theorem typeChars_blank_cons (cs : List Char) : typeChars (' ' :: cs) = typeChars cs :=
  typeChars_of_trim (trim_blank_cons cs)

/-! ## The forms of a type -/

theorem coreText_function {inner : List Char} (h : Nested [',', ':', '>'] inner)
    (after : List Char) :
    coreText ('(' :: (inner ++ [')']) ++ ' ' :: '-' :: '>' :: after) =
      functionType (listTexts inner) (typeChars after) := by
  have hpair : ('(', ')') ∈ brackets := by decide
  have hbefore : Nested [] ('(' :: (inner ++ [')']) ++ [' ']) :=
    (Nested.enclosed hpair h).append (.plain (by decide) .nil)
  have hsplit := splitArrow?_append hbefore after
  rw [List.append_assoc, List.singleton_append] at hsplit
  have henclosed : enclosed? '(' ')' ('(' :: (inner ++ [')'])) = some inner :=
    enclosed?_of_nested h hpair (by decide)
  rw [coreText, hsplit]
  simp only [signaturePart_enclosed, henclosed]

theorem coreText_optional {s : List Char} (h : Nested [] s) :
    coreText (s ++ ['?']) = optionalType (typeChars s) := by
  have harrow := splitArrow?_of_nested (h.append (.plain (c := '?') (by decide) .nil))
  simp [coreText, harrow]

/-- What is common to all texts in brackets: there is no arrow, and no mark at the end. -/
theorem coreText_enclosed {s : List Char} (h : Nested [',', ':', '>'] s) {pair : Char × Char}
    (hp : pair ∈ brackets) :
    splitArrow? (pair.1 :: (s ++ [pair.2])) = none ∧
      (pair.1 :: (s ++ [pair.2])).getLast? = some pair.2 := by
  refine ⟨splitArrow?_of_nested (.enclosed hp h), ?_⟩
  rw [← List.cons_append, List.getLast?_concat]

theorem coreText_square {s : List Char} (h : Nested [',', ':', '>'] s) :
    coreText ('[' :: (s ++ [']'])) =
      match splitTopLevel ':' s with
      | [key, value] => "MutableMap<" ++ typeChars key ++ ", " ++ typeChars value ++ ">"
      | _ => "MutableList<" ++ typeChars s ++ ">" := by
  have hpair : ('[', ']') ∈ brackets := by decide
  obtain ⟨harrow, hlast⟩ := coreText_enclosed h hpair
  have henclosed : enclosed? '[' ']' ('[' :: (s ++ [']'])) = some s :=
    enclosed?_of_nested h hpair (by decide)
  dsimp only at harrow hlast
  simp only [coreText, harrow, hlast, henclosed]
  rfl

theorem coreText_array {s : List Char} (h : Nested ['>'] s) :
    coreText ('[' :: (s ++ [']'])) = "MutableList<" ++ typeChars s ++ ">" := by
  rw [coreText_square (h.mono (by simp)), splitTopLevel_of_nested h (.inr rfl) (by decide)]

theorem coreText_dictionary {k v : List Char} (hk : Nested ['>'] k) (hv : Nested ['>'] v) :
    coreText ('[' :: (k ++ ':' :: v ++ [']'])) =
      "MutableMap<" ++ typeChars k ++ ", " ++ typeChars v ++ ">" := by
  have h : Nested [',', ':', '>'] (k ++ ':' :: v) :=
    (hk.mono (by simp)).append (.separator (by simp) (.inr rfl) (hv.mono (by simp)))
  rw [coreText_square h, splitTopLevel_append hk (.inr rfl) (by decide),
    splitTopLevel_of_nested hv (.inr rfl) (by decide)]

theorem coreText_tuple {s : List Char} (h : Nested [',', ':', '>'] s) :
    coreText ('(' :: (s ++ [')'])) = tupleType (elementTexts s) := by
  have hpair : ('(', ')') ∈ brackets := by decide
  obtain ⟨harrow, hlast⟩ := coreText_enclosed h hpair
  have henclosed : enclosed? '(' ')' ('(' :: (s ++ [')'])) = some s :=
    enclosed?_of_nested h hpair (by decide)
  have hsquare : enclosed? '[' ']' ('(' :: (s ++ [')'])) = none := enclosed?_of_head (by simp)
  dsimp only at harrow hlast
  simp only [coreText, harrow, hlast, hsquare, henclosed]
  rfl

theorem coreText_generic {base inner : List Char} (hb : ∀ c ∈ base, isPlain c = true)
    (h : Nested [',', ':', '>'] inner) :
    coreText (base ++ '<' :: (inner ++ ['>'])) =
      genericType (String.ofList base) (typeChars base) (listTexts inner) := by
  have harrow : splitArrow? (base ++ '<' :: (inner ++ ['>'])) = none :=
    splitArrow?_of_nested ((Nested.of_plain hb).append
      (.enclosed (show ('<', '>') ∈ brackets by decide) h))
  have hlast : (base ++ '<' :: (inner ++ ['>'])).getLast? = some '>' := by
    rw [← List.cons_append, ← List.append_assoc, List.getLast?_concat]
  -- The name has no brackets, so that the type is neither a collection nor a tuple.
  have hhead : ∀ c, c = '[' ∨ c = '(' → (base ++ '<' :: (inner ++ ['>'])).head? ≠ some c := by
    intro c hc
    cases base with
    | nil => rcases hc with rfl | rfl <;> simp
    | cons d base =>
      have hd := hb d List.mem_cons_self
      rcases hc with rfl | rfl <;> simp [isPlain] at hd ⊢ <;> simp [hd]
  have hangle : '<' ∉ base := fun hmem => absurd (hb _ hmem) (by decide)
  simp only [coreText, harrow, hlast, enclosed?_of_head (hhead '[' (.inl rfl)),
    enclosed?_of_head (hhead '(' (.inr rfl)), splitGeneric?_append hangle]
  rfl

theorem coreText_name {cs : List Char} (hne : cs ≠ []) (h : ∀ c ∈ cs, isPlain c = true)
    (hmark : '?' ∉ cs ∧ '!' ∉ cs) :
    coreText cs = (simpleTypes.lookup (String.ofList cs)).getD (String.ofList cs) := by
  have hhead : ∀ c, isPlain c = false → cs.head? ≠ some c := fun c hc heq =>
    absurd (h c (List.mem_of_mem_head? heq)) (by simp [hc])
  have hangle : '<' ∉ cs := fun hmem => absurd (h _ hmem) (by decide)
  have hlast : ∀ last, cs.getLast? = some last → ¬(last = '?' ∨ last = '!') := by
    rintro last heq (rfl | rfl)
    · exact hmark.1 (List.mem_of_getLast? heq)
    · exact hmark.2 (List.mem_of_getLast? heq)
  cases heq : cs.getLast? with
  | none => exact absurd (List.getLast?_eq_none_iff.1 heq) hne
  | some last =>
    simp only [coreText, splitArrow?_of_nested (.of_plain h), heq, if_neg (hlast last heq),
      enclosed?_of_head (hhead '[' (by decide)), enclosed?_of_head (hhead '(' (by decide)),
      splitGeneric?_of_not_mem hangle]

/-! ## Lists of types -/

/-- The items of a list are found again, whatever is done with them, as long as it does not see the
    blank in front of them. -/
theorem filterMap_splitTopLevel {marks : List Char} (hm : ',' ∉ marks) {items : List (List Char)}
    (h : ∀ item ∈ items, Nested marks item ∧ IsTight item) {f : List Char → String}
    (hf : ∀ cs, f (' ' :: cs) = f cs) :
    ((splitTopLevel ',' ([',', ' '].intercalate items)).filterMap fun part =>
      if (Text.trim part).isEmpty then none else some (f part)) = items.map f := by
  cases items with
  | nil => rfl
  | cons first more =>
    have hrest : ((more.map (' ' :: ·)).filterMap fun part =>
        if (Text.trim part).isEmpty then none else some (f part)) = more.map f := by
      rw [List.filterMap_map, ← List.filterMap_eq_map]
      refine List.filterMap_congr fun item hitem => ?_
      have htight := (h item (List.mem_cons_of_mem _ hitem)).2
      simp [trim_blank_cons, hf, htight.trim, htight.nonempty]
    rw [splitTopLevel_intercalate hm fun item hitem => (h item hitem).1, List.filterMap_cons, hrest]
    have htight := (h first List.mem_cons_self).2
    simp [htight.trim, htight.nonempty]

theorem listTexts_intercalate {items : List (List Char)}
    (h : ∀ item ∈ items, Nested ['>'] item ∧ IsTight item) :
    listTexts ([',', ' '].intercalate items) = items.map typeChars := by
  rw [listTexts, filterMap_splitTopLevel (by decide) h fun cs => by rw [trim_blank_cons]]
  exact List.map_congr_left fun item hitem => by rw [(h item hitem).2.trim]

theorem dropElementLabel_blank_cons (cs : List Char) :
    dropElementLabel (' ' :: cs) = dropElementLabel cs := by
  have hblank : Nested [] [' '] := .plain (by decide) .nil
  have hsplit : splitNested ':' 0 ' ' (' ' :: cs) =
      Prod.map (' ' :: ·) id (splitNested ':' 0 ' ' cs) :=
    splitNested_append hblank (.inr rfl) (Int.le_refl 0) (by simp) (by decide) cs
  rw [dropElementLabel, dropElementLabel, splitTopLevel, splitTopLevel, hsplit, trim_blank_cons]
  rcases splitNested ':' 0 ' ' cs with ⟨part, _ | ⟨second, _ | ⟨third, more⟩⟩⟩ <;> rfl

theorem elementTexts_intercalate {items : List (List Char)}
    (h : ∀ item ∈ items, Nested [':', '>'] item ∧ IsTight item) :
    elementTexts ([',', ' '].intercalate items) =
      items.map fun item => typeChars (dropElementLabel item) := by
  rw [elementTexts, filterMap_splitTopLevel (by decide) h fun cs => by
    rw [dropElementLabel_blank_cons]]

end Ferry.Target
