/-
  Ferry.Proofs.Target.TypeGrammar

  The grammar of the source's types, their standard spelling and, form by form, their translation.
  Spelled types nest their brackets, have no white space around them and do not look as if there
  were an attribute in front of them.
-/
import Ferry.Proofs.Target.TypeCutting

namespace Ferry.Target

open Text

/-- Characters of names: no white space, and nothing that has a meaning in a type. -/
def isNameChar (c : Char) : Bool :=
  isPlain c && !isBlank c && c != '?' && c != '!'

structure Word where
  chars : List Char
  nonempty : chars ≠ []
  isName : ∀ c ∈ chars, isNameChar c = true

/-- Types of the source.  A type in parentheses is a tuple of one element without label. -/
inductive SourceType where
  | name (word : Word)
  | array (element : SourceType)
  | dictionary (key value : SourceType)
  | optional (wrapped : SourceType)
  | tuple (elements : List (Option Word × SourceType))
  | function (parameters : List SourceType) (result : SourceType)
  | generic (base : Word) (arguments : List SourceType)

namespace SourceType

/-- Induction over types, with a hypothesis for every member of a list. -/
@[elab_as_elim, induction_eliminator]
theorem induct {P : SourceType → Prop} (name : ∀ word, P (.name word))
    (array : ∀ element, P element → P (.array element))
    (dictionary : ∀ key value, P key → P value → P (.dictionary key value))
    (optional : ∀ wrapped, P wrapped → P (.optional wrapped))
    (tuple : ∀ elements, (∀ e ∈ elements, P e.2) → P (.tuple elements))
    (function : ∀ parameters result, (∀ p ∈ parameters, P p) → P result →
      P (.function parameters result))
    (generic : ∀ base arguments, (∀ a ∈ arguments, P a) → P (.generic base arguments)) :
    ∀ t, P t := by
  intro t
  refine @SourceType.rec P (fun es => ∀ e ∈ es, P e.2) (fun ts => ∀ t ∈ ts, P t) (fun e => P e.2)
    name array dictionary optional tuple function generic ?_ ?_ ?_ ?_ (fun _ _ h => h) t
  · simp
  · exact fun e es he hes => List.forall_mem_cons.2 ⟨he, hes⟩
  · simp
  · exact fun t ts ht hts => List.forall_mem_cons.2 ⟨ht, hts⟩

/-! ## Spelling and translation -/

def isFunction : SourceType → Bool
  | function .. => true
  | _ => false

def parenthesized (s : List Char) : List Char :=
  '(' :: (s ++ [')'])

def labelled : Option Word → List Char → List Char
  | some label, s => label.chars ++ ':' :: ' ' :: s
  | none, s => s

mutual

def spelling : SourceType → List Char
  | name word => word.chars
  | array element => '[' :: (element.spelling ++ [']'])
  | dictionary key value => '[' :: (key.spelling ++ ':' :: ' ' :: value.spelling ++ [']'])
  | optional wrapped =>
    (if wrapped.isFunction then parenthesized wrapped.spelling else wrapped.spelling) ++ ['?']
  | tuple elements => parenthesized ([',', ' '].intercalate (elementSpellings elements))
  | function parameters result =>
    parenthesized ([',', ' '].intercalate (spellings parameters)) ++
      ' ' :: '-' :: '>' :: ' ' :: result.spelling
  | generic base arguments =>
    base.chars ++ '<' :: ([',', ' '].intercalate (spellings arguments) ++ ['>'])

def spellings : List SourceType → List (List Char)
  | [] => []
  | t :: rest => t.spelling :: spellings rest

def elementSpellings : List (Option Word × SourceType) → List (List Char)
  | [] => []
  | (label, t) :: rest => labelled label t.spelling :: elementSpellings rest

end

def text (t : SourceType) : String :=
  String.ofList t.spelling

def translatedName (name : String) : String :=
  (simpleTypes.lookup name).getD name

mutual

/-- The type in the target, form by form. -/
def translation : SourceType → String
  | name word => translatedName (String.ofList word.chars)
  | array element => "MutableList<" ++ element.translation ++ ">"
  | dictionary key value => "MutableMap<" ++ key.translation ++ ", " ++ value.translation ++ ">"
  | optional wrapped =>
    -- Parentheses are needed around anything with an arrow in it.
    if contains "->" wrapped.translation then "(" ++ wrapped.translation ++ ")?"
    else wrapped.translation ++ "?"
  | tuple elements =>
    match elementTranslations elements with
    | [] => "Unit"
    | [single] => single
    | [a, b] => "Pair<" ++ a ++ ", " ++ b ++ ">"
    | [a, b, c] => "Triple<" ++ a ++ ", " ++ b ++ ", " ++ c ++ ">"
    | _ => "List<Any?>"
  | function parameters result =>
    "(" ++ ", ".intercalate (translations parameters) ++ ") -> " ++ result.translation
  | generic base arguments =>
    match String.ofList base.chars, translations arguments with
    | "Array", [element] => "MutableList<" ++ element ++ ">"
    | "Dictionary", [key, value] => "MutableMap<" ++ key ++ ", " ++ value ++ ">"
    | "Set", [element] => "MutableSet<" ++ element ++ ">"
    | "Optional", [wrapped] => wrapped ++ "?"
    | _, _ =>
      translatedName (String.ofList base.chars) ++ "<" ++
        ", ".intercalate (translations arguments) ++ ">"

def translations : List SourceType → List String
  | [] => []
  | t :: rest => t.translation :: translations rest

def elementTranslations : List (Option Word × SourceType) → List String
  | [] => []
  | (_, t) :: rest => t.translation :: elementTranslations rest

end

theorem spellings_eq_map (ts : List SourceType) : spellings ts = ts.map spelling := by
  induction ts with
  | nil => rfl
  | cons t ts ih => rw [spellings, ih, List.map_cons]

theorem elementSpellings_eq_map (es : List (Option Word × SourceType)) :
    elementSpellings es = es.map fun e => labelled e.1 e.2.spelling := by
  induction es with
  | nil => rfl
  | cons e es ih => rw [elementSpellings, ih, List.map_cons]

theorem translations_eq_map (ts : List SourceType) : translations ts = ts.map translation := by
  induction ts with
  | nil => rfl
  | cons t ts ih => rw [translations, ih, List.map_cons]

theorem elementTranslations_eq_map (es : List (Option Word × SourceType)) :
    elementTranslations es = es.map fun e => e.2.translation := by
  induction es with
  | nil => rfl
  | cons e es ih => rw [elementTranslations, ih, List.map_cons]

theorem forall_mem_spellings {P : List Char → Prop} {ts : List SourceType}
    (h : ∀ t ∈ ts, P t.spelling) : ∀ s ∈ spellings ts, P s := by
  rw [spellings_eq_map]
  exact List.forall_mem_map.2 h

theorem forall_mem_elementSpellings {P : List Char → Prop} {es : List (Option Word × SourceType)}
    (h : ∀ e ∈ es, P (labelled e.1 e.2.spelling)) : ∀ s ∈ elementSpellings es, P s := by
  rw [elementSpellings_eq_map]
  exact List.forall_mem_map.2 h

/-! ## Spelled types nest their brackets -/

theorem isPlain_of_mem {w : Word} {c : Char} (h : c ∈ w.chars) : isPlain c = true := by
  have hc := w.isName c h
  simp only [isNameChar, Bool.and_eq_true] at hc
  exact hc.1.1.1

theorem nested_word (w : Word) (marks : List Char) : Nested marks w.chars :=
  .of_plain fun _ hc => isPlain_of_mem hc

theorem nested_parenthesized {marks s : List Char} (h : Nested [',', ':', '>'] s) :
    Nested marks (parenthesized s) :=
  .enclosed (show ('(', ')') ∈ brackets by decide) h

theorem nested_labelled {marks s : List Char} (label : Option Word) (hm : ':' ∈ marks)
    (h : Nested marks s) : Nested marks (labelled label s) := by
  cases label with
  | none => exact h
  | some label =>
    exact (nested_word label _).append (.separator hm (.inr rfl) (.plain (by decide) h))

/-- Outside its brackets a function type has arrows only, and any other type nothing to cut at. -/
theorem nested_spelling (t : SourceType) {marks : List Char}
    (h : '>' ∈ marks ∨ t.isFunction = false) : Nested marks t.spelling := by
  have hall : '>' ∈ [',', ':', '>'] := by simp
  induction t generalizing marks with
  | name word => exact nested_word word _
  | array element ih => exact .enclosed (show ('[', ']') ∈ brackets by decide) (ih (.inl hall))
  | dictionary key value ihk ihv =>
    exact .enclosed (show ('[', ']') ∈ brackets by decide) ((ihk (.inl hall)).append
      (.separator (by simp) (.inr rfl) (.plain (by decide) (ihv (.inl hall)))))
  | optional wrapped ih =>
    refine Nested.append ?_ (.plain (by decide) .nil)
    -- The parentheses hide the arrow of a function type.
    split
    next => exact nested_parenthesized (ih (.inl hall))
    next hw => exact ih (.inr (by simpa using hw))
  | tuple elements ih =>
    exact nested_parenthesized (.intercalate (forall_mem_elementSpellings fun e he =>
      nested_labelled e.1 (by simp) (ih e he (.inl hall))) (by simp))
  | function parameters result ihp ihr =>
    -- Only here does an arrow stand outside of brackets.
    have hm : '>' ∈ marks := h.resolve_right (by simp [isFunction])
    exact (nested_parenthesized (.intercalate (forall_mem_spellings fun p hp =>
      ihp p hp (.inl hall)) (by simp))).append
      (.plain (by decide) (.arrow hm (.plain (by decide) (ihr (.inl hm)))))
  | generic base arguments ih =>
    exact (nested_word base _).append (.enclosed (show ('<', '>') ∈ brackets by decide)
      (.intercalate (forall_mem_spellings fun a ha => ih a ha (.inl hall)) (by simp)))

/-! ## Nothing around a spelled type -/

theorem isTight_word (w : Word) : IsTight w.chars := by
  have hblank : ∀ c ∈ w.chars, isBlank c = false := by
    intro c hc
    have hname := w.isName c hc
    simp only [isNameChar, Bool.and_eq_true, Bool.not_eq_true'] at hname
    exact hname.1.1.2
  exact ⟨w.nonempty, fun c hc => hblank c (List.mem_of_mem_head? hc),
    fun c hc => hblank c (List.mem_of_getLast? hc)⟩

theorem isTight_append {s t : List Char} (hs : IsTight s) (ht : IsTight t) (between : List Char) :
    IsTight (s ++ between ++ t) where
  nonempty := by simp [hs.nonempty]
  first := by
    rw [List.append_assoc, List.head?_append_of_ne_nil _ hs.nonempty]
    exact hs.first
  last := by
    rw [List.getLast?_append_of_ne_nil _ ht.nonempty]
    exact ht.last

theorem isTight_spelling (t : SourceType) : IsTight t.spelling := by
  have hmark : IsTight ['?'] := ⟨by simp, by rintro c ⟨⟩; decide, by rintro c ⟨⟩; decide⟩
  have hangle : IsTight ['>'] := ⟨by simp, by rintro c ⟨⟩; decide, by rintro c ⟨⟩; decide⟩
  induction t with
  | name word => exact isTight_word word
  | array element => exact isTight_enclosed (show ('[', ']') ∈ brackets by decide) _
  | dictionary key value => exact isTight_enclosed (show ('[', ']') ∈ brackets by decide) _
  | optional wrapped ih =>
    rw [spelling, ← List.append_nil (ite _ _ _)]
    refine isTight_append ?_ hmark []
    split
    · exact isTight_enclosed (show ('(', ')') ∈ brackets by decide) _
    · exact ih
  | tuple elements => exact isTight_enclosed (show ('(', ')') ∈ brackets by decide) _
  | function parameters result _ ih =>
    have h := isTight_append (isTight_enclosed (show ('(', ')') ∈ brackets by decide)
      ([',', ' '].intercalate (spellings parameters))) ih [' ', '-', '>', ' ']
    simpa [spelling, parenthesized] using h
  | generic base arguments =>
    have h := isTight_append (isTight_word base) hangle
      ('<' :: [',', ' '].intercalate (spellings arguments))
    simpa [spelling] using h

end SourceType

/-- The text does not begin with a word and a blank. -/
def IsBare (cs : List Char) : Prop :=
  ∀ c ∈ (cs.dropWhile isNameChar).head?, isBlank c = false

namespace IsBare

theorem cons {c : Char} (hname : isNameChar c = false) (hblank : isBlank c = false)
    (cs : List Char) : IsBare (c :: cs) := by
  simp [IsBare, hname, hblank]

theorem append {s t : List Char} (hs : IsBare s) (ht : IsBare t) : IsBare (s ++ t) := by
  intro c hc
  rw [List.dropWhile_append] at hc
  split at hc
  next => exact ht c hc
  next hne =>
    rw [List.head?_append_of_ne_nil _ (by simpa using hne)] at hc
    exact hs c hc

theorem word (w : Word) : IsBare w.chars := by
  simp [IsBare, List.dropWhile_eq_nil_iff.2 w.isName]

theorem spelling (t : SourceType) : IsBare t.spelling := by
  induction t with
  | name word => exact .word word
  | optional wrapped ih =>
    refine .append ?_ (.cons (by decide) (by decide) _)
    split
    · exact .cons (by decide) (by decide) _
    · exact ih
  | generic base arguments => exact .append (.word base) (.cons (by decide) (by decide) _)
  | _ => exact .cons (by decide) (by decide) _

end IsBare

end Ferry.Target
