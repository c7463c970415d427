/-
  Ferry.Target.TypeName

  Spelling types of the source language in the target. Types arrive as text, `[String: Int]?` or
  `(Int, Bool) -> Void`; attributes are dropped, containers, optionals, tuples and functions are
  spelled anew from their parts, and plain names are looked up in a table.

  The recursion ends because every part is shorter than the text it was cut from.
-/
import Ferry.Text.Affix
import Ferry.Text.Blank
import Ferry.Text.Nesting

namespace Ferry.Target

open Text

/-- Names of types that the target spells otherwise. -/
def simpleTypes : List (String × String) :=
  [("Bool", "Boolean"), ("Character", "Char"), ("Void", "Unit"), ("AnyObject", "Any"),
   ("Int8", "Byte"), ("Int16", "Short"), ("Int32", "Int"), ("Int64", "Long"), ("UInt8", "UByte"),
   ("UInt16", "UShort"), ("UInt32", "UInt"), ("UInt64", "ULong"), ("Float32", "Float"),
   ("Float64", "Double"), ("Error", "Exception"), ("Substring", "String")]

/-- Words before a type that the target does not know, in the order in which they are dropped. -/
def typeAttributes : List String :=
  ["inout ", "@escaping ", "@autoclosure ", "some ", "any "]

/-- The text after the given attribute, or the text itself. -/
def dropAttribute (text : List Char) (word : String) : List Char :=
  match dropStart? word.toList text with
  | some rest => trimStart rest
  | none => text

/-- The text without white space around it and without attributes. -/
def coreType (text : List Char) : List Char :=
  typeAttributes.foldl dropAttribute (trim text)

/-- What stands before and after the first arrow outside brackets, from a given depth on. -/
def splitArrowFrom : Int → List Char → Option (List Char × List Char)
  | _, [] => none
  | depth, '-' :: '>' :: cs =>
    if depth = 0 then some ([], cs)
    else (splitArrowFrom depth cs).map fun (before, after) => ('-' :: '>' :: before, after)
  | depth, c :: cs =>
    (splitArrowFrom (depth + nestingStep ' ' c) cs).map fun (before, after) => (c :: before, after)

/-- What stands before and after the arrow of a function type. -/
def splitArrow? (cs : List Char) : Option (List Char × List Char) :=
  splitArrowFrom 0 cs

/-- Whether the bracket opened at the depth before the text is closed by its very last character. -/
def closesAtEnd (opening closing : Char) : Nat → List Char → Bool
  | _, [] => false
  | depth, c :: cs =>
    if c = opening then closesAtEnd opening closing (depth + 1) cs
    else if c = closing then
      if depth = 0 then cs.isEmpty else closesAtEnd opening closing (depth - 1) cs
    else closesAtEnd opening closing depth cs

/-- The text inside a pair of brackets that encloses all of it. -/
def enclosed? (opening closing : Char) : List Char → Option (List Char)
  | [] => none
  | c :: cs => if c = opening ∧ closesAtEnd opening closing 0 cs then some cs.dropLast else none

def dropThrows (cs : List Char) : List Char :=
  match _h : dropEnd? "throws".toList cs with
  | some rest => dropThrows rest
  | none => cs
termination_by cs.length
decreasing_by
  simp only [dropEnd?, Option.map_eq_some_iff] at _h
  obtain ⟨r, hr, rfl⟩ := _h
  have := congrArg List.length (eq_append_of_dropStart? hr)
  simp at this ⊢
  omega

/-- The parameters of a function type, from what stands before its arrow. -/
def signaturePart (before : List Char) : List Char :=
  trimEnd (dropThrows (trim before))

/-- What stands before the first `<` and inside the `>` at the end. -/
def splitGeneric? (cs : List Char) : Option (List Char × List Char) :=
  match cs.dropWhile (· ≠ '<') with
  | [] => none
  | _ :: inner => if inner.getLast? = some '>' then some (cs.takeWhile (· ≠ '<'),
    inner.dropLast) else none

def dropElementLabel (element : List Char) : List Char :=
  match splitTopLevel ':' element with
  | [_, ty] => trim ty
  | _ => trim element

def functionType (parameters : List String) (result : String) : String :=
  "(" ++ ", ".intercalate parameters ++ ") -> " ++ result

/-- The optional of a type; a function type needs parentheses first. -/
def optionalType (inner : String) : String :=
  if contains "->" inner then "(" ++ inner ++ ")?" else inner ++ "?"

def tupleType : List String → String
  | [] => "Unit"
  | [single] => single
  | [a, b] => "Pair<" ++ a ++ ", " ++ b ++ ">"
  | [a, b, c] => "Triple<" ++ a ++ ", " ++ b ++ ", " ++ c ++ ">"
  | _ => "List<Any?>"

/-- A generic type from its name, the name's target spelling and its arguments. -/
def genericType (base : String) (spelled : String) (arguments : List String) : String :=
  match base, arguments with
  | "Array", [element] => "MutableList<" ++ element ++ ">"
  | "Dictionary", [key, value] => "MutableMap<" ++ key ++ ", " ++ value ++ ">"
  | "Set", [element] => "MutableSet<" ++ element ++ ">"
  | "Optional", [wrapped] => wrapped ++ "?"
  | _, _ => spelled ++ "<" ++ ", ".intercalate arguments ++ ">"

/-! ## Parts are shorter -/

theorem length_dropAttribute_le (text : List Char) (word : String) :
    (dropAttribute text word).length ≤ text.length := by
  unfold dropAttribute
  split
  next rest h =>
    have := congrArg List.length (eq_append_of_dropStart? h)
    have := length_trimStart_le rest
    simp at *
    omega
  next => exact Nat.le_refl _

theorem length_coreType_le (text : List Char) : (coreType text).length ≤ text.length := by
  have h : ∀ (words : List String) (cs : List Char),
      (words.foldl dropAttribute cs).length ≤ cs.length := by
    intro words
    induction words with
    | nil => simp
    | cons w ws ih => exact fun cs => Nat.le_trans (ih _) (length_dropAttribute_le cs w)
  exact Nat.le_trans (h _ _) (length_trim_le text)

theorem length_of_splitArrowFrom {depth : Int} {cs before after : List Char}
    (h : splitArrowFrom depth cs = some (before, after)) :
    before.length + 2 + after.length = cs.length := by
  induction depth, cs using splitArrowFrom.induct generalizing before after with
  | case1 => simp [splitArrowFrom] at h
  | case2 cs => simp only [splitArrowFrom, if_true] at h; cases h; simp; omega
  | case3 depth cs hd ih =>
    -- An arrow inside brackets is part of what is before the cut.
    simp only [splitArrowFrom, if_neg hd, Option.map_eq_some_iff] at h
    obtain ⟨⟨b, a⟩, hp, he⟩ := h
    cases he
    have := ih hp
    simp
    omega
  | case4 depth c cs hc ih =>
    rw [splitArrowFrom.eq_3 depth c cs (by simpa using hc)] at h
    simp only [Option.map_eq_some_iff] at h
    obtain ⟨⟨b, a⟩, hp, he⟩ := h
    cases he
    have := ih hp
    simp
    omega

theorem length_of_enclosed? {opening closing : Char} {cs inner : List Char}
    (h : enclosed? opening closing cs = some inner) : inner.length < cs.length := by
  cases cs with
  | nil => simp [enclosed?] at h
  | cons c cs =>
    simp only [enclosed?] at h
    split at h
    · cases h
      simp only [List.length_dropLast, List.length_cons]
      omega
    · simp at h

theorem length_dropThrows_le (cs : List Char) : (dropThrows cs).length ≤ cs.length := by
  fun_induction dropThrows cs with
  | case1 cs rest h ih =>
    simp only [dropEnd?, Option.map_eq_some_iff] at h
    obtain ⟨r, hr, rfl⟩ := h
    have := congrArg List.length (eq_append_of_dropStart? hr)
    simp at this ih ⊢
    omega
  | case2 => exact Nat.le_refl _

theorem length_signaturePart_le (before : List Char) :
    (signaturePart before).length ≤ before.length :=
  Nat.le_trans (length_trimEnd_le _) (Nat.le_trans (length_dropThrows_le _) (length_trim_le _))

theorem length_dropElementLabel_le (element : List Char) :
    (dropElementLabel element).length ≤ element.length := by
  unfold dropElementLabel
  split
  next a ty h =>
    have hm : ty ∈ splitTopLevel ':' element := by simp [h]
    exact Nat.le_trans (length_trim_le ty) (length_le_of_mem_splitTopLevel hm)
  next => exact length_trim_le element

theorem length_of_splitGeneric? {cs base inner : List Char}
    (h : splitGeneric? cs = some (base, inner)) :
    base.length < cs.length ∧ inner.length < cs.length := by
  unfold splitGeneric? at h
  split at h
  next => simp at h
  next c rest he =>
    split at h
    · cases h
      have := congrArg List.length (List.takeWhile_append_dropWhile (p := (· ≠ '<')) (l := cs))
      rw [List.length_append, he] at this
      simp at this ⊢
      omega
    · simp at h

theorem length_dropLast_of_getLast? {cs : List Char} {last : Char} (h : cs.getLast? = some last) :
    cs.dropLast.length < cs.length := by
  have hne : cs ≠ [] := by
    rintro rfl
    simp at h
  have hpos := List.length_pos_iff.2 hne
  rw [List.length_dropLast]
  omega

/-! ## Types -/

/-- The target spelling of a type of the source, character by character. -/
def typeChars (source : List Char) : String :=
  have hcore := length_coreType_le source
  match ha : splitArrow? (coreType source) with
  | some (before, after) =>
    have := length_of_splitArrowFrom ha
    let result := typeChars after
    have := length_signaturePart_le before
    match hp : enclosed? '(' ')' (signaturePart before) with
    | some inner =>
      have := length_of_enclosed? hp
      let parts := (splitTopLevel ',' inner).attach.filterMap fun ⟨part, hm⟩ =>
        have := length_le_of_mem_splitTopLevel hm
        have := length_trim_le part
        if (trim part).isEmpty then none else some (typeChars (trim part))
      functionType parts result
    | none => functionType [typeChars (signaturePart before)] result
  | none =>
  match hl : (coreType source).getLast? with
  | some last =>
    have := length_dropLast_of_getLast? hl
    if last = '?' ∨ last = '!' then optionalType (typeChars (coreType source).dropLast)
    else
    match hb : enclosed? '[' ']' (coreType source) with
    | some inner =>
      have := length_of_enclosed? hb
      match hk : splitTopLevel ':' inner with
      | [key, value] =>
        have : key.length ≤ inner.length :=
          length_le_of_mem_splitTopLevel (hk ▸ List.mem_cons_self)
        have : value.length ≤ inner.length :=
          length_le_of_mem_splitTopLevel (hk ▸ List.mem_cons_of_mem _ List.mem_cons_self)
        "MutableMap<" ++ typeChars key ++ ", " ++ typeChars value ++ ">"
      | _ => "MutableList<" ++ typeChars inner ++ ">"
    | none =>
    match ht : enclosed? '(' ')' (coreType source) with
    | some inner =>
      have := length_of_enclosed? ht
      tupleType ((splitTopLevel ',' inner).attach.filterMap fun ⟨part, hm⟩ =>
        have := length_le_of_mem_splitTopLevel hm
        have := length_dropElementLabel_le part
        if (trim part).isEmpty then none else some (typeChars (dropElementLabel part)))
    | none =>
    match hg : splitGeneric? (coreType source) with
    | some (base, inner) =>
      have := length_of_splitGeneric? hg
      let arguments := (splitTopLevel ',' inner).attach.filterMap fun ⟨part, hm⟩ =>
        have := length_le_of_mem_splitTopLevel hm
        have := length_trim_le part
        if (trim part).isEmpty then none else some (typeChars (trim part))
      genericType (String.ofList base) (typeChars base) arguments
    | none =>
      let name := String.ofList (coreType source)
      (simpleTypes.lookup name).getD name
  | none => ""
termination_by source.length
decreasing_by all_goals omega

def typeText (source : String) : String :=
  typeChars source.toList

/-- Whether a type of the source means that there is no value. -/
def isUnit (source : String) : Bool :=
  typeText source == "Unit"

end Ferry.Target
