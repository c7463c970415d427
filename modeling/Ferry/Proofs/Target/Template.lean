/-
  Ferry.Proofs.Target.Template

  String templates as the target reads them.  Dollar signs of a text are escaped, and a name stands
  in braces if the text after it would go on with it.  So a template reads as the segments it was
  written from (`read?_interpolation`).
-/
import Ferry.Target.Emit

namespace Ferry.Target

/-- What a string template consists of. -/
inductive TemplatePart where
  | text (words : List Char)
  | reference (name : List Char)

namespace Template

def isNamePart (c : Char) : Bool :=
  Text.isAlphanumeric c || c == '_'

def IsName (name : List Char) : Prop :=
  name ≠ [] ∧ name.all isNamePart

def put (c : Char) : List TemplatePart → List TemplatePart
  | .text words :: rest => .text (c :: words) :: rest
  | parts => .text [c] :: parts

/-- The parts up to the closing quote: an escaped dollar sign is text, an open one refers to the
longest name right after it or to one in braces, and everything else is text. -/
def parts? : List Char → Option (List TemplatePart)
  | [] => none
  | '"' :: rest => if rest = [] then some [] else none
  | '\\' :: '$' :: rest => (parts? rest).map (put '$')
  | '$' :: '{' :: rest =>
    let after := rest.dropWhile isNamePart
    if rest.takeWhile isNamePart ≠ [] ∧ after.head? = some '}' then
      (parts? after.tail).map (.reference (rest.takeWhile isNamePart) :: ·)
    else (parts? ('{' :: rest)).map (put '$')
  | '$' :: rest =>
    if rest.takeWhile isNamePart ≠ [] then
      (parts? (rest.dropWhile isNamePart)).map (.reference (rest.takeWhile isNamePart) :: ·)
    else (parts? rest).map (put '$')
  | c :: rest => (parts? rest).map (put c)
termination_by text => text.length
decreasing_by
  all_goals
    have := (List.dropWhile_sublist (l := rest) isNamePart).length_le
    simp only [List.length_cons, List.length_tail]
    omega

/-- The parts of a template in quotes. -/
def read? (text : String) : Option (List TemplatePart) :=
  match text.toList with
  | '"' :: rest => parts? rest
  | _ => none

variable {name words rest : List Char}

theorem takeWhile_name (hname : IsName name) (hrest : ∀ c ∈ rest.head?, isNamePart c = false) :
    (name ++ rest).takeWhile isNamePart = name ∧ (name ++ rest).dropWhile isNamePart = rest := by
  have hall := List.all_eq_true.mp hname.2
  rw [List.takeWhile_append_of_pos hall, List.dropWhile_append_of_pos hall]
  cases rest <;> simp_all

theorem parts?_braces (hname : IsName name) :
    parts? ('$' :: '{' :: (name ++ '}' :: rest)) = (parts? rest).map (.reference name :: ·) := by
  have hclose : ∀ c ∈ ('}' :: rest).head?, isNamePart c = false := by simp; decide
  obtain ⟨htake, hdrop⟩ := takeWhile_name hname hclose
  rw [parts?, htake, hdrop]
  simp [hname.1]

theorem parts?_name (hname : IsName name) (hrest : ∀ c ∈ rest.head?, isNamePart c = false) :
    parts? ('$' :: (name ++ rest)) = (parts? rest).map (.reference name :: ·) := by
  obtain ⟨htake, hdrop⟩ := takeWhile_name hname hrest
  rw [parts?, htake, hdrop]
  · simp [hname.1]
  · intro inner heq
    obtain ⟨c, cs, rfl⟩ := List.exists_cons_of_ne_nil hname.1
    have hc : isNamePart c = true := List.all_eq_true.mp hname.2 c List.mem_cons_self
    rw [(List.cons.inj heq).1] at hc
    exact absurd hc (by decide)

theorem parts?_escaped (hwords : '\\' ∉ words ∧ '"' ∉ words) :
    parts? ((words.flatMap fun c => if c = '$' then ['\\', '$'] else [c]) ++ rest) =
      (parts? rest).map (words.foldr put) := by
  induction words with
  | nil => simp
  | cons c words ih =>
    simp only [List.mem_cons, not_or] at hwords
    rw [List.flatMap_cons, List.append_assoc]
    by_cases hdollar : c = '$'
    · simp [hdollar, parts?, ih ⟨hwords.1.2, hwords.2.2⟩, Function.comp_def]
    · rw [if_neg hdollar, List.singleton_append, parts?, ih ⟨hwords.1.2, hwords.2.2⟩]
      · simp [Function.comp_def]
      all_goals simp_all [eq_comm]

/-- A text is read as one part if no other text follows. -/
theorem foldr_put (hwords : words ≠ []) {parts : List TemplatePart}
    (hparts : ∀ other, parts.head? ≠ some (.text other)) :
    words.foldr put parts = .text words :: parts := by
  induction words with
  | nil => contradiction
  | cons c words ih =>
    cases words with
    | nil =>
      rw [List.foldr_cons, List.foldr_nil, put]
      rintro other rest rfl
      exact hparts other rfl
    | cons d words => rw [List.foldr_cons, ih (List.cons_ne_nil d words), put]

end Template

open Template

/-- The part that a segment reads as; an empty text is none. -/
def templatePart? : Segment → Option TemplatePart
  | .text words => if words.isEmpty then none else some (.text words.toList)
  | .value (.name name _ _ _) => some (.reference (referenceText name).toList)
  | .value _ => none

/-- Segments that are names, or texts without quotes and escapes; `afterText` tells whether a text
stands before them, which no text follows. -/
inductive IsTemplate : (afterText : Bool) → List Segment → Prop where
  | nil (afterText : Bool) : IsTemplate afterText []
  | text {words : String} {rest : List Segment} (hwords : '\\' ∉ words.toList ∧ '"' ∉ words.toList)
    (hrest : IsTemplate true rest) : IsTemplate false (.text words :: rest)
  | name {name : String} {rest : List Segment} (afterText isLibrary isImplicit : Bool) (info : Info)
    (hname : IsName (referenceText name).toList) (hrest : IsTemplate false rest) :
    IsTemplate afterText (.value (.name name isLibrary isImplicit info) :: rest)

variable (registry : Registry) (layout : Layout) (level : Nat) {segments rest : List Segment}

def segmentChars (segments : List Segment) : List Char :=
  let texts := Document.renderAll layout (segmentDocuments registry segments) level
  (String.join texts).toList ++ ['"']

theorem renderAll_eq_map (documents : List Document) :
    Document.renderAll layout documents level = documents.map (·.render layout level) := by
  induction documents with
  | nil => rfl
  | cons d rest ih => rw [Document.renderAll, ih, List.map_cons]

theorem segmentChars_nil : segmentChars registry layout level [] = ['"'] := rfl

theorem segmentChars_text (words : String) :
    segmentChars registry layout level (.text words :: rest) =
      (words.toList.flatMap fun c => if c = '$' then ['\\', '$'] else [c]) ++
        segmentChars registry layout level rest := by
  simp [segmentChars, segmentDocuments, Document.renderAll, Document.render, escapeDollars]

theorem segmentChars_name (name : String) (isLibrary isImplicit : Bool) (info : Info) :
    segmentChars registry layout level (.value (.name name isLibrary isImplicit info) :: rest) =
      if continuesName rest then
        '$' :: '{' :: ((referenceText name).toList ++
          '}' :: segmentChars registry layout level rest)
      else '$' :: ((referenceText name).toList ++ segmentChars registry layout level rest) := by
  have hdocument :
      segmentDocuments registry (.value (.name name isLibrary isImplicit info) :: rest) =
        segmentDocument (.name name isLibrary isImplicit info) (.text (referenceText name)) rest ::
          segmentDocuments registry rest := rfl
  rw [segmentChars, hdocument, segmentDocument]
  split <;> simp [segmentChars, Document.renderAll, Document.render]

/-- What follows a name ends it, unless it starts with a text that continues it. -/
theorem head_segmentChars {afterText : Bool} (h : IsTemplate afterText segments)
    (hends : continuesName segments = false) :
    ∀ c ∈ (segmentChars registry layout level segments).head?, isNamePart c = false := by
  induction h with
  | nil => simp [segmentChars_nil]; decide
  | name => rw [segmentChars_name]; split <;> simp <;> decide
  | @text words rest hwords hrest ih =>
    rw [segmentChars_text]
    cases hchars : words.toList with
    | nil =>
      -- An empty text is followed by a name or nothing.
      exact ih (by cases hrest <;> rfl)
    | cons c cs =>
      by_cases hdollar : c = '$'
      · simp [hdollar]; decide
      · simpa [hdollar, continuesName, hchars, isNamePart] using hends

theorem parts?_segmentChars {afterText : Bool} (h : IsTemplate afterText segments) :
    parts? (segmentChars registry layout level segments) =
      some (segments.filterMap templatePart?) := by
  induction h with
  | nil => simp [segmentChars_nil, parts?]
  | @text words rest hwords hrest ih =>
    rw [segmentChars_text, parts?_escaped hwords, ih, List.filterMap_cons, templatePart?]
    by_cases hempty : words = ""
    · simp [hempty]
    -- What follows a text is a name, so that no two texts run into each other.
    · have hlast : ∀ other, (rest.filterMap templatePart?).head? ≠ some (.text other) := by
        cases hrest <;> simp [templatePart?]
      simp [hempty, foldr_put _ hlast]
  | name _ isLibrary isImplicit info hname hrest ih =>
    rw [segmentChars_name]
    split
    next => rw [parts?_braces hname, ih]; rfl
    next hends =>
      -- Without braces the name must end where it does: no letter of a name comes next.
      have hhead := head_segmentChars registry layout level hrest (by simpa using hends)
      rw [parts?_name hname hhead, ih]
      rfl

/-- A template reads as the segments it was written from. -/
theorem read?_interpolation (h : IsTemplate false segments) (info : Info) (role : Role) :
    read? ((exprDocument registry role (.interpolation segments info)).render layout level) =
      some (segments.filterMap templatePart?) := by
  have hdocument : exprDocument registry role (.interpolation segments info) =
      .cat ([.text "\""] ++ segmentDocuments registry segments ++ [.text "\""]) := rfl
  have hparts := parts?_segmentChars registry layout level h
  simpa [hdocument, read?, Document.render, renderAll_eq_map, segmentChars] using hparts

/-- A text with a dollar sign, and a name that the text after it would continue. -/
def priceTag : List Segment :=
  [.text "$", .value (.name "self" false false {}), .value (.name "n" false false {}), .text "_a"]

theorem read?_interpolation_priceTag :
    read? ((exprDocument {} .value (.interpolation priceTag {})).render {} 0) =
      some [.text ['$'], .reference "this".toList, .reference ['n'], .text "_a".toList] := by
  have h : IsTemplate false priceTag :=
    .text (by decide) <| .name true false false {} ⟨by decide, by decide⟩ <|
      .name false false false {} ⟨by decide, by decide⟩ <| .text (by decide) (.nil true)
  exact read?_interpolation {} {} 0 h {} .value

end Ferry.Target
