/-
  Ferry.Text.Affix

  Taking a known start or end off a text, and looking for a text inside another.
-/
namespace Ferry.Text

/-- What follows `start`, when the text begins with it. -/
def dropStart? : (start text : List Char) → Option (List Char)
  | [], text => some text
  | _ :: _, [] => none
  | s :: start, c :: text => if s = c then dropStart? start text else none

/-- What precedes `finish`, when the text ends with it. -/
def dropEnd? (finish text : List Char) : Option (List Char) :=
  (dropStart? finish.reverse text.reverse).map List.reverse

def stripStart? (start text : String) : Option String :=
  (dropStart? start.toList text.toList).map String.ofList

def stripEnd? (finish text : String) : Option String :=
  (dropEnd? finish.toList text.toList).map String.ofList

def startsWith (start text : String) : Bool :=
  start.toList.isPrefixOf text.toList

def endsWith (finish text : String) : Bool :=
  finish.toList.isSuffixOf text.toList

/-- Whether `part` stands somewhere in the text. -/
def occursIn (part : List Char) : List Char → Bool
  | [] => part.isEmpty
  | c :: cs => part.isPrefixOf (c :: cs) || occursIn part cs

def contains (part text : String) : Bool :=
  occursIn part.toList text.toList

/-- Number of places, counted from the left without overlap, where `part` stands in the text; the
first argument is how many characters of the last place found are still to be passed. -/
def countFrom (part : List Char) : Nat → List Char → Nat
  | _, [] => 0
  | 0, c :: cs =>
    if part.isPrefixOf (c :: cs) then 1 + countFrom part (part.length - 1) cs
    else countFrom part 0 cs
  | passing + 1, _ :: cs => countFrom part passing cs

/-- How often a nonempty `part` stands in the text, without overlap. -/
def count (part text : String) : Nat :=
  countFrom part.toList 0 text.toList

theorem eq_append_of_dropStart? {start text rest : List Char}
    (h : dropStart? start text = some rest) : text = start ++ rest := by
  induction start generalizing text with
  | nil => simpa [dropStart?] using h
  | cons s start ih =>
    cases text with
    | nil => simp [dropStart?] at h
    | cons c text =>
      simp only [dropStart?] at h
      split at h
      next hc => rw [hc, ih h, List.cons_append]
      next => simp at h

end Ferry.Text
