/-
  Ferry.Text.Nesting

  Cutting a text at a separator wherever the separator is not nested in brackets. Round, square and
  angle brackets nest; the `>` of an arrow `->` closes nothing.
-/
namespace Ferry.Text

/-- How the nesting depth changes at a character, given the one before it. -/
def nestingStep (previous c : Char) : Int :=
  if c = '(' ∨ c = '[' ∨ c = '<' then 1
  else if c = ')' ∨ c = ']' then -1
  else if c = '>' ∧ previous ≠ '-' then -1
  else 0

/-- The first part and the further ones, from a given depth and preceding character on. -/
def splitNested (separator : Char) : Int → Char → List Char → List Char × List (List Char)
  | _, _, [] => ([], [])
  | depth, previous, c :: cs =>
    if c = separator ∧ depth = 0 then
      let (part, parts) := splitNested separator depth c cs
      ([], part :: parts)
    else
      let (part, parts) := splitNested separator (depth + nestingStep previous c) c cs
      (c :: part, parts)

/-- The parts of the text between separators outside all brackets; there is always at least one. -/
def splitTopLevel (separator : Char) (cs : List Char) : List (List Char) :=
  let (part, parts) := splitNested separator 0 ' ' cs
  part :: parts

theorem length_splitNested_le (separator : Char) (cs : List Char) (depth : Int) (previous : Char) :
    (splitNested separator depth previous cs).1.length ≤ cs.length ∧
      ∀ part ∈ (splitNested separator depth previous cs).2, part.length ≤ cs.length := by
  induction cs generalizing depth previous with
  | nil => simp [splitNested]
  | cons c cs ih =>
    simp only [splitNested]
    split
    · have h := ih depth c
      refine ⟨Nat.zero_le _, fun part hp => ?_⟩
      rcases List.mem_cons.1 hp with rfl | hp
      · exact Nat.le_succ_of_le h.1
      · exact Nat.le_succ_of_le (h.2 part hp)
    · have h := ih (depth + nestingStep previous c) c
      exact ⟨Nat.succ_le_succ h.1, fun part hp => Nat.le_succ_of_le (h.2 part hp)⟩

theorem length_le_of_mem_splitTopLevel {separator : Char} {cs part : List Char}
    (h : part ∈ splitTopLevel separator cs) : part.length ≤ cs.length := by
  have hb := length_splitNested_le separator cs 0 ' '
  rcases List.mem_cons.1 h with rfl | h
  · exact hb.1
  · exact hb.2 part h

end Ferry.Text
