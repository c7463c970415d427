/-
  Ferry.Text.Lines

  The lines of a text. A line ends at a line feed, which may follow a carriage return; what comes
  after the last line feed is a line of its own only when it is not empty.
-/
namespace Ferry.Text

/-- The stretches between line feeds, the last one included even when it is empty. -/
def splitLines : List Char → List Char × List (List Char)
  | [] => ([], [])
  | c :: cs =>
    let (line, rest) := splitLines cs
    if c = '\n' then ([], line :: rest) else (c :: line, rest)

def dropReturn (line : List Char) : List Char :=
  match line.reverse with
  | '\r' :: rest => rest.reverse
  | _ => line

/-- Ends the list of stretches: every stretch before the last was closed by a line feed, and the
last one is a line only when something stands in it. -/
def closeLines (line : List Char) : List (List Char) → List (List Char)
  | [] => if line.isEmpty then [] else [line]
  | next :: rest => dropReturn line :: closeLines next rest

/-- The lines of the text, without their ends. -/
def lines (cs : List Char) : List (List Char) :=
  closeLines (splitLines cs).1 (splitLines cs).2

def linesOf (text : String) : List String :=
  (lines text.toList).map String.ofList

end Ferry.Text
