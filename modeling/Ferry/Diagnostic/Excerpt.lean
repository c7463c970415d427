/-
  Ferry.Diagnostic.Excerpt

  A source text with a range in it, so that the place can be quoted. Ranges may run past the text;
  every question about them is answered for the range cut to the text. Offsets count bytes, and an
  offset inside a character has no text before it.
-/
import Ferry.Diagnostic.Basic
import Ferry.Text.Lines

namespace Ferry

namespace Text

def byteLength (cs : List Char) : Nat :=
  (cs.map Char.utf8Size).foldr (· + ·) 0

/-- Cuts a text at a byte offset; there is no cut inside a character or past the end. -/
def splitAtByte? : Nat → List Char → Option (List Char × List Char)
  | 0, cs => some ([], cs)
  | _ + 1, [] => none
  | n + 1, c :: cs =>
    if c.utf8Size ≤ n + 1 then
      (splitAtByte? (n + 1 - c.utf8Size) cs).map fun (before, after) => (c :: before, after)
    else none

/-- The text from one byte offset to another, when both of them cut the text in this order. -/
def between? (start stop : Nat) (cs : List Char) : Option (List Char) :=
  if start ≤ stop then
    (splitAtByte? start cs).bind fun cut => (splitAtByte? (stop - start) cut.2).map Prod.fst
  else none

/-- The bytes up to and including the last line feed. -/
def bytesThroughLastFeed (cs : List Char) : Nat :=
  byteLength (cs.reverse.dropWhile (· ≠ '\n')).reverse

end Text

/-- A source text and the range of interest in it. -/
structure Excerpt where
  source : String
  span : Span
  filename : Option String := none
deriving DecidableEq, Repr

namespace Excerpt

open Text

/-- The start of the range, cut to the text. -/
def start (excerpt : Excerpt) : Nat :=
  min excerpt.span.start (byteLength excerpt.source.toList)

/-- The end of the range, cut to the text. -/
def stop (excerpt : Excerpt) : Nat :=
  min (max excerpt.span.stop excerpt.start) (byteLength excerpt.source.toList)

/-- The text before the range; none of it when the range starts inside a character. -/
def before (excerpt : Excerpt) : List Char :=
  match splitAtByte? excerpt.start excerpt.source.toList with
  | some (before, _) => before
  | none => []

/-- The line of the start, counted from 1. -/
def line (excerpt : Excerpt) : Nat :=
  excerpt.before.count '\n' + 1

/-- Where the line of the start begins. -/
def lineStart (excerpt : Excerpt) : Nat :=
  bytesThroughLastFeed excerpt.before

/-- The byte column of the start in its line, counted from 1. -/
def column (excerpt : Excerpt) : Nat :=
  excerpt.start - excerpt.lineStart + 1

/-- The first line feed from the end of the range on, or else the end of the text. -/
def lineStop (excerpt : Excerpt) : Nat :=
  match splitAtByte? excerpt.stop excerpt.source.toList with
  | some (_, after) => excerpt.stop + byteLength (after.takeWhile (· ≠ '\n'))
  | none => byteLength excerpt.source.toList

/-- The lines that the range touches, from the first one's beginning to the last one's end. -/
def touched? (excerpt : Excerpt) : Option (List Char) :=
  between? excerpt.lineStart excerpt.lineStop excerpt.source.toList

def touchedLines (excerpt : Excerpt) : String :=
  String.ofList (excerpt.touched?.getD [])

/-- Lines are numbered below this number. -/
def lineLimit : Nat := 18446744073709551616

/-- Whether the lines up to `window` after the start's line cannot be numbered. -/
def isBeyondLimit (excerpt : Excerpt) (window : Nat) : Bool :=
  decide (lineLimit ≤ excerpt.line + window)

/-- The lines before the first one that is at most `window` away from the start's line. -/
def skipped (excerpt : Excerpt) (window : Nat) : Nat :=
  excerpt.line - 1 - window

/-- The lines at most `window` away from the start's line, when they are lines of the text. -/
def quoted? (excerpt : Excerpt) (window : Nat) : Option (List String) :=
  let lines := linesOf excerpt.source
  let stop := min (excerpt.line + window) lines.length
  if excerpt.skipped window ≤ stop then some ((lines.take stop).drop (excerpt.skipped window))
  else none

/-- The numbered lines at most `window` away from the start's line. -/
def surroundings (excerpt : Excerpt) (window : Nat) : List (Nat × String) :=
  (((excerpt.quoted? window).getD []).zipIdx (excerpt.skipped window + 1)).map Prod.swap

end Excerpt

end Ferry
