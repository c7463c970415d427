/-
  Ferry.Target.Document

  Documents: code whose words are fixed and whose line breaks are still open. A list in parentheses
  goes on one line if that line stays under the limit, otherwise each item gets its own; a lambda
  stays on one line under the same condition; a branch of one short statement stands without braces.
  A marker is left where a node could not be carried over. Rendering a document chooses the breaks
  from the layout settings and the level it stands at.
-/
import Ferry.Text.Blank
import Ferry.Text.Lines

namespace Ferry.Target

structure Layout where
  /-- Lines this long are broken where they can be. -/
  lineLimit : Nat := 100
  indentation : String := "    "

mutual

inductive Document where
  | text (words : String)
  /-- What is left where a node could not be carried over. -/
  | marker (message : String)
  | cat (parts : List Document)
  /-- The head, the items in parentheses, and the tail. -/
  | list (head : Document) (items : List Document) (tail : Document)
  /-- Rows one level deeper, between an opening and a closing brace. -/
  | block (opening : String) (rows : List Row)
  /-- A lambda of one value. -/
  | lambda (opening : String) (value : Document)
  /-- The body of a branch; one that `isShort` may stand without braces. -/
  | branch (isShort : Bool) (rows : List Row)

/-- A line of code of its own, some levels deeper than its surroundings. -/
structure Row where
  depth : Nat
  content : Document

end

namespace Layout

def indent (layout : Layout) (level : Nat) : String :=
  String.join (List.replicate level layout.indentation)

/-- A line of its own; one without text gets no indentation either. -/
def line (layout : Layout) (level : Nat) (text : String) : String :=
  if text.isEmpty then "\n" else layout.indent level ++ text ++ "\n"

/-- Whether the first line of a text stays under the limit. -/
def fits (layout : Layout) (level : Nat) (text : String) : Bool :=
  (layout.indent level).utf8ByteSize + ((Text.linesOf text).headD "").length <
    layout.lineLimit

end Layout

namespace Row

def blank : Row := ⟨0, .text ""⟩

/-- A line at the level of its surroundings. -/
def ofDocument (content : Document) : Row := ⟨0, content⟩

def ofText (words : String) : Row := ⟨0, .text words⟩

def ofMarker (message : String) : Row := ⟨0, .marker message⟩

end Row

namespace Document

/-- Documents one after the other with a separator between them. -/
def joinWith (separator : String) : List Document → List Document
  | [] => []
  | [d] => [d]
  | d :: rest => d :: text separator :: joinWith separator rest

def parenthesized (d : Document) : Document :=
  cat [text "(", d, text ")"]

mutual

def render (layout : Layout) : Document → Nat → String
  | .text words, _ => words
  | .marker message, _ => "<<Error: " ++ message ++ ">>"
  | .cat parts, level => String.join (renderAll layout parts level)
  | .list head items tail, level =>
    let before := render layout head level
    let after := render layout tail level
    let flat := before ++ "(" ++ ", ".intercalate (renderAll layout items level) ++ ")" ++ after
    if items.isEmpty || layout.fits level flat then flat
    else
      let inner := layout.indent (level + 1)
      before ++ "(\n" ++
        ",\n".intercalate ((renderAll layout items (level + 1)).map (inner ++ ·)) ++
        "\n" ++ layout.indent level ++ ")" ++ after
  | .block opening rows, level =>
    opening ++ "\n" ++ renderRows layout rows (level + 1) ++ layout.indent level ++ "\x7d"
  | .lambda opening value, level =>
    let flat := opening ++ " " ++ render layout value level ++ " \x7d"
    if !flat.toList.contains '\n' && layout.fits level flat then flat
    else
      opening ++ "\n" ++ layout.line (level + 1) (render layout value (level + 1)) ++
        layout.indent level ++ "\x7d"
  | .branch isShort rows, level =>
    let flat := if isShort then renderRows layout rows level else ""
    if (Text.linesOf flat).length = 1 then Text.trimmed flat
    else "\x7b\n" ++ renderRows layout rows (level + 1) ++ layout.indent level ++ "\x7d"

def renderAll (layout : Layout) : List Document → Nat → List String
  | [], _ => []
  | d :: rest, level => render layout d level :: renderAll layout rest level

def renderRows (layout : Layout) : List Row → Nat → String
  | [], _ => ""
  | ⟨depth, content⟩ :: rest, level =>
    layout.line (level + depth) (render layout content (level + depth)) ++
      renderRows layout rest level

end

end Document

end Ferry.Target
