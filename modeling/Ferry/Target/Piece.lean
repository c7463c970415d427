/-
  Ferry.Target.Piece

  Statements one after the other. Each statement is a piece; pieces become rows, with a blank line
  between two of them unless they go together. A guarded block takes the handlers right after it
  along; a handler without one is left as a marker.
-/
import Ferry.Target.Document

namespace Ferry.Target

/-- What decides whether two neighbours need a blank line between them. -/
inductive Family where
  | comment
  | declaration
  | assignment
  | attempt
  | handler
  | call
  | other
deriving DecidableEq

/-- Whether no blank line stands between a statement and the next. -/
def goTogether : Family → Family → Bool
  | .comment, .comment | .declaration, .declaration | .assignment, .assignment
  | .attempt, .handler | .handler, .handler | .call, .call => true
  | _, _ => false

/-- One statement, ready to be set among its neighbours. -/
inductive Piece where
  | plain (family : Family) (rows : List Row)
  /-- A guarded block and what is run after it in any case. -/
  | attempt (body : Document) (cleanup : Option Document)
  | handler (error : String) (body : Document)

/-- A guarded block with its handlers. Without any of them it is only run. -/
def attemptRow (body : Document) (handlers : List (String × Document)) (cleanup : Option Document) :
    Row :=
  if handlers.isEmpty && cleanup.isNone then .ofDocument (.cat [.text "run ", body])
  else .ofDocument <| .cat <|
    [.text "try ", body] ++
      (handlers.flatMap fun (error, body) => [.text (" catch (" ++ error ++ ") "), body]) ++
      cleanup.elim [] fun cleanup => [.text " finally ", cleanup]

/-- What is left of a handler that follows no guarded block. -/
def strayHandler : List Row :=
  [.ofMarker "catch without a preceding do"]

def Piece.rows : Piece → List Row
  | plain _ rows => rows
  | attempt body cleanup => [attemptRow body [] cleanup]
  | handler _ _ => strayHandler

/-- Rows that belong together, with the families at their two ends. -/
structure Paragraph where
  first : Family
  last : Family
  rows : List Row

/-- Paragraphs with the handlers in front of them that still wait for their block. -/
structure Gathered where
  waiting : List (String × Document) := []
  paragraphs : List Paragraph := []

namespace Gathered

/-- Gives up the waiting handlers: none of them has a block. -/
def settled (gathered : Gathered) : List Paragraph :=
  gathered.waiting.map (fun _ => ⟨.handler, .handler, strayHandler⟩) ++ gathered.paragraphs

/-- Puts a piece in front. -/
def step (piece : Piece) (gathered : Gathered) : Gathered :=
  match piece with
  | .plain family rows => ⟨[], ⟨family, family, rows⟩ :: gathered.settled⟩
  | .handler error body => ⟨(error, body) :: gathered.waiting, gathered.paragraphs⟩
  | .attempt body cleanup =>
    let last := if gathered.waiting.isEmpty then .attempt else .handler
    ⟨[], ⟨.attempt, last, [attemptRow body gathered.waiting cleanup]⟩ :: gathered.paragraphs⟩

end Gathered

def paragraphs (pieces : List Piece) : List Paragraph :=
  (pieces.foldr Gathered.step {}).settled

/-- The rows of paragraphs after one that ended with a given family. -/
def separated : Option Family → List Paragraph → List Row
  | _, [] => []
  | previous, ⟨first, last, rows⟩ :: rest =>
    if rows.isEmpty then separated previous rest
    else
      (if previous.any fun p => !goTogether p first then [Row.blank] else []) ++ rows ++
        separated (some last) rest

def assemble (pieces : List Piece) : List Row :=
  separated none (paragraphs pieces)

end Ferry.Target
