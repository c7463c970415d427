/-
  Ferry.Source.NodeReader

  Reading syntax trees from JSON. Only the kind of a node has to be given.
-/
import Ferry.Json.Read
import Ferry.Source.Node

namespace Ferry.Source

open Json

structure NodeDraft where
  kind : Option NodeKind := none
  offset : Option Nat := none
  length : Option Nat := none
  text : Option (Option String) := none
  role : Option (Option String) := none
  children : Option (List Node) := none

namespace NodeDraft

def names : List String := ["kind", "offset", "length", "text", "role", "children"]

def has (draft : NodeDraft) : String → Bool
  | "kind" => draft.kind.isSome
  | "offset" => draft.offset.isSome
  | "length" => draft.length.isSome
  | "text" => draft.text.isSome
  | "role" => draft.role.isSome
  | "children" => draft.children.isSome
  | _ => false

/-- Reads a field other than the children. -/
def take (remaining : Nat) (draft : NodeDraft) (name : String) (value : Scan) :
    Except Fault NodeDraft :=
  match name with
  | "kind" => do
    return { draft with kind := some (← variant (some ∘ NodeKind.ofName) remaining value) }
  | "offset" => do return { draft with offset := some (← natural32 value) }
  | "length" => do return { draft with length := some (← natural32 value) }
  | "text" => do return { draft with text := some (← optional string value) }
  | "role" => do return { draft with role := some (← optional string value) }
  | _ => do
    value.skip
    return draft

def finish (draft : NodeDraft) : Except Fault Node := do
  let kind ← required draft.kind
  return .node
    { kind, offset := draft.offset.getD 0, length := draft.length.getD 0,
      text := draft.text.getD none, role := draft.role.getD none }
    (draft.children.getD [])

end NodeDraft

mutual

def readNode (remaining : Nat) : Scan → Except Fault Node
  | .object fields fault => do
    let remaining ← enter remaining
    let draft ← readNodeFields remaining {} fields
    meet fault
    draft.finish
  | .array items fault => do
    let remaining ← enter remaining
    let draft ← readNodeItems remaining {} NodeDraft.names items
    if items.length < NodeDraft.names.length then
      meet fault
      draft.finish
    else
      let result ← draft.finish
      if items.length = NodeDraft.names.length then
        meet fault
        return result
      else throw .grammar
  | value => .error (mismatch value)

def readNodes (remaining : Nat) : List Scan → Except Fault (List Node)
  | [] => .ok []
  | value :: rest => do
    let first ← readNode remaining value
    let rest ← readNodes remaining rest
    return first :: rest

def readChildren (remaining : Nat) : Scan → Except Fault (List Node)
  | .array items fault => do
    let remaining ← enter remaining
    let nodes ← readNodes remaining items
    meet fault
    return nodes
  | value => .error (mismatch value)

def readNodeFields (remaining : Nat) (draft : NodeDraft) :
    List (Except Fault String × Scan) → Except Fault NodeDraft
  | [] => .ok draft
  | (name, value) :: rest => do
    let name ← name
    if draft.has name then throw .shape
    let draft ←
      if name = "children" then
        let nodes ← readChildren remaining value
        pure { draft with children := some nodes }
      else draft.take remaining name value
    readNodeFields remaining draft rest

/-- Reads the fields of a node given in order. -/
def readNodeItems (remaining : Nat) (draft : NodeDraft) :
    List String → List Scan → Except Fault NodeDraft
  | name :: names, value :: rest => do
    let draft ←
      if name = "children" then
        let nodes ← readChildren remaining value
        pure { draft with children := some nodes }
      else draft.take remaining name value
    readNodeItems remaining draft names rest
  | _, _ => .ok draft

end

def Node.ofJson (text : String) : Except Fault Node :=
  readText (readNode depthLimit) text

end Ferry.Source
