/-
  Ferry.Source.TableReader

  Reading tables from JSON.
-/
import Ferry.Json.Read
import Ferry.Source.Table

namespace Ferry.Source

open Json

/-! ## Types -/

structure TypeDraft where
  offset : Option Nat := none
  length : Option Nat := none
  ty : Option String := none

def typeReader : RecordReader TypeDraft where
  start := {}
  names := ["offset", "length", "type"]
  has draft
    | "offset" => draft.offset.isSome
    | "length" => draft.length.isSome
    | _ => draft.ty.isSome
  take _ draft name value :=
    match name with
    | "offset" => do return { draft with offset := some (← natural32 value) }
    | "length" => do return { draft with length := some (← natural32 value) }
    | _ => do return { draft with ty := some (← string value) }

/-- Reads a type entry; all its fields must be there. -/
def readTypeEntry : Nat → Scan → Except Fault TypeEntry :=
  typeReader.read fun draft => do
    return { offset := ← required draft.offset, length := ← required draft.length,
             ty := ← required draft.ty }

def TypeTable.ofJson (text : String) : Except Fault TypeTable :=
  (readText (list readTypeEntry depthLimit) text).map TypeTable.ofList

/-! ## Symbols -/

structure SymbolDraft where
  offset : Option Nat := none
  origin : Option String := none
  declaration : Option (Option String) := none

def symbolReader : RecordReader SymbolDraft where
  start := {}
  names := ["offset", "origin", "declaration"]
  has draft
    | "offset" => draft.offset.isSome
    | "origin" => draft.origin.isSome
    | _ => draft.declaration.isSome
  take _ draft name value :=
    match name with
    | "offset" => do return { draft with offset := some (← natural32 value) }
    | "origin" => do return { draft with origin := some (← string value) }
    | _ => do return { draft with declaration := some (← optional string value) }

/-- Reads a symbol entry; the text of the declaration may be missing. -/
def readSymbolEntry : Nat → Scan → Except Fault SymbolEntry :=
  symbolReader.read fun draft => do
    return { offset := ← required draft.offset, origin := ← required draft.origin,
             declaration := draft.declaration.getD none }

def SymbolTable.ofJson (text : String) : Except Fault SymbolTable :=
  (readText (list readSymbolEntry depthLimit) text).map SymbolTable.ofList

/-! ## Directives -/

def DirectiveKind.ofName? : String → Option DirectiveKind
  | "ignore" => some .ignore
  | "literal" => some .literal
  | "pure" => some .pureFunction
  | "output" => some .output
  | _ => none

structure DirectiveDraft where
  offset : Option Nat := none
  kind : Option DirectiveKind := none
  payload : Option (Option String) := none

def directiveReader : RecordReader DirectiveDraft where
  start := {}
  names := ["offset", "kind", "payload"]
  has draft
    | "offset" => draft.offset.isSome
    | "kind" => draft.kind.isSome
    | _ => draft.payload.isSome
  take remaining draft name value :=
    match name with
    | "offset" => do return { draft with offset := some (← natural32 value) }
    | "kind" => do
      return { draft with kind := some (← variant DirectiveKind.ofName? remaining value) }
    | _ => do return { draft with payload := some (← optional string value) }

/-- Reads a directive; the payload may be missing. -/
def readDirective : Nat → Scan → Except Fault Directive :=
  directiveReader.read fun draft => do
    return { offset := ← required draft.offset, kind := ← required draft.kind,
             payload := draft.payload.getD none }

def DirectiveTable.ofJson (text : String) : Except Fault DirectiveTable :=
  (readText (list readDirective depthLimit) text).map DirectiveTable.ofList

end Ferry.Source
