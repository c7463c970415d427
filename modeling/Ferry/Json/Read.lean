/-
  Ferry.Json.Read

  Readers of JSON texts. Nesting is limited: the bracket that would be the 128th inside another is
  refused. A record may be given by its fields or by their values in order; fields that it does not
  have are skipped.
-/
import Ferry.Json.Scan

namespace Ferry.Json

/-- How many brackets may stand open, plus one. -/
def depthLimit : Nat := 128

/-- Opens a bracket when some are left. -/
def enter (remaining : Nat) : Except Fault Nat :=
  if remaining ≤ 1 then .error .grammar else .ok (remaining - 1)

/-- Meets the fault after the last item, if there is one. -/
def meet (fault : Option Fault) : Except Fault Unit :=
  fault.elim (.ok ()) .error

/-! ## Any value -/

mutual

def readValue (remaining : Nat) : Scan → Except Fault Value
  | .null => .ok .null
  | .bool value => .ok (.bool value)
  | .number value => value.map .number
  | .string text => text.map .string
  | .array items fault => do
    let remaining ← enter remaining
    let items ← readItems remaining items
    meet fault
    return .array items
  | .object fields fault => do
    let remaining ← enter remaining
    let fields ← readFields remaining fields
    meet fault
    return .object fields
  | .broken _ read _ => .error read

def readItems (remaining : Nat) : List Scan → Except Fault (List Value)
  | [] => .ok []
  | item :: rest => do
    let item ← readValue remaining item
    let rest ← readItems remaining rest
    return item :: rest

def readFields (remaining : Nat) :
    List (Except Fault String × Scan) → Except Fault (List (String × Value))
  | [] => .ok []
  | (name, value) :: rest => do
    let name ← name
    let value ← readValue remaining value
    let rest ← readFields remaining rest
    return (name, value) :: rest

end

/-- Reads a whole text; nothing but white space may follow the value. -/
def readText {α : Type} (reader : Scan → Except Fault α) (text : String) : Except Fault α := do
  let (value, isWhole) := scan text
  let result ← reader value
  if isWhole then return result else throw .grammar

def parse (text : String) : Except Fault Value :=
  readText (readValue depthLimit) text

/-! ## Values of a given shape -/

/-- What is wrong with a value of another shape than asked for; its own faults come first. -/
def mismatch : Scan → Fault
  | .number (.error fault) => fault
  | .string (.error fault) => fault
  | .broken _ read _ => read
  | _ => .shape

/-- Reads a natural number below `2 ^ 32`. -/
def natural32 : Scan → Except Fault Nat
  | .number (.ok (.whole value)) =>
    if 0 ≤ value ∧ value < 4294967296 then .ok value.toNat else .error .shape
  | value => .error (mismatch value)

def string : Scan → Except Fault String
  | .string text => text
  | value => .error (mismatch value)

def optional {α : Type} (reader : Scan → Except Fault α) : Scan → Except Fault (Option α)
  | .null => .ok none
  | value => (reader value).map some

def list {α : Type} (reader : Nat → Scan → Except Fault α) (remaining : Nat) :
    Scan → Except Fault (List α)
  | .array items fault => do
    let remaining ← enter remaining
    let items ← items.mapM (reader remaining)
    meet fault
    return items
  | value => .error (mismatch value)

/-- Reads one of several names, alone or as the only field of an object, with the value `null`. -/
def variant {α : Type} (named : String → Option α) (remaining : Nat) : Scan → Except Fault α
  | .string text => do
    match named (← text) with
    | some result => return result
    | none => throw .shape
  | .object fields fault => do
    let _ ← enter remaining
    match fields with
    | [] => throw (fault.getD .grammar)
    | (name, value) :: rest =>
      match named (← name) with
      | none => throw .shape
      | some result =>
        match value with
        | .null =>
          if rest.isEmpty then
            meet fault
            return result
          else throw .grammar
        | value => throw (mismatch value)
  | .broken (some '"') read _ => .error read
  | .broken none read _ => .error read
  | _ => .error .grammar

/-! ## Records -/

/-- A record under construction: how a named field is taken, and which names there are, in the order
of the fields. -/
structure RecordReader (δ : Type) where
  start : δ
  names : List String
  has : δ → String → Bool
  take : Nat → δ → String → Scan → Except Fault δ

namespace RecordReader

variable {δ : Type}

/-- Takes one field; a repeated one is refused, an unknown one skipped. -/
def field (reader : RecordReader δ) (remaining : Nat) (draft : δ) (name : String) (value : Scan) :
    Except Fault δ :=
  if reader.names.contains name then
    if reader.has draft name then .error .shape else reader.take remaining draft name value
  else do
    value.skip
    return draft

/-- Takes fields in order. -/
def fields (reader : RecordReader δ) (remaining : Nat) :
    δ → List (Except Fault String × Scan) → Except Fault δ
  | draft, [] => .ok draft
  | draft, (name, value) :: rest => do
    let draft ← reader.field remaining draft (← name) value
    reader.fields remaining draft rest

/-- Takes values in the order of the names. -/
def items (reader : RecordReader δ) (remaining : Nat) :
    δ → List String → List Scan → Except Fault (δ × List Scan)
  | draft, name :: names, value :: rest => do
    let draft ← reader.take remaining draft name value
    reader.items remaining draft names rest
  | draft, _, rest => .ok (draft, rest)

/-- Reads a record given either way; `finish` says what is missing. -/
def read {α : Type} (reader : RecordReader δ) (finish : δ → Except Fault α) (remaining : Nat) :
    Scan → Except Fault α
  | .object fields fault => do
    let remaining ← enter remaining
    let draft ← reader.fields remaining reader.start fields
    meet fault
    finish draft
  | .array items fault => do
    let remaining ← enter remaining
    let (draft, rest) ← reader.items remaining reader.start reader.names items
    if items.length < reader.names.length then
      meet fault
      finish draft
    else
      let result ← finish draft
      if rest.isEmpty then
        meet fault
        return result
      else throw .grammar
  | value => .error (mismatch value)

end RecordReader

def required {α : Type} (value : Option α) : Except Fault α :=
  match value with
  | some value => .ok value
  | none => .error .shape

end Ferry.Json
