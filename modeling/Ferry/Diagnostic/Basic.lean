/-
  Ferry.Diagnostic.Basic

  Diagnostics: a message with its severity, code, place and advice. A problem with one node never
  stops the work; it is kept as a diagnostic inside the tree or in a list beside it.
-/
import Ferry.Diagnostic.Code
import Ferry.Text.Affix

namespace Ferry

/-- A half-open range of byte offsets in a source text. -/
structure Span where
  start : Nat
  stop : Nat
deriving DecidableEq, Repr

namespace Span

/-- The range that starts at an offset and has a length. -/
def ofLength (offset length : Nat) : Span :=
  ⟨offset, offset + length⟩

def length (span : Span) : Nat :=
  span.stop - span.start

/-- The least range that holds both. -/
def cover (a b : Span) : Span :=
  ⟨min a.start b.start, max a.stop b.stop⟩

end Span

structure Diagnostic where
  severity : Severity
  code : Option Code := none
  message : String
  /-- Where the offending node stands, when known. -/
  span : Option Span := none
  /-- The offending subtree, written out. -/
  snapshot : Option String := none
  suggestion : Option String := none
deriving DecidableEq, Repr

namespace Diagnostic

def error (message : String) : Diagnostic :=
  { severity := .error, message }

def warning (message : String) : Diagnostic :=
  { severity := .warning, message }

/-- A diagnostic whose severity and advice follow its code. -/
def ofCode (code : Code) (message : String) : Diagnostic :=
  { severity := code.severity, code := some code, message, suggestion := code.suggestion }

def placed (diagnostic : Diagnostic) (span : Option Span) : Diagnostic :=
  { diagnostic with span }

def isError (diagnostic : Diagnostic) : Bool :=
  diagnostic.severity == .error

/-- One line: the code, or the severity without one, and the message. -/
def summary (diagnostic : Diagnostic) : String :=
  match diagnostic.code with
  | some code => code.text ++ ": " ++ diagnostic.message
  | none => diagnostic.severity.text ++ ": " ++ diagnostic.message

/-- Whether the line of some diagnostic begins with a text, such as a code. -/
def anyStarts (start : String) (diagnostics : List Diagnostic) : Bool :=
  diagnostics.any fun diagnostic => Text.startsWith start diagnostic.summary

end Diagnostic

/-! ## Collections of diagnostics -/

/-- Diagnostics in the order of reporting, with running counts by severity. -/
structure Collector where
  diagnostics : List Diagnostic := []
  errors : Nat := 0
  warnings : Nat := 0

namespace Collector

def empty : Collector := {}

def report (collector : Collector) (diagnostic : Diagnostic) : Collector where
  diagnostics := collector.diagnostics ++ [diagnostic]
  errors := collector.errors + if diagnostic.isError then 1 else 0
  warnings := collector.warnings + if diagnostic.isError then 0 else 1

def extend (collector : Collector) (diagnostics : List Diagnostic) : Collector :=
  diagnostics.foldl report collector

def hasErrors (collector : Collector) : Bool :=
  0 < collector.errors

end Collector

end Ferry
