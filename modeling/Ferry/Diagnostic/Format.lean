/-
  Ferry.Diagnostic.Format

  Diagnostics as they are shown on a terminal: a coloured header, the message, the place with the
  source lines around it when the source is at hand, the offending tree, and the advice.
-/
import Ferry.Diagnostic.Excerpt

namespace Ferry

/-! ## Colour -/

namespace Ink

/-- The text between two terminal control sequences. -/
def style (on off : Nat) (text : String) : String :=
  s!"\x1b[{on}m" ++ text ++ s!"\x1b[{off}m"

def bold : String → String := style 1 0
def dimmed : String → String := style 2 0
def red : String → String := style 31 39
def green : String → String := style 32 39
def yellow : String → String := style 33 39
def blue : String → String := style 34 39
def cyan : String → String := style 36 39
def white : String → String := style 37 39
def brightYellow : String → String := style 93 39

end Ink

/-! ## What is shown -/

/-- What the terminal shows of a diagnostic. -/
structure DisplayConfig where
  /-- Quote the source, when it is attached. -/
  showContext : Bool := true
  /-- Lines quoted on each side of the offending one. -/
  contextLines : Nat := 2
  showSnapshots : Bool := false
  /-- Less serious diagnostics are left out. -/
  threshold : Severity := .warning
  suppressed : List Code := []

namespace DisplayConfig

/-- Errors only, one header and message each. -/
def minimal : DisplayConfig :=
  { showContext := false, contextLines := 0, threshold := .error }

/-- More lines around the place, and the offending tree. -/
def verbose : DisplayConfig :=
  { contextLines := 5, showSnapshots := true }

def shows (config : DisplayConfig) (diagnostic : Diagnostic) : Bool :=
  diagnostic.severity.reaches config.threshold &&
    match diagnostic.code with
    | some code => !config.suppressed.contains code
    | none => true

end DisplayConfig

/-- A diagnostic with the source text it speaks about, when that is at hand. -/
structure Report where
  diagnostic : Diagnostic
  excerpt : Option Excerpt := none

/-! ## Layout -/

namespace Report

/-- A number set to the right in five columns. -/
def paddedNumber (n : Nat) : String :=
  let digits := toString n
  String.ofList (List.replicate (5 - digits.length) ' ') ++ digits

def rule : String :=
  "  " ++ Ink.blue "|" ++ "\n"

/-- A quoted source line behind its number. -/
def quotedLine (number : Nat) (text : String) : String :=
  "  |" ++ paddedNumber number ++ " | " ++ text ++ "\n"

/-- The severity, and the family and code when there is one. -/
def header (diagnostic : Diagnostic) : String :=
  let word :=
    match diagnostic.severity with
    | .error => Ink.red (Ink.bold "Error")
    | .warning => Ink.yellow (Ink.bold "Warning")
  match diagnostic.code with
  | some code => word ++ ": " ++ Ink.bold code.family ++ " [" ++ Ink.dimmed code.text ++ "]\n"
  | none => word ++ "\n"

/-- The place with its source lines; the offending line is underlined for the length of the
range. -/
def place (config : DisplayConfig) (excerpt : Excerpt) : String :=
  let location :=
    match excerpt.filename with
    | some filename => s!"{filename}:{excerpt.line}:{excerpt.column}"
    | none => s!"line {excerpt.line}:{excerpt.column}"
  let lines :=
    if config.contextLines = 0 then quotedLine excerpt.line excerpt.touchedLines
    else String.join ((excerpt.surroundings config.contextLines).map fun (number, text) =>
      if number = excerpt.line then
        quotedLine number text ++ "  |      | " ++
          String.ofList (List.replicate (excerpt.column - 1) ' ') ++
          Ink.bold (Ink.brightYellow
            (String.ofList (List.replicate (max excerpt.span.length 1) '^'))) ++ "\n"
      else quotedLine number (Ink.dimmed text))
  rule ++ "  +--> " ++ Ink.bold (Ink.cyan "Location") ++ ": " ++ location ++ "\n" ++ rule ++
    lines ++ rule

/-- One diagnostic; the text ends with a line feed. -/
def render (config : DisplayConfig) (report : Report) : String :=
  let diagnostic := report.diagnostic
  let location :=
    match (if config.showContext then report.excerpt else none), diagnostic.span with
    | some excerpt, _ => place config excerpt
    | none, some span =>
      "  +--> " ++ Ink.bold (Ink.cyan "Location") ++ s!": bytes {span.start}..{span.stop}\n"
    | none, none => ""
  let snapshot :=
    match (if config.showSnapshots then diagnostic.snapshot else none) with
    | some snapshot =>
      "  = " ++ Ink.bold (Ink.cyan "snapshot") ++ ":\n" ++
        String.join ((Text.linesOf snapshot).map fun line => "  |   " ++ Ink.dimmed line ++ "\n")
    | none => ""
  let advice :=
    match diagnostic.suggestion with
    | some suggestion => "  +--> " ++ Ink.bold (Ink.green "Suggestion") ++ ": " ++
      suggestion ++ "\n"
    | none => ""
  header diagnostic ++ rule ++
    "  " ++ Ink.blue "|" ++ " " ++ Ink.bold (Ink.white "Message") ++ ": " ++
    diagnostic.message ++ "\n" ++ location ++ snapshot ++ advice

/-- Whether a diagnostic is shown with more source lines than can be numbered. -/
def isBeyondLimit (config : DisplayConfig) (report : Report) : Bool :=
  config.shows report.diagnostic && config.showContext && config.contextLines != 0 &&
    report.excerpt.any (·.isBeyondLimit config.contextLines)

/-- Every diagnostic that the configuration lets through, with blank lines between them. -/
def renderAll (config : DisplayConfig) (reports : List Report) : String :=
  "\n".intercalate ((reports.filter (config.shows ·.diagnostic)).map (render config))

end Report

end Ferry
