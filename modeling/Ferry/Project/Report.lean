/-
  Ferry.Project.Report

  What is said about a run: diagnostics with the source lines they speak about, one line of summary,
  and a report to be read by programs.
-/
import Ferry.Diagnostic.Format
import Ferry.Json.Pretty
import Ferry.Project.Run

namespace Ferry.Project

/-! ## Diagnostics -/

/-- What of a path follows a directory it lies in, or the whole path. -/
def relativePath (location : Option String) (path : String) : String :=
  match location with
  | none => path
  | some location =>
    let directory := Path.components location
    let components := Path.components path
    if directory.isPrefixOf components then
      (components.drop directory.length).foldl (fun text component =>
        match component with
        | .normal name => Path.join text name
        | .parent => Path.join text ".."
        | .current => Path.join text "."
        | .root => Path.join text "/") ""
    else path

/-- A diagnostic about a file: with the source text at hand its lines are shown, else the file is
named in the message. -/
def reportOn (filename : String) (source : Option String) (diagnostic : Diagnostic) : Report :=
  match source, diagnostic.span with
  | some source, some span => { diagnostic, excerpt := some { source, span, filename } }
  | _, _ => { diagnostic := { diagnostic with message := filename ++ ": " ++ diagnostic.message } }

section

variable {m : Type → Type} [Monad m] (fs : FileSystem m)

def showOutcome (config : DisplayConfig) (outcome : Outcome) : m Unit := do
  let diagnostics := outcome.collector.diagnostics
  if !diagnostics.isEmpty then
    let filename := relativePath (← fs.location) outcome.input.source
    let source := (← fs.read outcome.input.source).toOption
    let text := Report.renderAll config (diagnostics.map (reportOn filename source))
    if !text.isEmpty then fs.printError (text ++ "\n")

/-- A word that starts a line about a failure. -/
def alarm (word : String) : String :=
  Ink.bold (Ink.red word)

/-- Prints all diagnostics of a run and the files that were given up. -/
def showResult (config : DisplayConfig) (result : RunResult) : m Unit := do
  result.outcomes.forM (showOutcome fs config)
  result.failures.forM fun failure =>
    fs.printError (alarm "fatal:" ++ " " ++ failure.message ++ "\n")

end

/-! ## Summaries -/

def counted (n : Nat) (word : String) : String :=
  s!"{n} {word}" ++ if n = 1 then "" else "s"

def RunResult.summary (result : RunResult) : String :=
  "translated " ++ counted result.outcomes.length "file" ++ ": " ++
    counted result.errorCount "error" ++ ", " ++ counted result.warningCount "warning" ++
    if result.failures.isEmpty then "" else s!", {result.failures.length} skipped"

def diagnosticEntry (diagnostic : Diagnostic) : Json.Value :=
  .object
    [("severity", .string (if diagnostic.isError then "Error" else "Warning")),
     ("code", .text? (diagnostic.code.map Code.text)),
     ("message", .string diagnostic.message),
     ("range", .orNull (fun span => .array [.nat span.start, .nat span.stop]) diagnostic.span),
     ("snapshot", .text? diagnostic.snapshot),
     ("suggestion", .text? diagnostic.suggestion)]

def outcomeEntry (outcome : Outcome) (destination : Option String) : Json.Value :=
  .object
    [("source", .string outcome.output.source),
     ("destination", .text? destination),
     ("markers", .nat outcome.output.markerCount),
     ("diagnostics", .array (outcome.collector.diagnostics.map diagnosticEntry))]

def failureEntry (failure : FileError) : Json.Value :=
  .object [("path", .string failure.path), ("message", .string failure.message)]

def RunResult.report (result : RunResult) (destinations : List (Option String)) : Json.Value :=
  .object
    [("files", .array (List.zipWith outcomeEntry result.outcomes destinations)),
     ("failures", .array (result.failures.map failureEntry))]

end Ferry.Project
