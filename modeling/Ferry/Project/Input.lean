/-
  Ferry.Project.Input

  Where the parts of one input lie. Next to a source file `shapes.swift` there are its syntax
  tree `shapes.ast.json`, which names the file in a run, and the side tables `shapes.types.json`,
  `shapes.symbols.json` and `shapes.directives.json`. Every side table may be missing and is empty
  then.
-/
import Ferry.Index.Gate
import Ferry.Path
import Ferry.Project.FileSystem
import Ferry.Source.NodeReader
import Ferry.Source.TableReader

namespace Ferry.Project

open Index (IndexError)

/-- The ending of a syntax tree's name. -/
def syntaxSuffix : String := ".ast.json"

/-- Endings that are not part of the name that the files of one input share. -/
def knownSuffixes : List String :=
  [syntaxSuffix, ".swift", ".json"]

/-- The path of a file next to another, with another ending. -/
def sibling (path suffix : String) : String :=
  let name := (Path.fileName? path).getD ""
  let shared := (knownSuffixes.findSome? (Text.stripEnd? · name)).getD name
  Path.withFileName path (shared ++ suffix)

structure InputFile where
  syntaxPath : String
deriving DecidableEq

namespace InputFile

/-- The source file, which need not be there. -/
def source (input : InputFile) : String :=
  sibling input.syntaxPath ".swift"

def directives (input : InputFile) : String :=
  sibling input.syntaxPath ".directives.json"

end InputFile

/-! ## Errors -/

inductive FileError where
  | index (path : String) (cause : IndexError)
  | malformed (path : String) (fault : Json.Fault)
  | unreadable (path : String) (fault : FileFault)
deriving DecidableEq

/-- What is wrong with a JSON text. -/
def faultMessage : Json.Fault → String
  | .grammar => "not a JSON text"
  | .shape => "not of the expected shape"
  | .ending => "the text ends too early"

namespace FileError

def path : FileError → String
  | index path _ | malformed path _ | unreadable path _ => path

def message : FileError → String
  | index path cause => path ++ ": " ++ cause.message
  | malformed path fault => path ++ ": malformed input: " ++ faultMessage fault
  | unreadable path fault => path ++ ": " ++ fault.message

end FileError

/-! ## Reading -/

section

variable {m : Type → Type} [Monad m] (fs : FileSystem m)

/-- The files that paths name: a directory stands for the syntax trees in it, in order. -/
def collectInputs : List String → m (Except FileError (List InputFile))
  | [] => return .ok []
  | path :: rest => do
    if ← fs.isDirectory path then
      match ← fs.entries path with
      | .error fault => return .error (.unreadable path fault)
      | .ok names =>
        let found := (names.filter (Text.endsWith syntaxSuffix ·)).mergeSort
        let inputs := found.map fun name => InputFile.mk (Path.join path name)
        return (← collectInputs rest).map (inputs ++ ·)
    else return (← collectInputs rest).map (InputFile.mk path :: ·)

/-- The text of a side table; one that is missing is an empty list. -/
def readTable (path : String) : m (Except FileFault String) := do
  match ← fs.read path with
  | .error .notFound => return .ok "[]"
  | answer => return answer

def readDirectives (input : InputFile) : m (Except FileError Source.DirectiveTable) := do
  let path := input.directives
  match ← readTable fs path with
  | .error fault => return .error (.unreadable path fault)
  | .ok text => return (Source.DirectiveTable.ofJson text).mapError (.malformed path)

def readTree (input : InputFile) : m (Except FileError Source.Node) := do
  let path := input.syntaxPath
  match ← fs.read path with
  | .error fault => return .error (.unreadable path fault)
  | .ok text => return (Source.Node.ofJson text).mapError (.malformed path)

/-- A side table of the index, with what is said if it cannot be read. -/
def queryTable {α : Type} (path : String) (parse : String → Except Json.Fault α)
    (failed : String → IndexError) : m (Except IndexError α) := do
  match ← readTable fs path with
  | .error fault => return .error (failed (path ++ ": " ++ fault.message))
  | .ok text =>
    return (parse text).mapError fun fault => failed (path ++ ": " ++ faultMessage fault)

/-- The index that answers from side tables and is refreshed by a command. -/
def fileIndex (command : Option String) : Index.TableSource m where
  types path := queryTable fs (sibling path ".types.json") Source.TypeTable.ofJson .types
  symbols path := queryTable fs (sibling path ".symbols.json") Source.SymbolTable.ofJson .symbols
  refreshTypes :=
    match command with
    | none => return .ok ()
    | some line => do
      if line.toList.contains (Char.ofNat 0) then
        return .error (.refresh s!"`{line}`: nul byte found in provided data")
      else
        match ← fs.runCommand line with
        | .error fault => return .error (.refresh s!"`{line}`: {fault.message}")
        | .ok ending =>
          if ending.isOk then return .ok ()
          else return .error (.refresh s!"`{line}` exited with {ending.message}")
  refreshSymbols := return .ok ()

end

end Ferry.Project
