/-
  Ferry.Target.Output

  The text written for a file, and where it goes: to the path the file itself asks for, else into
  the output directory under the file's own name, else to standard output.
-/
import Ferry.Path
import Ferry.Target.Emit

namespace Ferry.Target

def targetExtension : String := "kt"

/-- A file's text in the target language with its redirections. -/
structure Output where
  source : String
  text : String
  /-- Where the file asks its output to go, by the extension of the path. -/
  outputs : List (String × String) := []

inductive OutputError where
  | noFileName (path : String)
deriving DecidableEq

def OutputError.message : OutputError → String
  | noFileName path => "input " ++ path ++ " has no file name to derive an output from"

namespace Output

def ofFile (registry : Registry) (layout : Layout) (file : SourceFile) : Output where
  source := file.path
  text := emit registry layout file
  outputs := file.outputs

def markerCount (output : Output) : Nat :=
  Text.count "<<Error:" output.text

def redirected? (output : Output) : Option String :=
  output.outputs.lookup targetExtension

/-- The path in the output directory under the name of the source file. -/
def defaultPath (output : Output) (directory : String) : Except OutputError String :=
  match Path.stem? output.source with
  | some stem => .ok (Path.withExtension (Path.join directory stem) targetExtension)
  | none => .error (.noFileName output.source)

/-- Where the text goes; nowhere means standard output. -/
def destination (output : Output) (directory : Option String) :
    Except OutputError (Option String) :=
  match output.redirected?, directory with
  | some path, _ => .ok (some path)
  | none, some directory => (output.defaultPath directory).map some
  | none, none => .ok none

end Output

end Ferry.Target
