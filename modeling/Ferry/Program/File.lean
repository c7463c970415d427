/-
  Ferry.Program.File

  Whole files: their output redirections, kept by the extension of the path they lead to, and their
  dumps.
-/
import Ferry.Association
import Ferry.Path
import Ferry.Program.Dump

namespace Ferry

namespace SourceFile

/-- Asks for output at a path. A later path with the same extension replaces it. -/
def addOutput (file : SourceFile) (path : String) : SourceFile :=
  { file with outputs := Association.put ((Path.extension? path).getD "") path file.outputs }

/-- Whether the file holds nothing to write. -/
def isEmpty (file : SourceFile) : Bool :=
  file.declarations.isEmpty && file.statements.isEmpty

def dump (file : SourceFile) : String :=
  "file " ++ file.path ++ "\n" ++
    (if file.declarations.isEmpty then ""
      else "  declarations\n" ++ dumpAll 2 file.declarations) ++
    (if file.statements.isEmpty then ""
      else "  statements\n" ++ dumpAll 2 file.statements) ++
    String.join (file.outputs.map fun (tag, path) => "  output " ++ tag ++ " -> " ++ path ++ "\n")

end SourceFile

end Ferry
