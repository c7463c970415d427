/-
  Ferry.Main

  The program: a command line run on the disk.
-/
import Ferry.Command.Run

namespace Ferry

open Project (FileFault FileSystem)

def faultOf : IO.Error → FileFault
  | .noFileOrDirectory .. => .notFound
  | .alreadyExists .. => .alreadyExists
  | .inappropriateType _ code _ => if code = 21 then .isDirectory else .notDirectory
  | e => .other (toString e)

/-- Does something with files and gives what went wrong as a value. -/
def attempt {α : Type} (action : IO α) : IO (Except FileFault α) := do
  try return .ok (← action)
  catch e => return .error (faultOf e)

def readText (path : String) : IO (Except FileFault String) := do
  match ← attempt (IO.FS.readBinFile path) with
  | .error fault => return .error fault
  | .ok bytes =>
    match String.fromUTF8? bytes with
    | some text => return .ok text
    | none => return .error .notText

def onDisk : FileSystem IO where
  read := readText
  write path text := attempt (IO.FS.writeFile path text)
  isDirectory path := do
    return (← attempt (do (← IO.FS.realPath path).isDir)).toOption.getD false
  entries path := attempt do
    return (← (← IO.FS.realPath path).readDir).toList.map (·.fileName)
  createDirectories path := attempt (IO.FS.createDirAll path)
  location := return (← attempt IO.currentDir).toOption.map toString
  -- No other program is started from here, as if the shell were missing.
  runCommand _ := return .error .notFound
  print text := do (← IO.getStdout).putStr text
  printError text := do (← IO.getStderr).putStr text

end Ferry

def main (words : List String) : IO UInt32 := do
  return UInt32.ofNat (← Ferry.Command.run Ferry.onDisk words)
