/-
  Ferry.Project.FileSystem

  What a run needs from the outside: files by their paths, two streams to print to, and a shell for
  the command that refreshes the index. Runs are written against this interface, so the same run
  works on a disk and on a directory in memory.
-/
namespace Ferry.Project

inductive FileFault where
  | notFound
  | notDirectory
  | isDirectory
  | alreadyExists
  | notEmpty
  | invalidName
  | notText
  | other (message : String)
deriving DecidableEq, Repr

def FileFault.kind : FileFault → String
  | notFound => "NotFound"
  | notDirectory => "NotADirectory"
  | isDirectory => "IsADirectory"
  | alreadyExists => "AlreadyExists"
  | notEmpty => "DirectoryNotEmpty"
  | invalidName => "InvalidInput"
  | notText => "InvalidData"
  | other _ => "Other"

def FileFault.message : FileFault → String
  | notFound => "No such file or directory (os error 2)"
  | notDirectory => "Not a directory (os error 20)"
  | isDirectory => "Is a directory (os error 21)"
  | alreadyExists => "File exists (os error 17)"
  | notEmpty => "Directory not empty (os error 39)"
  | invalidName => "file name contained an unexpected NUL byte"
  | notText => "stream did not contain valid UTF-8"
  | other message => message

/-- How a command came to its end. -/
inductive Ending where
  | exited (status : Nat)
  | killed (signal : Nat)
deriving DecidableEq, Repr

namespace Ending

def signalNames : List String :=
  ["HUP", "INT", "QUIT", "ILL", "TRAP", "ABRT", "BUS", "FPE", "KILL", "USR1",
   "SEGV", "USR2", "PIPE", "ALRM", "TERM", "STKFLT", "CHLD", "CONT", "STOP", "TSTP", "TTIN", "TTOU",
   "URG", "XCPU", "XFSZ",
   "VTALRM", "PROF", "WINCH", "IO", "PWR", "SYS"]

def isOk (ending : Ending) : Bool :=
  ending = exited 0

def message : Ending → String
  | exited status => s!"exit status: {status}"
  | killed signal =>
    match signalNames[signal - 1]? with
    | some name => s!"signal: {signal} (SIG{name})"
    | none => s!"signal: {signal}"

end Ending

/-- Files, streams and a shell that are used in a monad. -/
structure FileSystem (m : Type → Type) where
  read : (path : String) → m (Except FileFault String)
  /-- Replaces the text of a file or makes a new one. -/
  write : (path text : String) → m (Except FileFault Unit)
  isDirectory : (path : String) → m Bool
  /-- The names in a directory, in any order. -/
  entries : (path : String) → m (Except FileFault (List String))
  /-- Makes a directory and those above it, as far as they are missing. -/
  createDirectories : (path : String) → m (Except FileFault Unit)
  location : m (Option String)
  /-- Runs a command line in the host's shell, which may not be there. -/
  runCommand : (line : String) → m (Except FileFault Ending)
  print : (text : String) → m Unit
  printError : (text : String) → m Unit

end Ferry.Project
