/-
  Ferry.Project.Directory

  Directories in memory. A path is followed component by component; everything before its last
  component has to be a directory. Paths that leave the directory lead nowhere.
-/
import Ferry.Association
import Ferry.Path
import Ferry.Project.FileSystem

namespace Ferry.Project

inductive Entry where
  | file (text : String)
  | directory (entries : List (String × Entry))

namespace Entry

def empty : Entry := directory []

def isDirectory : Entry → Bool
  | directory _ => true
  | file _ => false

/-- What names lead to, one after the other. -/
def find : List String → Entry → Except FileFault Entry
  | [], entry => .ok entry
  | _ :: _, file _ => .error .notDirectory
  | name :: rest, directory entries =>
    match entries.lookup name with
    | some entry => find rest entry
    | none => .error .notFound

/-- Changes what names lead to, where nothing may stand before. -/
def alter (change : Option Entry → Except FileFault Entry) :
    List String → Entry → Except FileFault Entry
  | [], _ => .error .isDirectory
  | _ :: _, file _ => .error .notDirectory
  | [name], directory entries => do
    return directory (Association.put name (← change (entries.lookup name)) entries)
  | name :: next :: rest, directory entries =>
    match entries.lookup name with
    | none => .error .notFound
    | some entry => do
      return directory (Association.put name (← alter change (next :: rest) entry) entries)

/-- The names that components lead along, from those behind them (the last first). Each step has to
start in a directory. -/
def follow (root : Entry) : (behind : List String) → List PathComponent →
    Except FileFault (List String)
  | behind, [] => .ok behind.reverse
  | behind, component :: rest => do
    match ← root.find behind.reverse with
    | file _ => .error .notDirectory
    | directory _ =>
      match component, behind with
      | .current, _ => follow root behind rest
      | .normal name, _ => follow root (name :: behind) rest
      | .parent, _ :: above => follow root above rest
      | .parent, [] => .error .notFound
      | .root, _ => .error .notFound

def locate (root : Entry) (path : String) : Except FileFault (List String) :=
  if path.isEmpty then .error .notFound
  else if path.toList.contains (Char.ofNat 0) then .error .invalidName
  else root.follow [] (Path.components path)

/-- What a path leads to; one that ends in `/` leads to a directory only. -/
def get (root : Entry) (path : String) : Except FileFault Entry := do
  let entry ← root.find (← root.locate path)
  if Text.endsWith "/" path && !entry.isDirectory then .error .notDirectory else return entry

def read (root : Entry) (path : String) : Except FileFault String := do
  match ← root.get path with
  | file text => return text
  | directory _ => .error .isDirectory

def write (root : Entry) (path text : String) : Except FileFault Entry := do
  if Text.endsWith "/" path then .error .isDirectory
  else
    root.alter (fun
      | some (directory _) => .error .isDirectory
      | _ => .ok (file text)) (← root.locate path)

/-- Makes the directories that names lead along. -/
def makeDirectories : List String → Entry → Except FileFault Entry
  | [], directory entries => .ok (directory entries)
  | [], file _ => .error .alreadyExists
  | _ :: _, file _ => .error .notDirectory
  | name :: rest, directory entries => do
    let entry ← makeDirectories rest ((entries.lookup name).getD empty)
    return directory (Association.put name entry entries)

/-- The names of a path that goes down only. -/
def downward? (components : List PathComponent) : Option (List String) :=
  (components.filter (· != .current)).mapM fun
    | .normal name => some name
    | _ => none

def createDirectories (root : Entry) (path : String) : Except FileFault Entry :=
  match downward? (Path.components path) with
  | some names => makeDirectories names root
  | none => do
    let _ ← root.get path
    return root

/-- The directory with a file or directory in it, and with those above it; a path that ends in `/`
is that of a directory. What cannot be put there is left out. -/
def place (root : Entry) (path text : String) : Entry :=
  let placed := do
    if Text.endsWith "/" path then root.createDirectories path
    else (← root.createDirectories (Path.parentText path)).write path text
  placed.toOption.getD root

def ofFiles (files : List (String × String)) : Entry :=
  files.foldl (fun root (path, text) => root.place path text) empty

/-- The paths of all files below, with their texts. -/
def files : Entry → List (String × String)
  | file text => [("", text)]
  | directory entries => filesOf entries
where
  filesOf : List (String × Entry) → List (String × String)
  | [] => []
  | (name, entry) :: rest =>
    ((files entry).map fun (path, text) =>
      (if path.isEmpty then name else Path.join name path, text)) ++ filesOf rest

end Entry

/-! ## Running in memory -/

/-- A directory with what has been printed. -/
structure World where
  root : Entry := .empty
  output : String := ""
  errors : String := ""

/-- Replaces the directory unless that failed. -/
def World.settle : Except FileFault Entry → StateM World (Except FileFault Unit)
  | .ok root => do
    modify fun world => { world with root }
    return .ok ()
  | .error fault => return .error fault

/-- Runs in memory, with a shell of their own. -/
def inMemory (runCommand : (line : String) → StateM World (Except FileFault Ending)) :
    FileSystem (StateM World) where
  read path := do return (← get).root.read path
  write path text := do World.settle ((← get).root.write path text)
  isDirectory path := do
    return ((← get).root.get path).toOption.any Entry.isDirectory
  entries path := do
    match (← get).root.get path with
    | .ok (.directory entries) => return .ok (entries.map Prod.fst)
    | .ok (.file _) => return .error .notDirectory
    | .error fault => return .error fault
  createDirectories path := do World.settle ((← get).root.createDirectories path)
  location := return none
  runCommand := runCommand
  print text := modify fun world => { world with output := world.output ++ text }
  printError text := modify fun world => { world with errors := world.errors ++ text }

end Ferry.Project
