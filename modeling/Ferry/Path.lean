/-
  Ferry.Path

  Paths as texts with `/` between their steps. Empty steps and `.` steps change nothing and are not
  components, except for a `.` that begins the path. Two paths that have the same components name
  the same file, however they are written.
-/
import Ferry.Text.Affix

namespace Ferry

inductive PathComponent where
  | root
  | current
  | parent
  | normal (name : String)
deriving DecidableEq

namespace Path

/-- The component that a step stands for, by whether it begins a relative path. -/
def component? (first : Bool) (step : List Char) : Option PathComponent :=
  if step.isEmpty then none
  else if step = ['.'] then (if first then some .current else none)
  else if step = ['.', '.'] then some .parent
  else some (.normal (String.ofList step))

def components (path : String) : List PathComponent :=
  match path.toList.splitOn '/' with
  | [] => []
  | [] :: [] => []
  | [] :: rest => .root :: rest.filterMap (component? false)
  | first :: rest => (component? true first).toList ++ rest.filterMap (component? false)

def same (a b : String) : Bool :=
  components a == components b

def fileName? (path : String) : Option String :=
  match (components path).getLast? with
  | some (.normal name) => some name
  | _ => none

/-- A file name cut at its last point; a point that begins the name cuts nothing. -/
def splitName (name : String) : String × Option String :=
  let reversed := name.toList.reverse
  let tail := reversed.takeWhile (· ≠ '.')
  match reversed.drop tail.length with
  | '.' :: c :: head => (String.ofList (c :: head).reverse, some (String.ofList tail.reverse))
  | _ => (name, none)

def stem? (path : String) : Option String :=
  (fileName? path).map (splitName · |>.1)

/-- What follows the last point of the file name. -/
def extension? (path : String) : Option String :=
  (fileName? path).bind (splitName · |>.2)

/-- The path with `next` under it; an absolute `next` stands alone. -/
def join (path next : String) : String :=
  if Text.startsWith "/" next || path.isEmpty then next
  else if Text.endsWith "/" path then path ++ next
  else path ++ "/" ++ next

/-- Drops separators and `.` steps at the end of a reversed path, down to its root or first step. -/
def dropIdle : List Char → List Char
  | ['/'] => ['/']
  | '/' :: rest => dropIdle rest
  | '.' :: '/' :: rest => dropIdle ('/' :: rest)
  | cs => cs

/-- The path without its last component, as it is written. -/
def parentText (path : String) : String :=
  String.ofList (dropIdle ((dropIdle path.toList.reverse).dropWhile (· ≠ '/'))).reverse

/-- The path with its file name replaced; without a file name the new one is added. -/
def withFileName (path name : String) : String :=
  if (fileName? path).isSome then join (parentText path) name else join path name

/-- The path with the extension of its file name replaced or added; what stands before the name is
kept as it is. -/
def withExtension (path extension : String) : String :=
  match fileName? path with
  | some name =>
    let before := (dropIdle path.toList.reverse).drop name.length
    String.ofList before.reverse ++ (splitName name).1 ++ "." ++ extension
  | none => path

end Path

end Ferry
