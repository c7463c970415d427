/-
  Ferry.Source.Table

  What is known about places of a source file besides its syntax tree: types of expressions, origins
  of references, and directives of the author.

  A type is looked up by the exact range of an expression, or by its start alone, where the shortest
  range wins. Types are kept in order of their ranges, which both searches rely on, and ranges that
  occur twice in the order in which they were given.
-/
import Ferry.Association
import Ferry.Search
import Ferry.Text.Affix

namespace Ferry.Source

/-! ## Types -/

structure TypeEntry where
  offset : Nat
  length : Nat
  ty : String
deriving DecidableEq

namespace TypeEntry

/-- Whether a range comes before another or equals it: by start, then by length. -/
def le (a b : TypeEntry) : Bool :=
  a.offset < b.offset || (a.offset == b.offset && a.length ≤ b.length)

/-- Where an entry lies, seen from a range. -/
def order (offset length : Nat) (entry : TypeEntry) : Ordering :=
  (compare entry.offset offset).then (compare entry.length length)

theorem le_iff {a b : TypeEntry} :
    a.le b ↔ a.offset < b.offset ∨ a.offset = b.offset ∧ a.length ≤ b.length := by
  simp [le]

theorem le_trans (a b c : TypeEntry) (hab : a.le b) (hbc : b.le c) : a.le c := by
  rw [le_iff] at *
  omega

theorem le_total (a b : TypeEntry) : a.le b || b.le a := by
  rw [Bool.or_eq_true, le_iff, le_iff]
  omega

end TypeEntry

/-- Types in the order of their ranges. -/
@[ext]
structure TypeTable where
  entries : Array TypeEntry := #[]
  sorted : entries.toList.Pairwise (fun a b => a.le b) := by exact .nil

namespace TypeTable

def empty : TypeTable := {}

def ofList (entries : List TypeEntry) : TypeTable where
  entries := (entries.mergeSort TypeEntry.le).toArray
  sorted := List.pairwise_mergeSort TypeEntry.le_trans TypeEntry.le_total entries

/-- The type recorded for exactly this range, the last of several. -/
def get? (table : TypeTable) (offset length : Nat) : Option String :=
  match Search.search (TypeEntry.order offset length) table.entries with
  | .ok index => some table.entries[index].ty
  | .error _ => none

/-- The type of the shortest range that starts at an offset, the first of several. -/
def firstAt? (table : TypeTable) (offset : Nat) : Option String :=
  let start := Search.partitionPoint (·.offset < offset) table.entries
  (table.entries[start]?.filter (·.offset == offset)).map TypeEntry.ty

def size (table : TypeTable) : Nat :=
  table.entries.size

end TypeTable

/-! ## Symbols -/

structure SymbolEntry where
  offset : Nat
  /-- The full name, as `Swift.Array.append(_:)`. -/
  origin : String
  declaration : Option String := none
deriving DecidableEq

/-- Whether a full name belongs to the standard library. -/
def isLibraryOrigin (origin : String) : Bool :=
  Text.startsWith "Swift." origin

def SymbolEntry.isLibrary (entry : SymbolEntry) : Bool :=
  isLibraryOrigin entry.origin

structure SymbolTable where
  entries : List (Nat × SymbolEntry) := []

namespace SymbolTable

/-- The table of entries; a later one replaces an earlier one at the same place. -/
def ofList (entries : List SymbolEntry) : SymbolTable where
  entries := entries.foldl (fun table entry => Association.put entry.offset entry table) []

def get? (table : SymbolTable) (offset : Nat) : Option SymbolEntry :=
  table.entries.lookup offset

def size (table : SymbolTable) : Nat :=
  table.entries.length

end SymbolTable

/-! ## Directives -/

inductive DirectiveKind where
  /-- Leave the declaration out. -/
  | ignore
  /-- Put the given text in place of the node. -/
  | literal
  /-- The function has no side effects. -/
  | pureFunction
  /-- Write the output to the given path. -/
  | output
deriving DecidableEq

structure Directive where
  offset : Nat
  kind : DirectiveKind
  payload : Option String := none
deriving DecidableEq

structure DirectiveTable where
  groups : List (Nat × List Directive) := []

namespace DirectiveTable

def directivesAt (table : DirectiveTable) (offset : Nat) : List Directive :=
  (table.groups.lookup offset).getD []

/-- Adds a directive after those at its place. -/
def insert (table : DirectiveTable) (directive : Directive) : DirectiveTable where
  groups := Association.put directive.offset
    (table.directivesAt directive.offset ++ [directive]) table.groups

def ofList (directives : List Directive) : DirectiveTable :=
  directives.foldl insert {}

def has (table : DirectiveTable) (offset : Nat) (kind : DirectiveKind) : Bool :=
  (table.directivesAt offset).any (·.kind == kind)

def payload? (table : DirectiveTable) (offset : Nat) (kind : DirectiveKind) : Option String :=
  ((table.directivesAt offset).find? (·.kind == kind)).bind Directive.payload

def all (table : DirectiveTable) (kind : DirectiveKind) : List Directive :=
  (table.groups.flatMap Prod.snd).filter (·.kind == kind)

end DirectiveTable

/-- All that is known about a file besides its syntax tree. -/
structure SideTables where
  types : TypeTable := .empty
  symbols : SymbolTable := {}
  directives : DirectiveTable := {}

end Ferry.Source
