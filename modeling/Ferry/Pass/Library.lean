/-
  Ferry.Pass.Library

  References to the standard library of the source language. Those with a counterpart in the target
  are renamed; a property that the target spells as a method becomes a call; the rest is reported.
-/
import Ferry.Traverse.Survey
import Ferry.Traverse.Transform

namespace Ferry.Pass

inductive Counterpart where
  /-- The same under another name. -/
  | renamed (name : String)
  /-- A method without arguments. -/
  | method (name : String)

def memberCounterpart? : String → Option Counterpart
  | "count" => some (.renamed "size")
  | "append" => some (.renamed "add")
  | "isEmpty" => some (.method "isEmpty")
  | "first" => some (.method "firstOrNull")
  | "last" => some (.method "lastOrNull")
  | "uppercased" => some (.renamed "uppercase")
  | "lowercased" => some (.renamed "lowercase")
  | "removeAll" => some (.renamed "clear")
  | "description" => some (.method "toString")
  | "joined" => some (.renamed "joinToString")
  | "hasPrefix" => some (.renamed "startsWith")
  | "hasSuffix" => some (.renamed "endsWith")
  | "insert" => some (.renamed "add")
  | "remove" => some (.renamed "removeAt")
  | _ => none

def functionCounterpart? : String → Option String
  | "print" => some "println"
  | "max" => some "maxOf"
  | "min" => some "minOf"
  | "abs" => some "Math.abs"
  | "fatalError" => some "error"
  | "precondition" => some "require"
  | _ => none

/-- Library names that the target spells alike. -/
def sharedNames : List String :=
  ["contains", "map", "filter", "sorted", "reversed", "removeLast", "removeFirst",
   "forEach", "keys", "values", "zip", "assert", "Int", "Double", "String", "Bool"]

/-- Puts the counterpart in place of a library reference. The callee of a call needs no arguments of
its own. -/
def replaceReference (called : Bool) : Expr → Expr
  | .member base n true style info =>
    match memberCounterpart? n with
    | some (.renamed name) => .member base name false style info
    | some (.method name) =>
      if called then .member base name false style info
      else
        .call (.member base name false style info) (.tuple [] {}) false false { span := info.span }
    | none => .member base n false style info
  | .name n true isImplicit info =>
    .name ((functionCounterpart? n).getD n) false isImplicit info
  | e => e

def standardLibrary : Transform where
  expr called e := replaceReference called e

def untranslated (name : String) (span : Option Span) : Diagnostic :=
  (Diagnostic.ofCode .unknownLibrary ("no translation for standard library reference `" ++
    name ++ "`")).placed span

def unknownReferences : Survey Diagnostic where
  expr
    | .member _ n true _ info =>
      if (memberCounterpart? n).isSome || sharedNames.contains n then []
      else [untranslated n info.span]
    | .name n true _ info =>
      if (functionCounterpart? n).isSome || sharedNames.contains n then []
      else [untranslated n info.span]
    | _ => []
  argumentsFirst := true

end Ferry.Pass
