/-
  Ferry.Pass.Collect

  Learning about a program before it is changed. Conformances that only the source language knows
  are struck and every enumeration is classified on the way; what is learned from declarations comes
  out as facts in the order of the file.
-/
import Ferry.Program.View
import Ferry.Registry
import Ferry.Traverse.Survey
import Ferry.Traverse.Transform

namespace Ferry.Pass

/-! ## Conformances -/

/-- Conformances without a counterpart in the target language. -/
def sourceOnly : List String :=
  ["Equatable", "Hashable", "Codable", "Encodable", "Decodable", "CustomStringConvertible",
   "CustomDebugStringConvertible", "CaseIterable", "RawRepresentable", "Identifiable", "Sendable"]

/-- The inherited types that mean something in the target language. -/
def cleaned (inherits : List String) : List String :=
  inherits.filter fun name => !sourceOnly.contains name

def cleanStmt : Stmt → Stmt
  | .classDecl head isFinal members span =>
    .classDecl { head with inherits := cleaned head.inherits } isFinal members span
  | .structDecl head members span =>
    .structDecl { head with inherits := cleaned head.inherits } members span
  | .protocolDecl head members span =>
    .protocolDecl { head with inherits := cleaned head.inherits } members span
  | .enumDecl head kind elements members span =>
    .enumDecl { head with inherits := cleaned head.inherits } kind elements members span
  | .extensionDecl extended inherits members span =>
    .extensionDecl extended (cleaned inherits) members span
  | s => s

def isProtocolDecl : Stmt → Bool
  | .protocolDecl .. => true
  | _ => false

/-- Strikes conformances everywhere but inside expressions and protocols. -/
def cleanInheritances : Transform where
  enters _ := false
  descends s := !isProtocolDecl s
  stmt _ s := [cleanStmt s]

/-! ## Enumerations -/

/-- Types whose values the cases of an enumeration can stand for. -/
def rawValueTypes : List String :=
  ["Int", "Int8", "Int16", "Int32", "Int64", "UInt", "UInt8", "UInt16", "UInt32", "UInt64",
   "Float", "Double", "String", "Character", "Bool"]

/-- An enumeration is free of payload when no case carries a value and it inherits from nothing but
types of raw values. -/
def classify (head : TypeHead) (elements : List EnumElement) : EnumKind :=
  if elements.all (·.payload.isEmpty) && head.inherits.all rawValueTypes.contains then .payloadFree
  else .hasPayload

def classifyStmt : Stmt → Stmt
  | .enumDecl head _ elements members span =>
    .enumDecl head (some (classify head elements)) elements members span
  | s => s

/-- Notes the kind on every enumeration outside expressions. -/
def classifyEnums : Transform where
  enters _ := false
  stmt _ s := [classifyStmt s]

/-- What an enumeration tells, before those inside it. -/
def enumSurvey : Survey Fact where
  enters _ := false
  before
    | .enumDecl head _ elements _ _ =>
      [.enumeration head.name (classify head elements) (elements.map EnumElement.name)]
    | _ => []

/-! ## Types and functions -/

def protocolSurvey : Survey Fact where
  enters _ := false
  before
    | .protocolDecl head _ _ => [.protocolType head.name]
    | _ => []

def typeSurvey : Survey Fact where
  enters _ := false
  before
    | .structDecl head _ _ => [.structType head.name]
    | .classDecl head _ _ _ => [.classType head.name]
    | _ => []

/-- The name that calls use: an initializer is called by the name of its type. -/
def calledName (head : FunctionHead) (owner : Option String) : String :=
  match head.kind, owner with
  | .initializer _, some owner => owner
  | _, _ => head.name

def functionFacts (owner : Option String) (head : FunctionHead) (parameters : List Parameter) :
    List Fact :=
  let key := signatureKey (calledName head owner) (parameters.map Parameter.label)
  (if head.isPure then [.pureFunction key] else []) ++
    [.function key (parameters.map Parameter.name)]

mutual

/-- The functions declared by a statement: itself, members, and functions directly in its body. -/
def functionsOf (owner : Option String) : Stmt → List Fact
  | .function head parameters body _ =>
    functionFacts owner head parameters ++
      match body with
      | some body => functionsIn owner body
      | none => []
  | .classDecl head _ members _ => functionsIn (some head.name) members
  | .structDecl head members _ => functionsIn (some head.name) members
  | .enumDecl head _ _ members _ => functionsIn (some head.name) members
  | .extensionDecl extended _ members _ => functionsIn (some extended) members
  | .protocolDecl head members _ => functionsIn (some head.name) members
  | .companion members _ => functionsIn owner members
  | _ => []

def functionsIn (owner : Option String) : List Stmt → List Fact
  | [] => []
  | s :: rest => functionsOf owner s ++ functionsIn owner rest

end

def functionsOfFile (file : SourceFile) : List Fact :=
  functionsIn none file.declarations ++ functionsIn none file.statements

end Ferry.Pass
