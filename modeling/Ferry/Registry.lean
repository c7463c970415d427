/-
  Ferry.Registry

  What is known about a program as a whole: its enumerations with their cases, protocols, structures
  and classes, the parameter names of its functions by signature key, and which functions are pure.
  Facts are recorded one by one; a later fact on the same enumeration or function replaces an
  earlier one.
-/
import Ferry.Association
import Ferry.Program.Basic

namespace Ferry

inductive Fact where
  | enumeration (name : String) (kind : EnumKind) (cases : List String)
  | protocolType (name : String)
  | function (key : String) (names : List String)
  | pureFunction (key : String)
  | structType (name : String)
  | classType (name : String)
deriving DecidableEq

structure EnumFacts where
  kind : EnumKind
  cases : List String
deriving DecidableEq

structure Registry where
  enums : List (String × EnumFacts) := []
  protocols : List String := []
  functions : List (String × List String) := []
  pureFunctions : List String := []
  structs : List String := []
  classes : List String := []

namespace Registry

def empty : Registry := {}

def record (registry : Registry) : Fact → Registry
  | .enumeration name kind cases =>
    { registry with enums := Association.put name ⟨kind, cases⟩ registry.enums }
  | .protocolType name => { registry with protocols := Association.add name registry.protocols }
  | .function key names =>
    { registry with functions := Association.put key names registry.functions }
  | .pureFunction key =>
    { registry with pureFunctions := Association.add key registry.pureFunctions }
  | .structType name => { registry with structs := Association.add name registry.structs }
  | .classType name => { registry with classes := Association.add name registry.classes }

def recordAll (registry : Registry) (facts : List Fact) : Registry :=
  facts.foldl record registry

def enumFacts? (registry : Registry) (name : String) : Option EnumFacts :=
  registry.enums.lookup name

def enumKind? (registry : Registry) (name : String) : Option EnumKind :=
  (registry.enumFacts? name).map EnumFacts.kind

/-- Whether the enumeration is known and has the case. -/
def isEnumCase (registry : Registry) (enum case : String) : Bool :=
  (registry.enumFacts? enum).any fun facts => facts.cases.contains case

def isProtocol (registry : Registry) (name : String) : Bool :=
  registry.protocols.contains name

/-- Internal parameter names of the function with a signature key. -/
def parameterNames? (registry : Registry) (key : String) : Option (List String) :=
  registry.functions.lookup key

def isPure (registry : Registry) (key : String) : Bool :=
  registry.pureFunctions.contains key

def isStruct (registry : Registry) (name : String) : Bool :=
  registry.structs.contains name

def isClass (registry : Registry) (name : String) : Bool :=
  registry.classes.contains name

def functionCount (registry : Registry) : Nat :=
  registry.functions.length

end Registry

end Ferry
