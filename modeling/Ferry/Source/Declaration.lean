/-
  Ferry.Source.Declaration

  Nodes as declarations. `let a, b: Int` comes as one group of bindings, followed by one declaration
  per name. Bindings wait until the declaration of their name turns up. The type written after the
  last name of a group is that of the names before it, back to one with a value of its own.
-/
import Ferry.Source.Statement

namespace Ferry.Source

/-! ## Functions -/

/-- Reads the parameters of a function; the first one that cannot be read is refused. -/
def readParameters : List Site → ExceptT Node Adapter (List Parameter)
  | [] => return []
  | site :: rest =>
    match ParameterInfo.ofText? site.text with
    | none => throw site.node
    | some info => do
      let default ← (site.child? "default").mapM fun value => ExceptT.lift value.expr
      let first : Parameter :=
        { label := info.label, name := info.name, ty := info.ty, default,
          isVariadic := info.isVariadic }
      return first :: (← readParameters rest)

def functionKind (n : Node) : String × FunctionKind :=
  if n.kind = .initializerDecl then
    ("init", .initializer (Text.endsWith "?" n.text || Text.endsWith "!" n.text))
  else (n.text, .function)

/-- Everything about a function but its parameters and body. -/
def functionHead (n : Node) (isPure : Bool) : FunctionHead where
  name := (functionKind n).1
  kind := (functionKind n).2
  generics := n.textsOf .genericParameter
  returns := n.typeText? "return_type"
  access := n.access?
  isStatic := n.isStatic
  isOverride := n.hasModifier "override"
  isMutating := n.hasModifier "mutating"
  isThrowing := n.hasModifier "throws" || n.hasModifier "rethrows"
  isPure := isPure

def readFunction (n : Node) (children : List Site) : Adapter Stmt := do
  match ← (readParameters (ofKind children .parameter)).run with
  | .error refused =>
    let name := (functionKind n).1
    Adapter.errorStmt refused .unrecognizedSyntax
      s!"cannot read parameter `{refused.text}` of `{name}`"
  | .ok parameters =>
    let body ← (inRole? children "body").mapM Site.block
    let isPure := (← read).directives.has n.head.offset .pureFunction
    return .function (functionHead n isPure) parameters body (some n.head.span)

/-! ## Enumerations -/

/-- A value of a case as written, `label: Type` or `Type`. -/
def payloadField (text : String) : PayloadField :=
  match Text.splitTopLevel ':' text.toList with
  | [label, ty] =>
    { label := writtenLabel (String.ofList (Text.trim label)), ty := String.ofList (Text.trim ty) }
  | _ => { label := none, ty := Text.trimmed text }

def readElement (site : Site) : Adapter EnumElement := do
  let rawValue ← (site.child? "raw_value").mapM Site.expr
  return { name := site.text,
           payload := (site.node.childrenOf .parameter).map fun value => payloadField value.text,
           rawValue,
           span := some (← Adapter.place site.head) }

def elementSites (children : List Site) : List Site :=
  (ofKind children .enumCaseDecl).flatMap fun group => ofKind group.children .enumCaseElement

/-! ## Types -/

/-- Whether a child of a type declaration belongs to its body. -/
def isMember (site : Site) : Bool :=
  match site.kind with
  | .modifier | .genericParameter | .inheritedType | .enumCaseDecl => false
  | _ => true

def readMembers (children : List Site) : Adapter (List Stmt) :=
  readBlock (children.filter isMember)

/-- The head of a type declaration; only classes and structures have generic parameters. -/
def typeHead (n : Node) : TypeHead where
  name := n.text
  generics :=
    if n.kind = .classDecl ∨ n.kind = .structDecl then n.textsOf .genericParameter else []
  inherits := n.textsOf .inheritedType
  access := n.access?

/-! ## Variables -/

/-- Reads an accessor: a block in a role, or the body of the accessor with a keyword. -/
def readAccessor (children : List Site) (role keyword : String) :
    Adapter (Option (List Stmt)) :=
  match inRole? children role with
  | some block => return some (← block.block)
  | none =>
    match (ofKind children .accessor).find? (·.text == keyword) with
    | some accessor => return some (← blockIn accessor.children "body")
    | none => return none

/-- Reads a node with a name, a type, a value and accessors; the modifiers are those of `owner`. -/
def readVariable (n : Node) (children : List Site) (owner : Node) : Adapter Variable := do
  let initializer ← (inRole? children "initializer").mapM Site.expr
  let getter ← readAccessor children "getter" "get"
  let setter ← readAccessor children "setter" "set"
  return { name := n.text,
           ty := n.typeText? "type",
           initializer,
           isLet := !owner.hasModifier "var",
           isStatic := owner.isStatic,
           getter,
           setter,
           access := owner.access?,
           receiver := none,
           span := some (← Adapter.place n.head) }

/-- Bindings with the types that carry over to them, and the type that carries on to the left. -/
def carryTypes : List Variable → List Variable × Option String
  | [] => ([], none)
  | item :: rest =>
    let (rest, carried) := carryTypes rest
    match item.ty, item.initializer with
    | some ty, _ => (item :: rest, some ty)
    | none, some _ => (item :: rest, none)
    | none, none => ({ item with ty := carried } :: rest, carried)

def readBindings (n : Node) (children : List Site) : Adapter (List Variable) := do
  let bindings ← (ofKind children .patternBinding).mapM fun binding =>
    readVariable binding.node binding.children n
  return (carryTypes bindings).1

/-- A binding as its declaration has it; modifiers may stand at either. -/
def declaredAs (n : Node) (binding : Variable) : Variable :=
  { binding with
    isStatic := binding.isStatic || n.isStatic
    isLet := binding.isLet && !n.hasModifier "var"
    access := binding.access <|> n.access? }

/-- Takes the first binding with a name out of those that are pending. -/
def takeBinding (name : String) : Pending → Option (Variable × Pending)
  | [] => none
  | binding :: rest =>
    if binding.name = name then some (binding, rest)
    else (takeBinding name rest).map fun (found, others) => (found, binding :: others)

/-- Reads the declaration of a name against the bindings that are pending. -/
def readVarDecl (n : Node) (children : List Site) : Adapter Stmt := do
  match (← get).pending with
  | [] => return .declare (← readVariable n children n)
  | first :: rest =>
    match takeBinding n.text (first :: rest) with
    | some (binding, others) =>
      Adapter.setPending others
      return .declare (declaredAs n binding)
    | none =>
      Adapter.errorStmt n .danglingBinding
        s!"declaration `{n.text}` does not match pending binding `{first.name}`"

/-- Adds the bindings of a group to those that are pending. -/
def bufferBindings (n : Node) (children : List Site) : Adapter Unit := do
  let bindings ← readBindings n children
  Adapter.setPending ((← get).pending ++ bindings)

/-! ## All declarations -/

/-- Reads a node as a declaration among pending bindings. -/
def readDeclaration (n : Node) (children : List Site) : Adapter (List Stmt) := do
  let span := some (← Adapter.place n.head)
  match n.kind with
  | .importDecl => return [.importDecl n.text span]
  | .classDecl =>
    return [.classDecl (typeHead n) (n.hasModifier "final") (← readMembers children) span]
  | .structDecl => return [.structDecl (typeHead n) (← readMembers children) span]
  | .protocolDecl => return [.protocolDecl (typeHead n) (← readMembers children) span]
  | .enumDecl =>
    let elements ← (elementSites children).mapM readElement
    return [.enumDecl (typeHead n) none elements (← readMembers children) span]
  | .extensionDecl =>
    let members ← readMembers children
    return [.extensionDecl n.text (n.textsOf .inheritedType) members span]
  | .functionDecl | .initializerDecl => return [← readFunction n children]
  | .patternBindingDecl =>
    bufferBindings n children
    return []
  | .varDecl => return [← readVarDecl n children]
  | kind =>
    return [← Adapter.errorStmt n .unrecognizedSyntax s!"unsupported declaration `{kind.name}`"]

end Ferry.Source
