/-
  Ferry.Proofs.Traverse.Reference

  What walking with a transform reaches.  `mapNodes` says, node by node, what it is to put other
  expressions in the place of those of a tree and to leave everything else alone.  Walking does just
  that (`onFile_rewriting`): without anything to change it gives the same file back, and with a
  change of references it changes each of them once, wherever it stands (`onFile_replacing`).
-/
import Ferry.Proofs.Traverse.Demand
import Ferry.Proofs.Traverse.Trace

namespace Ferry

structure Reference where
  name : String
  isLibrary : Bool
  isImplicit : Bool
  info : Info
deriving DecidableEq

def Reference.expr (reference : Reference) : Expr :=
  .name reference.name reference.isLibrary reference.isImplicit reference.info

/-! ## Rewriting nodes -/

section

variable (f : Expr → Expr)

mutual

/-- The expression with every node in it rewritten, its parts first. -/
def Expr.mapNodes : Expr → Expr
  | .name n isLibrary isImplicit info => f (.name n isLibrary isImplicit info)
  | .literal value info => f (.literal value info)
  | .typeName n info => f (.typeName n info)
  | .code text info => f (.code text info)
  | .error diagnostic span => f (.error diagnostic span)
  | .array elements info => f (.array (mapExprs elements) info)
  | .dictionary keys values info => f (.dictionary (mapExprs keys) (mapExprs values) info)
  | .member base n isLibrary style info => f (.member base.mapNodes n isLibrary style info)
  | .call callee arguments hasTrailing isPure info =>
    f (.call callee.mapNodes arguments.mapNodes hasTrailing isPure info)
  | .closure parameters body info => f (.closure parameters (mapStmts body) info)
  | .subscript base index info => f (.subscript base.mapNodes index.mapNodes info)
  | .prefixOp op operand info => f (.prefixOp op operand.mapNodes info)
  | .postfixOp op operand info => f (.postfixOp op operand.mapNodes info)
  | .binary lhs op rhs info => f (.binary lhs.mapNodes op rhs.mapNodes info)
  | .ternary condition yes no info =>
    f (.ternary condition.mapNodes yes.mapNodes no.mapNodes info)
  | .tuple elements info => f (.tuple (mapArguments elements) info)
  | .shuffle slots info => f (.shuffle (mapSlots slots) info)
  | .paren inner info => f (.paren inner.mapNodes info)
  | .optional inner info => f (.optional inner.mapNodes info)
  | .force inner info => f (.force inner.mapNodes info)
  | .interpolation segments info => f (.interpolation (mapSegments segments) info)

def mapExprs : List Expr → List Expr
  | [] => []
  | e :: rest => e.mapNodes :: mapExprs rest

def mapArguments : List Argument → List Argument
  | [] => []
  | ⟨label, value⟩ :: rest => ⟨label, value.mapNodes⟩ :: mapArguments rest

def mapSlots : List Slot → List Slot
  | [] => []
  | .absent label :: rest => .absent label :: mapSlots rest
  | .present label value :: rest => .present label value.mapNodes :: mapSlots rest
  | .variadic label values :: rest => .variadic label (mapExprs values) :: mapSlots rest

def mapSegments : List Segment → List Segment
  | [] => []
  | .text content :: rest => .text content :: mapSegments rest
  | .value e :: rest => .value e.mapNodes :: mapSegments rest

def mapValue : Option Expr → Option Expr
  | none => none
  | some e => some e.mapNodes

def mapBody : Option (List Stmt) → Option (List Stmt)
  | none => none
  | some list => some (mapStmts list)

def mapParameters : List Parameter → List Parameter
  | [] => []
  | ⟨label, name, ty, default, isVariadic⟩ :: rest =>
    ⟨label, name, ty, mapValue default, isVariadic⟩ :: mapParameters rest

def Variable.mapNodes : Variable → Variable
  | ⟨name, ty, initializer, isLet, isStatic, getter, setter, access, receiver, span⟩ =>
    ⟨name, ty, mapValue initializer, isLet, isStatic, mapBody getter, mapBody setter,
      access, receiver, span⟩

def mapVariable : Option Variable → Option Variable
  | none => none
  | some item => some item.mapNodes

def mapElements : List EnumElement → List EnumElement
  | [] => []
  | ⟨name, payload, rawValue, span⟩ :: rest =>
    ⟨name, payload, mapValue rawValue, span⟩ :: mapElements rest

def mapConditions : List Condition → List Condition
  | [] => []
  | .test e :: rest => .test e.mapNodes :: mapConditions rest
  | .binding item :: rest => .binding item.mapNodes :: mapConditions rest

def mapCases : List SwitchCase → List SwitchCase
  | [] => []
  | ⟨patterns, body, span⟩ :: rest => ⟨mapExprs patterns, mapStmts body, span⟩ :: mapCases rest

def mapTarget : Option SwitchTarget → Option SwitchTarget
  | none => none
  | some .returned => some .returned
  | some (.assigned lhs) => some (.assigned lhs.mapNodes)
  | some (.declared item) => some (.declared item.mapNodes)

def Stmt.mapNodes : Stmt → Stmt
  | .importDecl module span => .importDecl module span
  | .breakStmt span => .breakStmt span
  | .continueStmt span => .continueStmt span
  | .comment text span => .comment text span
  | .errorStmt diagnostic span => .errorStmt diagnostic span
  | .classDecl head isFinal members span => .classDecl head isFinal (mapStmts members) span
  | .structDecl head members span => .structDecl head (mapStmts members) span
  | .protocolDecl head members span => .protocolDecl head (mapStmts members) span
  | .enumDecl head kind elements members span =>
    .enumDecl head kind (mapElements elements) (mapStmts members) span
  | .extensionDecl extended inherits members span =>
    .extensionDecl extended inherits (mapStmts members) span
  | .companion members span => .companion (mapStmts members) span
  | .function head parameters body span =>
    .function head (mapParameters parameters) (mapBody body) span
  | .declare item => .declare item.mapNodes
  | .ifStmt conditions body otherwise isGuard span =>
    .ifStmt (mapConditions conditions) (mapStmts body) (mapBody otherwise) isGuard span
  | .switchStmt subject cases target span =>
    .switchStmt subject.mapNodes (mapCases cases) (mapTarget target) span
  | .forEach item collection body span =>
    .forEach item.mapNodes collection.mapNodes (mapStmts body) span
  | .whileLoop condition body span => .whileLoop condition.mapNodes (mapStmts body) span
  | .doBlock body cleanup span => .doBlock (mapStmts body) (mapStmts cleanup) span
  | .catchBlock item body span => .catchBlock (mapVariable item) (mapStmts body) span
  | .deferBlock body span => .deferBlock (mapStmts body) span
  | .throwStmt value span => .throwStmt value.mapNodes span
  | .returnStmt value span => .returnStmt (mapValue value) span
  | .assign lhs rhs span => .assign lhs.mapNodes rhs.mapNodes span
  | .expression value span => .expression value.mapNodes span

def mapStmts : List Stmt → List Stmt
  | [] => []
  | s :: rest => s.mapNodes :: mapStmts rest

end

def SourceFile.mapNodes (file : SourceFile) : SourceFile :=
  { file with
    declarations := mapStmts f file.declarations
    statements := mapStmts f file.statements }

end

/-! ## Walking -/

/-- The transform that says what becomes of expressions, and nothing else. -/
def rewriting (f : Expr → Expr) : Transform where
  expr _ e := f e

section

variable (f : Expr → Expr)

def inEachPart : Change where
  expr _ _ e := e.mapNodes f
  stmts _ list := mapStmts f list

@[simp] theorem mapExprs_eq_map (es : List Expr) : mapExprs f es = es.map (inEachPart f).value := by
  induction es with
  | nil => rfl
  | cons e rest ih => exact congrArg (e.mapNodes f :: ·) ih

@[simp] theorem mapValue_eq_map (value : Option Expr) :
    mapValue f value = value.map (inEachPart f).value := by
  cases value <;> rfl

@[simp] theorem mapBody_eq_map (body : Option (List Stmt)) :
    mapBody f body = body.map (inEachPart f).body := by
  cases body <;> rfl

@[simp] theorem Variable.mapNodes_eq_mapParts (item : Variable) :
    item.mapNodes f = item.mapParts (inEachPart f) := by
  cases item
  simp [Variable.mapNodes, Variable.mapParts]

theorem mapStmts_eq_map (list : List Stmt) : mapStmts f list = list.map (Stmt.mapNodes f) := by
  induction list with
  | nil => rfl
  | cons s rest ih => exact congrArg (s.mapNodes f :: ·) ih

theorem Expr.mapNodes_eq_mapParts (e : Expr) :
    e.mapNodes f = f (e.mapParts (inEachPart f)) := by
  cases e with
  -- Each list has a walk of its own, which is the map over it.
  | array | dictionary => simp [Expr.mapNodes, Expr.mapParts]
  | tuple elements info =>
    refine congrArg (f <| Expr.tuple · info) ?_
    induction elements with
    | nil => rfl
    | cons argument rest ih => cases argument; simp [mapArguments, ih]; rfl
  | shuffle slots info =>
    refine congrArg (f <| Expr.shuffle · info) ?_
    induction slots with
    | nil => rfl
    | cons slot rest ih => cases slot <;> simp [mapSlots, ih, Slot.mapValues]; rfl
  | interpolation segments info =>
    refine congrArg (f <| Expr.interpolation · info) ?_
    induction segments with
    | nil => rfl
    | cons segment rest ih => cases segment <;> simp [mapSegments, ih, Segment.mapValue]; rfl
  | _ => rfl

theorem Stmt.mapNodes_eq_mapParts (s : Stmt) : s.mapNodes f = s.mapParts (inEachPart f) := by
  cases s with
  | enumDecl head kind elements members span =>
    refine congrArg (Stmt.enumDecl head kind · _ span) ?_
    induction elements with
    | nil => rfl
    | cons element rest ih => cases element; simp [mapElements, ih]; rfl
  | function head parameters body span =>
    have hparameters : mapParameters f parameters = parameters.map fun parameter =>
        { parameter with default := parameter.default.map (inEachPart f).value } := by
      induction parameters with
      | nil => rfl
      | cons parameter rest ih => cases parameter; simp [mapParameters, ih]
    simp [Stmt.mapNodes, Stmt.mapParts, hparameters]
  | ifStmt conditions body otherwise isGuard span =>
    have hconditions : mapConditions f conditions = conditions.map
        (Condition.mapParts (inEachPart f)) := by
      induction conditions with
      | nil => rfl
      | cons condition rest ih =>
        cases condition <;> simp [mapConditions, ih, Condition.mapParts]; rfl
    simp [Stmt.mapNodes, Stmt.mapParts, hconditions]
    rfl
  | switchStmt subject cases target span =>
    have hcases : mapCases f cases = cases.map (SwitchCase.mapParts (inEachPart f)) := by
      induction cases with
      | nil => rfl
      | cons c rest ih => cases c; simp [mapCases, ih, SwitchCase.mapParts]; rfl
    have htarget : mapTarget f target = target.map (SwitchTarget.mapParts (inEachPart f)) := by
      obtain _ | _ | _ | item := target <;> simp [mapTarget, SwitchTarget.mapParts]; rfl
    simp [Stmt.mapNodes, Stmt.mapParts, hcases, htarget]
    rfl
  | catchBlock item body span =>
    cases item <;> simp [Stmt.mapNodes, Stmt.mapParts, mapVariable] <;> rfl
  | declare item => exact congrArg Stmt.declare (Variable.mapNodes_eq_mapParts f item)
  | returnStmt value span => exact congrArg (Stmt.returnStmt · span) (mapValue_eq_map f value)
  | _ => rfl

theorem onStmts_rewriting_eq_map (owner : Option String) (list : List Stmt) :
    (rewriting f).onStmts owner list =
      list.map fun s => s.mapParts ((rewriting f).change owner) := by
  rw [Transform.onStmts_eq, List.map_eq_flatMap]
  refine List.flatMap_congr fun s _ => ?_
  rw [Transform.onStmt_eq]
  rfl

theorem onFragment_rewriting (place : Place) (fragment : Fragment) (owner : Option String) :
    (rewriting f).onFragment owner fragment = ((inEachPart f).onPart (.value, fragment)).2 := by
  induction place, fragment using Fragment.induction generalizing owner with
  | expr place called e ih =>
    have hparts : e.mapParts ((rewriting f).change owner) = e.mapParts (inEachPart f) := by
      refine Expr.mapParts_congr fun part hpart => ?_
      obtain ⟨step, called, e | list⟩ := part <;>
        rw [Transform.onPart_change, ih _ hpart] <;> rfl
    show Fragment.expr called _ = Fragment.expr called (e.mapNodes f)
    rw [Transform.onExpr_eq_mapParts, hparts, Expr.mapNodes_eq_mapParts]
    rfl
  | stmts place list ih =>
    show Fragment.stmts _ = Fragment.stmts (mapStmts f list)
    rw [onStmts_rewriting_eq_map, mapStmts_eq_map]
    refine congrArg Fragment.stmts (List.map_congr_left fun s hs => ?_)
    rw [Stmt.mapNodes_eq_mapParts]
    refine Stmt.mapParts_congr fun part hpart => ?_
    obtain ⟨step, called, e | list⟩ := part <;>
      rw [Transform.onPart_change, ih s hs _ hpart] <;> rfl

theorem onStmts_rewriting (owner : Option String) (list : List Stmt) :
    (rewriting f).onStmts owner list = mapStmts f list :=
  Fragment.stmts.inj (onFragment_rewriting f {} (.stmts list) owner)

theorem onFile_rewriting (file : SourceFile) :
    (rewriting f).onFile file = file.mapNodes f := by
  have hdeclarations : ∀ list : List Stmt,
      (list.flatMap fun s => (rewriting f).onStmts none [s]) = mapStmts f list := by
    intro list
    induction list with
    | nil => rfl
    | cons s rest ih => rw [List.flatMap_cons, ih, onStmts_rewriting]; rfl
  rw [Transform.onFile, hdeclarations, onStmts_rewriting]
  rfl

end

/-! ## References -/

/-- What becomes of an expression when references are replaced: nothing, unless it is one. -/
def replaceName (g : Reference → Reference) : Expr → Expr
  | .name n isLibrary isImplicit info => (g ⟨n, isLibrary, isImplicit, info⟩).expr
  | e => e

def replacing (g : Reference → Reference) : Transform :=
  rewriting (replaceName g)

/-- The file with every reference in it replaced. -/
def SourceFile.mapReferences (g : Reference → Reference) (file : SourceFile) : SourceFile :=
  file.mapNodes (replaceName g)

/-! ## One change after another -/

section

variable (g h : Reference → Reference)

theorem onFragment_replacing_comp (owner : Option String) (place : Place) (fragment : Fragment) :
    (replacing h).onFragment owner ((replacing g).onFragment owner fragment) =
      (replacing (h ∘ g)).onFragment owner fragment := by
  induction place, fragment using Fragment.induction generalizing owner with
  | expr place called e ih =>
    have hparts : (e.mapParts ((replacing g).change owner)).mapParts ((replacing h).change owner) =
        e.mapParts ((replacing (h ∘ g)).change owner) :=
      Transform.Chains.mapParts_expr fun part hpart => ih part hpart _
    simp only [Transform.onFragment, Transform.onExpr_eq_mapParts]
    -- Only a reference is touched itself; it has no parts, and all others only their parts changed.
    cases e with
    | name n isLibrary isImplicit info => rfl
    | _ => exact congrArg (Fragment.expr called) hparts
  | stmts place list ih =>
    simp only [Transform.onFragment, replacing, onStmts_rewriting_eq_map, List.map_map]
    refine congrArg Fragment.stmts (List.map_congr_left fun s hs => ?_)
    exact Transform.Chains.mapParts_stmt fun part hpart => ih s hs part hpart _

theorem mapStmts_mapStmts (list : List Stmt) :
    mapStmts (replaceName h) (mapStmts (replaceName g) list) =
      mapStmts (replaceName (h ∘ g)) list := by
  have hcomp := onFragment_replacing_comp g h none {} (.stmts list)
  simp only [Transform.onFragment, replacing, onStmts_rewriting] at hcomp
  exact Fragment.stmts.inj hcomp

theorem SourceFile.mapReferences_mapReferences (file : SourceFile) :
    (file.mapReferences g).mapReferences h = file.mapReferences (h ∘ g) := by
  simp only [SourceFile.mapReferences, SourceFile.mapNodes, mapStmts_mapStmts]

end

/-! ## Files -/

def referenceOf : Expr → List Reference
  | .name n isLibrary isImplicit info => [⟨n, isLibrary, isImplicit, info⟩]
  | _ => []

/-- The references of a file in the order in which they are read. -/
def references (file : SourceFile) : List Reference :=
  (Survey.nodes referenceOf).ofFile file

theorem references_onFile (g : Reference → Reference) (file : SourceFile) :
    references ((replacing g).onFile file) = (references file).map g := by
  have htraces : (replacing g).Traces referenceOf fun before after => after = before.map g := by
    refine .ofNodes rfl ?_ (fun _ => rfl) (fun _ => rfl) (fun _ _ => rfl) (fun _ => rfl) ?_ ?_
    · rintro a _ c _ rfl rfl
      rw [List.map_append]
    · intro called e
      cases e <;> rfl
    · intro owner called e
      cases e <;> rfl
  exact htraces.ofFile_onFile file

/-- Walking without anything to change changes nothing; walking with a change of references replaces
each reference where it stands and nothing else, so that the references of the result are those of
the file, changed one by one; and two changes can be made at once. -/
theorem onFile_replacing (file : SourceFile) :
    Transform.onFile {} file = file ∧
      ∀ g : Reference → Reference,
        (replacing g).onFile file = file.mapReferences g ∧
        references (file.mapReferences g) = (references file).map g ∧
        ∀ h : Reference → Reference,
          (replacing h).onFile ((replacing g).onFile file) = (replacing (h ∘ g)).onFile file := by
  have hreplacing : ∀ g file, (replacing g).onFile file = file.mapReferences g :=
    fun g => onFile_rewriting (replaceName g)
  refine ⟨?_, fun g => ⟨hreplacing g file, ?_, fun h => ?_⟩⟩
  · have hsettles : Transform.Settles {} {} := ⟨fun _ => rfl, fun _ => rfl, fun _ _ => rfl⟩
    exact Transform.onFile_of_settled hsettles (Demand.metFile_trivial file)
  · rw [← hreplacing]
    exact references_onFile g file
  · rw [hreplacing, hreplacing, hreplacing, SourceFile.mapReferences_mapReferences]

end Ferry
