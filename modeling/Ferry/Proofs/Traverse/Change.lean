/-
  Ferry.Proofs.Traverse.Change

  Replacing the parts of a node.  A change says what takes the place of each part, and
  `Expr.mapParts` and `Stmt.mapParts` put it there and leave all else of the node alone.  The parts
  are then what the change makes of them (`parts_mapParts`), changes that agree on the parts make
  the same (`mapParts_congr`), and changes can be made one after the other (`mapParts_andThen`).

  Walking with a transform is such a change at every node (`Transform.onExpr_eq_mapParts`,
  `Transform.onStmt_eq`).
-/
import Mathlib.Data.List.Basic
import Ferry.Proofs.Traverse.Fragment
import Ferry.Traverse.Transform

namespace Ferry

/-- What is to take the place of each part. -/
structure Change where
  expr : Step → Bool → Expr → Expr
  stmts : Step → List Stmt → List Stmt

namespace Change

def none : Change where
  expr _ _ e := e
  stmts _ list := list

def andThen (φ ψ : Change) : Change where
  expr step called e := ψ.expr step called (φ.expr step called e)
  stmts step list := ψ.stmts step (φ.stmts step list)

def onPart (φ : Change) : Part → Part
  | (step, .expr called e) => (step, .expr called (φ.expr step called e))
  | (step, .stmts list) => (step, .stmts (φ.stmts step list))

def value (φ : Change) (e : Expr) : Expr := φ.expr .value false e

def body (φ : Change) (list : List Stmt) : List Stmt := φ.stmts .body list

end Change

def Segment.mapValue (f : Expr → Expr) : Segment → Segment
  | .text content => .text content
  | .value e => .value (f e)

def Variable.mapParts (φ : Change) (item : Variable) : Variable :=
  { item with
    initializer := item.initializer.map φ.value
    getter := item.getter.map φ.body
    setter := item.setter.map φ.body }

def Condition.mapParts (φ : Change) : Condition → Condition
  | .test e => .test (φ.value e)
  | .binding item => .binding (item.mapParts φ)

def SwitchCase.mapParts (φ : Change) (c : SwitchCase) : SwitchCase :=
  { c with patterns := c.patterns.map φ.value, body := φ.body c.body }

def SwitchTarget.mapParts (φ : Change) : SwitchTarget → SwitchTarget
  | .returned => .returned
  | .assigned lhs => .assigned (φ.value lhs)
  | .declared item => .declared (item.mapParts φ)

def Expr.mapParts (φ : Change) : Expr → Expr
  | .array elements info => .array (elements.map φ.value) info
  | .dictionary keys values info => .dictionary (keys.map φ.value) (values.map φ.value) info
  | .member base n isLibrary style info => .member (φ.value base) n isLibrary style info
  | .call callee arguments hasTrailing isPure info =>
    .call (φ.expr .value true callee) (φ.value arguments) hasTrailing isPure info
  | .closure parameters body info =>
    .closure parameters (φ.stmts (.closure parameters.isEmpty) body) info
  | .subscript base index info => .subscript (φ.value base) (φ.value index) info
  | .prefixOp op operand info => .prefixOp op (φ.value operand) info
  | .postfixOp op operand info => .postfixOp op (φ.value operand) info
  | .binary lhs op rhs info => .binary (φ.value lhs) op (φ.value rhs) info
  | .ternary condition yes no info =>
    .ternary (φ.value condition) (φ.value yes) (φ.value no) info
  | .tuple elements info =>
    .tuple (elements.map fun argument => ⟨argument.label, φ.value argument.value⟩) info
  | .shuffle slots info => .shuffle (slots.map (Slot.mapValues φ.value)) info
  | .paren inner info => .paren (φ.value inner) info
  | .optional inner info => .optional (φ.value inner) info
  | .force inner info => .force (φ.value inner) info
  | .interpolation segments info => .interpolation (segments.map (Segment.mapValue φ.value)) info
  | .literal value info => .literal value info
  | .name n isLibrary isImplicit info => .name n isLibrary isImplicit info
  | .typeName n info => .typeName n info
  | .code text info => .code text info
  | .error diagnostic span => .error diagnostic span

def Stmt.mapParts (φ : Change) : Stmt → Stmt
  | .classDecl head isFinal members span =>
    .classDecl head isFinal (φ.stmts (.members head.name) members) span
  | .structDecl head members span => .structDecl head (φ.stmts (.members head.name) members) span
  | .protocolDecl head members span => .protocolDecl head (φ.body members) span
  | .enumDecl head kind elements members span =>
    .enumDecl head kind
      (elements.map fun element =>
        { element with rawValue := element.rawValue.map (φ.expr (.rawValue head.name) false) })
      (φ.stmts (.members head.name) members) span
  | .extensionDecl extended inherits members span =>
    .extensionDecl extended inherits (φ.body members) span
  | .companion members span => .companion (φ.body members) span
  | .function head parameters body span =>
    .function head
      (parameters.map fun parameter => { parameter with default := parameter.default.map φ.value })
      (body.map φ.body) span
  | .declare item => .declare (item.mapParts φ)
  | .ifStmt conditions body otherwise isGuard span =>
    .ifStmt (conditions.map (Condition.mapParts φ)) (φ.body body) (otherwise.map φ.body)
      isGuard span
  | .switchStmt subject cases target span =>
    .switchStmt (φ.value subject) (cases.map (SwitchCase.mapParts φ))
      (target.map (SwitchTarget.mapParts φ)) span
  | .forEach item collection body span =>
    .forEach (φ.value item) (φ.value collection) (φ.body body) span
  | .whileLoop condition body span => .whileLoop (φ.value condition) (φ.body body) span
  | .doBlock body cleanup span => .doBlock (φ.body body) (φ.body cleanup) span
  | .catchBlock item body span =>
    .catchBlock (item.map (Variable.mapParts φ)) (φ.body body) span
  | .deferBlock body span => .deferBlock (φ.body body) span
  | .throwStmt value span => .throwStmt (φ.value value) span
  | .returnStmt value span => .returnStmt (value.map φ.value) span
  | .assign lhs rhs span => .assign (φ.value lhs) (φ.value rhs) span
  | .expression value span => .expression (φ.value value) span
  | .importDecl module span => .importDecl module span
  | .breakStmt span => .breakStmt span
  | .continueStmt span => .continueStmt span
  | .comment text span => .comment text span
  | .errorStmt diagnostic span => .errorStmt diagnostic span

section

variable (φ ψ : Change)

@[simp] theorem Change.onPart_value (e : Expr) : φ.onPart (.value e) = .value (φ.value e) := rfl

@[simp] theorem Change.onPart_body (list : List Stmt) :
    φ.onPart (.body list) = .body (φ.body list) := rfl

@[simp] theorem Change.onPart_expr (step : Step) (called : Bool) (e : Expr) :
    φ.onPart (step, .expr called e) = (step, .expr called (φ.expr step called e)) := rfl

@[simp] theorem Change.onPart_stmts (step : Step) (list : List Stmt) :
    φ.onPart (step, .stmts list) = (step, .stmts (φ.stmts step list)) := rfl

theorem Slot.mapValues_mapValues (g h : Expr → Expr) (slot : Slot) :
    (slot.mapValues g).mapValues h = slot.mapValues (h ∘ g) := by
  cases slot with
  | variadic label values => exact congrArg (Slot.variadic label) (List.map_map ..)
  | _ => rfl

@[simp] theorem Segment.values_mapValue (f : Expr → Expr) (segment : Segment) :
    (segment.mapValue f).values = segment.values.map f := by
  cases segment <;> rfl

@[simp] theorem Slot.label_mapValues (g : Expr → Expr) (slot : Slot) :
    (slot.mapValues g).label = slot.label := by
  cases slot <;> rfl

@[simp] theorem Slot.values_mapValues (f : Expr → Expr) (slot : Slot) :
    (slot.mapValues f).values = slot.values.map f := by
  cases slot <;> rfl

@[simp] theorem Variable.parts_mapParts (item : Variable) :
    (item.mapParts φ).parts = item.parts.map φ.onPart := by
  obtain ⟨name, ty, initializer, isLet, isStatic, getter, setter, access, receiver, span⟩ := item
  cases initializer <;> cases getter <;> cases setter <;> rfl

@[simp] theorem Condition.parts_mapParts (condition : Condition) :
    (condition.mapParts φ).parts = condition.parts.map φ.onPart := by
  cases condition with
  | test e => rfl
  | binding item => exact Variable.parts_mapParts φ item

@[simp] theorem SwitchCase.parts_mapParts (c : SwitchCase) :
    (c.mapParts φ).parts = c.parts.map φ.onPart := by
  simp [SwitchCase.parts, SwitchCase.mapParts, Function.comp_def]

@[simp] theorem SwitchTarget.parts_mapParts (target : SwitchTarget) :
    (target.mapParts φ).parts = target.parts.map φ.onPart := by
  cases target with
  | returned => rfl
  | assigned lhs => rfl
  | declared item => exact Variable.parts_mapParts φ item

@[simp] theorem Expr.parts_mapParts (e : Expr) : (e.mapParts φ).parts = e.parts.map φ.onPart := by
  cases e <;> simp [Expr.parts, Expr.mapParts, List.map_flatMap, List.flatMap_map,
    Function.comp_def]

@[simp] theorem Stmt.parts_mapParts (s : Stmt) : (s.mapParts φ).parts = s.parts.map φ.onPart := by
  cases s <;>
    simp [Stmt.parts, Stmt.mapParts, List.map_flatMap, List.flatMap_map, Option.toList_map,
      Function.comp_def]

end

section

variable {φ ψ : Change}

/-- That changes make the same of parts. -/
def Change.Agree (φ ψ : Change) (parts : List Part) : Prop :=
  ∀ part ∈ parts, φ.onPart part = ψ.onPart part

namespace Change

@[simp] theorem agree_nil : Agree φ ψ [] := List.forall_mem_nil _

@[simp] theorem agree_cons {part : Part} {parts : List Part} :
    Agree φ ψ (part :: parts) ↔ φ.onPart part = ψ.onPart part ∧ Agree φ ψ parts :=
  List.forall_mem_cons

@[simp] theorem agree_append {parts parts' : List Part} :
    Agree φ ψ (parts ++ parts') ↔ Agree φ ψ parts ∧ Agree φ ψ parts' :=
  List.forall_mem_append

@[simp] theorem agree_map {α : Type} {list : List α} {g : α → Part} :
    Agree φ ψ (list.map g) ↔ ∀ a ∈ list, φ.onPart (g a) = ψ.onPart (g a) :=
  List.forall_mem_map

@[simp] theorem agree_flatMap {α : Type} {list : List α} {f : α → List Part} :
    Agree φ ψ (list.flatMap f) ↔ ∀ a ∈ list, Agree φ ψ (f a) :=
  List.forall_mem_flatMap

end Change

@[simp] theorem Part.value_inj {e e' : Expr} : Part.value e = .value e' ↔ e = e' := by
  simp [Part.value]

@[simp] theorem Part.body_inj {list list' : List Stmt} :
    Part.body list = .body list' ↔ list = list' := by
  simp [Part.body]

open Change (Agree)

theorem Slot.mapValues_congr {f g : Expr → Expr} {slot : Slot} (h : ∀ e ∈ slot.values, f e = g e) :
    slot.mapValues f = slot.mapValues g := by
  cases slot <;> simp_all [Slot.values, Slot.mapValues]

theorem Segment.mapValue_congr {f g : Expr → Expr} {segment : Segment}
    (h : ∀ e ∈ segment.values, f e = g e) : segment.mapValue f = segment.mapValue g := by
  cases segment <;> simp_all [Segment.values, Segment.mapValue]

theorem Variable.mapParts_congr {item : Variable} (h : Agree φ ψ item.parts) :
    item.mapParts φ = item.mapParts ψ := by
  obtain ⟨name, ty, initializer, isLet, isStatic, getter, setter, access, receiver, span⟩ := item
  cases initializer <;> cases getter <;> cases setter <;>
    simp_all [Variable.parts, Variable.mapParts]

theorem Condition.mapParts_congr {condition : Condition} (h : Agree φ ψ condition.parts) :
    condition.mapParts φ = condition.mapParts ψ := by
  cases condition with
  | test e => simp_all [Condition.parts, Condition.mapParts]
  | binding item => exact congrArg Condition.binding (Variable.mapParts_congr h)

theorem SwitchCase.mapParts_congr {c : SwitchCase} (h : Agree φ ψ c.parts) :
    c.mapParts φ = c.mapParts ψ := by
  simp_all [SwitchCase.parts, SwitchCase.mapParts]

theorem SwitchTarget.mapParts_congr {target : SwitchTarget} (h : Agree φ ψ target.parts) :
    target.mapParts φ = target.mapParts ψ := by
  cases target with
  | declared item => exact congrArg SwitchTarget.declared (Variable.mapParts_congr h)
  | _ => simp_all [SwitchTarget.parts, SwitchTarget.mapParts]

theorem Expr.mapParts_congr {e : Expr} (h : Agree φ ψ e.parts) : e.mapParts φ = e.mapParts ψ := by
  cases e with
  | shuffle slots info =>
    refine congrArg (Expr.shuffle · info) (List.map_congr_left fun slot hslot => ?_)
    exact Slot.mapValues_congr fun e he =>
      Part.value_inj.mp (Change.agree_map.mp (Change.agree_flatMap.mp h slot hslot) e he)
  | interpolation segments info =>
    refine congrArg (Expr.interpolation · info) (List.map_congr_left fun segment hsegment => ?_)
    exact Segment.mapValue_congr fun e he =>
      Part.value_inj.mp (Change.agree_map.mp (Change.agree_flatMap.mp h segment hsegment) e he)
  | _ => simp_all [Expr.parts, Expr.mapParts]

theorem Stmt.mapParts_congr {s : Stmt} (h : Agree φ ψ s.parts) : s.mapParts φ = s.mapParts ψ := by
  cases s with
  | declare item => exact congrArg Stmt.declare (Variable.mapParts_congr h)
  | ifStmt conditions body otherwise isGuard span =>
    have hconditions : conditions.map (Condition.mapParts φ) = conditions.map
        (Condition.mapParts ψ) :=
      List.map_congr_left fun c hc => Condition.mapParts_congr (by simp_all [Stmt.parts])
    cases otherwise <;> simp_all [Stmt.parts, Stmt.mapParts]
  | switchStmt subject cases target span =>
    have hcases : cases.map (SwitchCase.mapParts φ) = cases.map (SwitchCase.mapParts ψ) :=
      List.map_congr_left fun c hc => SwitchCase.mapParts_congr (by simp_all [Stmt.parts])
    have htarget : target.map (SwitchTarget.mapParts φ) = target.map (SwitchTarget.mapParts ψ) :=
      Option.map_congr fun item hitem => SwitchTarget.mapParts_congr (by simp_all [Stmt.parts])
    simp_all [Stmt.parts, Stmt.mapParts]
  | catchBlock item body span =>
    have hitem : item.map (Variable.mapParts φ) = item.map (Variable.mapParts ψ) :=
      Option.map_congr fun v hv => Variable.mapParts_congr (by simp_all [Stmt.parts])
    simp_all [Stmt.parts, Stmt.mapParts]
  | function head parameters body span =>
    -- Lists of nodes that are neither expressions nor statements are compared node by node.
    have hparameters : ∀ p ∈ parameters, p.default.map φ.value = p.default.map ψ.value :=
      fun p hp => Option.map_congr fun e he => by
        have hp := Change.agree_flatMap.mp (Change.agree_append.mp h).1 p hp
        simp_all
    cases body <;> simp_all [Stmt.parts, Stmt.mapParts]
  | enumDecl head kind elements members span =>
    have helements : ∀ element ∈ elements, element.rawValue.map
        (φ.expr (.rawValue head.name) false) =
        element.rawValue.map (ψ.expr (.rawValue head.name) false) :=
      fun element helement => Option.map_congr fun e he => by
        have helement := Change.agree_flatMap.mp (Change.agree_append.mp h).1 element helement
        simp_all
    simp_all [Stmt.parts, Stmt.mapParts]
  | returnStmt value span => cases value <;> simp_all [Stmt.parts, Stmt.mapParts]
  | _ => simp_all [Stmt.parts, Stmt.mapParts]

end

@[simp] theorem Change.value_none : Change.none.value = id := rfl

@[simp] theorem Change.body_none : Change.none.body = id := rfl

@[simp] theorem Change.expr_none (step : Step) (called : Bool) :
    Change.none.expr step called = id :=
  rfl

@[simp] theorem Change.stmts_none (step : Step) : Change.none.stmts step = id := rfl

theorem Change.onPart_none (part : Part) : Change.none.onPart part = part := by
  obtain ⟨step, called, e | list⟩ := part <;> rfl

@[simp] theorem Slot.mapValues_id : Slot.mapValues id = id := by
  funext slot
  cases slot <;> simp [Slot.mapValues]

@[simp] theorem Segment.mapValue_id : Segment.mapValue id = id := by
  funext segment
  cases segment <;> rfl

@[simp] theorem Variable.mapParts_none : Variable.mapParts .none = id := by
  funext item
  cases item
  simp [Variable.mapParts]

@[simp] theorem Condition.mapParts_none : Condition.mapParts .none = id := by
  funext condition
  cases condition <;> simp [Condition.mapParts]

@[simp] theorem SwitchCase.mapParts_none : SwitchCase.mapParts .none = id := by
  funext c
  cases c
  simp [SwitchCase.mapParts]

@[simp] theorem SwitchTarget.mapParts_none : SwitchTarget.mapParts .none = id := by
  funext target
  cases target <;> simp [SwitchTarget.mapParts]

@[simp] theorem Expr.mapParts_none (e : Expr) : e.mapParts .none = e := by
  cases e with
  | tuple elements info =>
    exact congrArg (Expr.tuple · info) (List.map_id'' (fun argument => by cases argument; rfl) _)
  | _ => simp [Expr.mapParts]

@[simp] theorem Stmt.mapParts_none (s : Stmt) : s.mapParts .none = s := by
  cases s with
  | enumDecl head kind elements members span =>
    refine congrArg (Stmt.enumDecl head kind · members span) ?_
    exact List.map_id'' (fun element => by cases element; simp) elements
  | function head parameters body span =>
    simp only [Stmt.mapParts, Change.value_none, Change.body_none, Option.map_id, id_eq]
    refine congrArg (Stmt.function head · body span) ?_
    exact List.map_id'' (fun parameter => by cases parameter; rfl) parameters
  | _ => simp [Stmt.mapParts]

section

variable (φ ψ : Change)

@[simp] theorem Change.value_andThen : (φ.andThen ψ).value = ψ.value ∘ φ.value := rfl

@[simp] theorem Change.body_andThen : (φ.andThen ψ).body = ψ.body ∘ φ.body := rfl

@[simp] theorem Change.expr_andThen (step : Step) (called : Bool) :
    (φ.andThen ψ).expr step called = ψ.expr step called ∘ φ.expr step called := rfl

@[simp] theorem Change.stmts_andThen (step : Step) :
    (φ.andThen ψ).stmts step = ψ.stmts step ∘ φ.stmts step := rfl

theorem Change.onPart_andThen (part : Part) :
    (φ.andThen ψ).onPart part = ψ.onPart (φ.onPart part) := by
  obtain ⟨step, called, e | list⟩ := part <;> rfl

@[simp] theorem Segment.mapValue_comp (f g : Expr → Expr) :
    Segment.mapValue (g ∘ f) = Segment.mapValue g ∘ Segment.mapValue f := by
  funext segment
  cases segment <;> rfl

@[simp] theorem Slot.mapValues_comp (f g : Expr → Expr) :
    Slot.mapValues (g ∘ f) = Slot.mapValues g ∘ Slot.mapValues f :=
  funext fun slot => (Slot.mapValues_mapValues f g slot).symm

@[simp] theorem Variable.mapParts_andThen :
    Variable.mapParts (φ.andThen ψ) = Variable.mapParts ψ ∘ Variable.mapParts φ := by
  funext item
  simp [Variable.mapParts]

@[simp] theorem Condition.mapParts_andThen :
    Condition.mapParts (φ.andThen ψ) = Condition.mapParts ψ ∘ Condition.mapParts φ := by
  funext condition
  cases condition <;> simp [Condition.mapParts]

@[simp] theorem SwitchCase.mapParts_andThen :
    SwitchCase.mapParts (φ.andThen ψ) = SwitchCase.mapParts ψ ∘ SwitchCase.mapParts φ := by
  funext c
  simp [SwitchCase.mapParts]

@[simp] theorem SwitchTarget.mapParts_andThen :
    SwitchTarget.mapParts (φ.andThen ψ) = SwitchTarget.mapParts ψ ∘ SwitchTarget.mapParts φ := by
  funext target
  cases target <;> simp [SwitchTarget.mapParts]

theorem Expr.mapParts_andThen (e : Expr) :
    e.mapParts (φ.andThen ψ) = (e.mapParts φ).mapParts ψ := by
  cases e <;> simp [Expr.mapParts]

theorem Stmt.mapParts_andThen (s : Stmt) :
    s.mapParts (φ.andThen ψ) = (s.mapParts φ).mapParts ψ := by
  cases s <;> simp [Stmt.mapParts, Function.comp_def]

end

/-! ## Transforms as changes of parts -/

/-- The innermost type declaration around a part, given the one around its node. -/
def Step.owner (owner : Option String) : Step → Option String
  | .members name | .rawValue name => some name
  | .value | .body | .closure _ => owner

@[simp] theorem Place.owner_step (place : Place) (step : Step) :
    (place.step step).owner = step.owner place.owner := by
  cases step <;> rfl

namespace Transform

variable (t : Transform) (owner : Option String)

def change : Change where
  expr step called e := t.onExpr (step.owner owner) called e
  stmts step list := t.onStmts (step.owner owner) list

theorem onExprs_eq_map (es : List Expr) : t.onExprs owner es = es.map (t.onExpr owner false) := by
  induction es with
  | nil => rfl
  | cons e rest ih => rw [List.map_cons, ← ih]; rfl

theorem onArguments_eq_map (elements : List Argument) :
    t.onArguments owner elements =
      elements.map fun argument => ⟨argument.label, t.onExpr owner false argument.value⟩ := by
  induction elements with
  | nil => rfl
  | cons argument rest ih =>
    obtain ⟨label, value⟩ := argument
    rw [List.map_cons, ← ih]
    rfl

theorem onSlots_eq_map (slots : List Slot) :
    t.onSlots owner slots = slots.map (Slot.mapValues (t.onExpr owner false)) := by
  induction slots with
  | nil => rfl
  | cons slot rest ih =>
    rw [List.map_cons, ← ih]
    cases slot with
    | absent label => rfl
    | present label value => rfl
    | variadic label values => rw [Slot.mapValues, ← onExprs_eq_map]; rfl

theorem onSegments_eq_map (segments : List Segment) :
    t.onSegments owner segments = segments.map (Segment.mapValue (t.onExpr owner false)) := by
  induction segments with
  | nil => rfl
  | cons segment rest ih =>
    rw [List.map_cons, ← ih]
    cases segment <;> rfl

theorem onValue_eq_map (value : Option Expr) :
    t.onValue owner value = value.map (t.onExpr owner false) := by
  cases value <;> rfl

theorem onBody_eq_map (body : Option (List Stmt)) :
    t.onBody owner body = body.map (t.onStmts owner) := by
  cases body <;> rfl

theorem onVariable_eq (item : Variable) :
    t.onVariable owner item = item.mapParts (t.change owner) := by
  obtain ⟨name, ty, initializer, isLet, isStatic, getter, setter, access, receiver, span⟩ := item
  show Variable.mk _ _ (t.onValue owner _) _ _ (t.onBody owner _) (t.onBody owner _) _ _ _ = _
  rw [onValue_eq_map, onBody_eq_map, onBody_eq_map]
  rfl

theorem onHandled_eq_map (item : Option Variable) :
    t.onHandled owner item = item.map (Variable.mapParts (t.change owner)) := by
  cases item with
  | none => rfl
  | some item => exact congrArg some (t.onVariable_eq owner item)

theorem onParameters_eq_map (parameters : List Parameter) :
    t.onParameters owner parameters =
      parameters.map fun parameter =>
        { parameter with default := parameter.default.map (t.onExpr owner false) } := by
  induction parameters with
  | nil => rfl
  | cons parameter rest ih =>
    obtain ⟨label, name, ty, default, isVariadic⟩ := parameter
    rw [List.map_cons, ← ih]
    cases default <;> rfl

theorem onElements_eq_map (elements : List EnumElement) :
    t.onElements owner elements =
      elements.map fun element =>
        { element with rawValue := element.rawValue.map (t.onExpr owner false) } := by
  induction elements with
  | nil => rfl
  | cons element rest ih =>
    obtain ⟨name, payload, rawValue, span⟩ := element
    rw [List.map_cons, ← ih, ← onValue_eq_map]
    rfl

theorem onConditions_eq_map (conditions : List Condition) :
    t.onConditions owner conditions = conditions.map (Condition.mapParts (t.change owner)) := by
  induction conditions with
  | nil => rfl
  | cons condition rest ih =>
    rw [List.map_cons, ← ih]
    cases condition with
    | test e => rfl
    | binding item => rw [Condition.mapParts, ← onVariable_eq]; rfl

theorem onCases_eq_map (cases : List SwitchCase) :
    t.onCases owner cases = cases.map (SwitchCase.mapParts (t.change owner)) := by
  induction cases with
  | nil => rfl
  | cons c rest ih =>
    obtain ⟨patterns, body, span⟩ := c
    rw [List.map_cons, ← ih]
    show SwitchCase.mk (t.onExprs owner patterns) _ _ :: _ = _
    rw [onExprs_eq_map]
    rfl

theorem onTarget_eq_map (target : Option SwitchTarget) :
    t.onTarget owner target = target.map (SwitchTarget.mapParts (t.change owner)) := by
  cases target with
  | none => rfl
  | some target =>
    cases target with
    | returned => rfl
    | assigned lhs => rfl
    | declared item =>
      exact congrArg (fun item => some (SwitchTarget.declared item)) (t.onVariable_eq owner item)

theorem onExpr_eq_mapParts (called : Bool) (e : Expr) :
    t.onExpr owner called e =
      if t.enters e then t.expr called (e.mapParts (t.change owner)) else e := by
  -- With its parts walked, an expression is entered or not, whatever it is.
  have hwalked : ∀ {walked}, walked = e.mapParts (t.change owner) →
      (t.visit called e fun _ => walked) =
        if t.enters e then t.expr called (e.mapParts (t.change owner)) else e := by
    rintro _ rfl
    rfl
  cases e with
  | array elements info =>
    exact hwalked (congrArg (Expr.array · info) (t.onExprs_eq_map owner elements))
  | dictionary keys values info =>
    exact hwalked (congrArg₂ (Expr.dictionary · · info) (t.onExprs_eq_map owner keys)
      (t.onExprs_eq_map owner values))
  | tuple elements info =>
    exact hwalked (congrArg (Expr.tuple · info) (t.onArguments_eq_map owner elements))
  | shuffle slots info =>
    exact hwalked (congrArg (Expr.shuffle · info) (t.onSlots_eq_map owner slots))
  | interpolation segments info =>
    exact hwalked (congrArg (Expr.interpolation · info) (t.onSegments_eq_map owner segments))
  | _ => rfl

theorem onStmt_eq (s : Stmt) :
    t.onStmt owner s = if t.descends s then s.mapParts (t.change owner) else s := by
  have hwalked {s walked other : Stmt} (h : walked = other) :
      (if t.descends s then walked else s) = if t.descends s then other else s := by rw [h]
  cases s with
  | enumDecl head kind elements members span =>
    exact hwalked (congrArg (Stmt.enumDecl head kind · _ span)
      (t.onElements_eq_map (some head.name) elements))
  | function head parameters body span =>
    exact hwalked (congrArg₂ (Stmt.function head · · span) (t.onParameters_eq_map owner parameters)
      (t.onBody_eq_map owner body))
  | declare item => exact hwalked (congrArg Stmt.declare (t.onVariable_eq owner item))
  | ifStmt conditions body otherwise isGuard span =>
    exact hwalked (congrArg₂ (Stmt.ifStmt · _ · isGuard span)
      (t.onConditions_eq_map owner conditions) (t.onBody_eq_map owner otherwise))
  | switchStmt subject cases target span =>
    exact hwalked (congrArg₂ (Stmt.switchStmt _ · · span) (t.onCases_eq_map owner cases)
      (t.onTarget_eq_map owner target))
  | catchBlock item body span =>
    exact hwalked (congrArg (Stmt.catchBlock · _ span) (t.onHandled_eq_map owner item))
  | returnStmt value span =>
    exact hwalked (congrArg (Stmt.returnStmt · span) (t.onValue_eq_map owner value))
  | importDecl | breakStmt | continueStmt | comment | errorStmt => exact (ite_self _).symm
  | _ => rfl

theorem flatten_eq_flatMap (list : List Stmt) :
    t.flatten owner list = list.flatMap fun s => t.stmt owner (t.onStmt owner s) := by
  induction list with
  | nil => rfl
  | cons s rest ih => rw [List.flatMap_cons, ← ih]; rfl

theorem onStmts_eq (list : List Stmt) :
    t.onStmts owner list = t.block (list.flatMap fun s => t.stmt owner (t.onStmt owner s)) := by
  cases list with
  | nil => rfl
  | cons s rest => rw [List.flatMap_cons, ← flatten_eq_flatMap]; rfl

def onFragment : Fragment → Fragment
  | .expr called e => .expr called (t.onExpr owner called e)
  | .stmts list => .stmts (t.onStmts owner list)

theorem onPart_change (part : Part) :
    (t.change owner).onPart part = (part.1, t.onFragment (part.1.owner owner) part.2) := by
  obtain ⟨step, called, e | list⟩ := part <;> rfl

variable {t} in
theorem onFragment_congr (h : ∀ owner owner' s, t.stmt owner s = t.stmt owner' s)
    (place : Place) (fragment : Fragment) (owner owner' : Option String) :
    t.onFragment owner fragment = t.onFragment owner' fragment := by
  induction place, fragment using Fragment.induction generalizing owner owner' with
  | expr place called e ih =>
    have hparts : e.mapParts (t.change owner) = e.mapParts (t.change owner') :=
      Expr.mapParts_congr fun part hpart => by rw [onPart_change, onPart_change, ih part hpart]
    rw [onFragment, onFragment, onExpr_eq_mapParts, onExpr_eq_mapParts, hparts]
  | stmts place list ih =>
    have hstmt : ∀ s ∈ list, t.stmt owner (t.onStmt owner s) = t.stmt owner'
        (t.onStmt owner' s) := by
      intro s hs
      have hparts : s.mapParts (t.change owner) = s.mapParts (t.change owner') :=
        Stmt.mapParts_congr fun part hpart => by rw [onPart_change, onPart_change,
          ih s hs part hpart]
      rw [onStmt_eq, onStmt_eq, hparts, h owner owner']
    rw [onFragment, onFragment, onStmts_eq, onStmts_eq, List.flatMap_congr hstmt]

section

variable {t u v : Transform} {owner : Option String}

/-- That one transform after another makes of parts what a third one does. -/
def Chains (t u v : Transform) (owner : Option String) (parts : List Part) : Prop :=
  ∀ part ∈ parts, u.onFragment (part.1.owner owner) (t.onFragment (part.1.owner owner) part.2) =
    v.onFragment (part.1.owner owner) part.2

theorem Chains.onPart {parts : List Part} (h : Chains t u v owner parts) : ∀ part ∈ parts,
    ((t.change owner).andThen (u.change owner)).onPart part = (v.change owner).onPart part := by
  intro part hpart
  rw [Change.onPart_andThen, onPart_change, onPart_change, onPart_change, h part hpart]

theorem Chains.mapParts_expr {e : Expr} (h : Chains t u v owner e.parts) :
    (e.mapParts (t.change owner)).mapParts (u.change owner) = e.mapParts (v.change owner) := by
  rw [← Expr.mapParts_andThen]
  exact Expr.mapParts_congr h.onPart

theorem Chains.mapParts_stmt {s : Stmt} (h : Chains t u v owner s.parts) :
    (s.mapParts (t.change owner)).mapParts (u.change owner) = s.mapParts (v.change owner) := by
  rw [← Stmt.mapParts_andThen]
  exact Stmt.mapParts_congr h.onPart

end

end Transform

end Ferry
