/-
  Ferry.Proofs.Traverse.Fragment

  Program trees as nodes with parts.  A node is an expression or a statement; its parts are the
  expressions and the lists of statements right below it, each with the step that leads to it.  All
  that is said about a tree at any depth is said in terms of `Expr.parts` and `Stmt.parts`.

  A part may be replaced without touching anything else of its node (`Expr.mapParts`,
  `Stmt.mapParts`), and whatever holds of a node as soon as it holds of its parts holds everywhere
  (`Fragment.induction`).
-/
import Ferry.Program.View

namespace Ferry

/-! ## Places -/

/-- How a part is reached from its node. -/
inductive Step where
  /-- An expression. -/
  | value
  /-- Statements that are run. -/
  | body
  /-- The members of a class, a structure or an enumeration. -/
  | members (owner : String)
  /-- A value of a case of an enumeration. -/
  | rawValue (owner : String)
  /-- The body of a closure. -/
  | closure (isBare : Bool)

/-- Where a part of a file stands. -/
structure Place where
  /-- The innermost type declaration around it. -/
  owner : Option String := none
  /-- Whether it is directly among the members of a class, a structure or an enumeration. -/
  isMember : Bool := false
  /-- Whether it belongs to the own body of a closure without parameters. -/
  inBare : Bool := false
  inExpr : Bool := false

/-- Where a part stands, given where its node does. -/
def Place.step (place : Place) : Step → Place
  | .value => { place with isMember := false, inExpr := true }
  | .body => { place with isMember := false }
  | .members owner => { place with owner := some owner, isMember := true }
  | .rawValue owner => { place with owner := some owner, isMember := false, inExpr := true }
  | .closure isBare => { place with isMember := false, inBare := isBare, inExpr := true }

theorem Place.step_body_step (place : Place) (step : Step) :
    (place.step .body).step step = place.step step := by
  cases step <;> rfl

/-! ## Parts -/

/-- An expression or a list of statements. `called` holds for the callee of a call. -/
inductive Fragment where
  | expr (called : Bool) (e : Expr)
  | stmts (stmts : List Stmt)

abbrev Part : Type := Step × Fragment

namespace Part

def value (e : Expr) : Part := (.value, .expr false e)

def body (stmts : List Stmt) : Part := (.body, .stmts stmts)

end Part

def Segment.values : Segment → List Expr
  | .text _ => []
  | .value e => [e]

def Expr.parts : Expr → List Part
  | .array elements _ => elements.map .value
  | .dictionary keys values _ => keys.map .value ++ values.map .value
  | .member base _ _ _ _ => [.value base]
  | .call callee arguments _ _ _ => [(.value, .expr true callee), .value arguments]
  | .closure parameters body _ => [(.closure parameters.isEmpty, .stmts body)]
  | .subscript base index _ => [.value base, .value index]
  | .prefixOp _ operand _ | .postfixOp _ operand _ => [.value operand]
  | .binary lhs _ rhs _ => [.value lhs, .value rhs]
  | .ternary condition yes no _ => [.value condition, .value yes, .value no]
  | .tuple elements _ => elements.map fun argument => .value argument.value
  | .shuffle slots _ => slots.flatMap fun slot => slot.values.map .value
  | .paren inner _ | .optional inner _ | .force inner _ => [.value inner]
  | .interpolation segments _ => segments.flatMap fun segment => segment.values.map .value
  | .literal .. | .name .. | .typeName .. | .code .. | .error .. => []

def Variable.parts (item : Variable) : List Part :=
  item.initializer.toList.map .value ++ item.getter.toList.map .body ++ item.setter.toList.map .body

def Condition.parts : Condition → List Part
  | .test e => [.value e]
  | .binding item => item.parts

def SwitchCase.parts (c : SwitchCase) : List Part :=
  c.patterns.map .value ++ [.body c.body]

def SwitchTarget.parts : SwitchTarget → List Part
  | .returned => []
  | .assigned lhs => [.value lhs]
  | .declared item => item.parts

def Stmt.parts : Stmt → List Part
  | .classDecl head _ members _ | .structDecl head members _ =>
    [(.members head.name, .stmts members)]
  | .protocolDecl _ members _ | .extensionDecl _ _ members _ | .companion members _ =>
    [.body members]
  | .enumDecl head _ elements members _ =>
    (elements.flatMap fun element =>
      element.rawValue.toList.map fun e => (.rawValue head.name, .expr false e)) ++
      [(.members head.name, .stmts members)]
  | .function _ parameters body _ =>
    (parameters.flatMap fun parameter => parameter.default.toList.map .value) ++
      body.toList.map .body
  | .declare item => item.parts
  | .ifStmt conditions body otherwise _ _ =>
    conditions.flatMap Condition.parts ++ .body body :: otherwise.toList.map .body
  | .switchStmt subject cases target _ =>
    .value subject :: (target.toList.flatMap SwitchTarget.parts ++ cases.flatMap SwitchCase.parts)
  | .forEach item collection body _ => [.value item, .value collection, .body body]
  | .whileLoop condition body _ => [.value condition, .body body]
  | .doBlock body cleanup _ => [.body body, .body cleanup]
  | .catchBlock item body _ => item.toList.flatMap Variable.parts ++ [.body body]
  | .deferBlock body _ => [.body body]
  | .throwStmt value _ | .expression value _ => [.value value]
  | .returnStmt value _ => value.toList.map .value
  | .assign lhs rhs _ => [.value lhs, .value rhs]
  | .importDecl .. | .breakStmt .. | .continueStmt .. | .comment .. | .errorStmt .. => []

theorem Expr.step_of_mem_parts {e : Expr} {part : Part} (h : part ∈ e.parts) :
    part.1 = .value ∨ ∃ parameters body info, e = .closure parameters body info ∧
      part = (.closure parameters.isEmpty, .stmts body) := by
  cases e with
  | closure parameters body info =>
    exact .inr ⟨parameters, body, info, rfl, List.mem_singleton.mp h⟩
  | dictionary keys values info =>
    obtain h | h := List.mem_append.mp h <;>
    · obtain ⟨e, -, rfl⟩ := List.mem_map.mp h
      exact .inl rfl
  | array elements info | tuple elements info =>
    obtain ⟨element, -, rfl⟩ := List.mem_map.mp h
    exact .inl rfl
  | shuffle pieces info | interpolation pieces info =>
    obtain ⟨piece, -, h⟩ := List.mem_flatMap.mp h
    obtain ⟨e, -, rfl⟩ := List.mem_map.mp h
    exact .inl rfl
  | literal | name | typeName | code | error => exact absurd h List.not_mem_nil
  | _ =>
    simp only [Expr.parts, List.mem_cons, List.not_mem_nil, or_false] at h
    rcases h with rfl | rfl | rfl <;> exact .inl rfl

theorem Expr.unparenthesized_unparenthesized (e : Expr) :
    e.unparenthesized.unparenthesized = e.unparenthesized := by
  fun_induction Expr.unparenthesized e with
  | case1 inner info ih => exact ih
  | case2 e he => cases e <;> first | rfl | exact absurd rfl (he _ _)

/-! ## Induction -/

/-- How large a fragment is. -/
noncomputable def Fragment.size : Fragment → Nat
  | .expr _ e => sizeOf e
  | .stmts list => sizeOf list

/-- That parts are smaller than a size. -/
def Part.Below (size : Nat) (parts : List Part) : Prop := ∀ part ∈ parts, part.2.size < size

namespace Part.Below

variable {n : Nat} {parts parts' : List Part} {α : Type} [SizeOf α] {list : List α}

theorem nil : Below n [] := List.forall_mem_nil _

theorem cons {part : Part} (hpart : part.2.size < n) (h : Below n parts) :
    Below n (part :: parts) :=
  List.forall_mem_cons.mpr ⟨hpart, h⟩

theorem append (h : Below n parts) (h' : Below n parts') : Below n (parts ++ parts') :=
  List.forall_mem_append.mpr ⟨h, h'⟩

theorem mono {m : Nat} (h : Below m parts) (hle : m ≤ n) : Below n parts :=
  fun part hpart => Nat.lt_of_lt_of_le (h part hpart) hle

theorem flatMap {f : α → List Part} (h : ∀ a, Below (sizeOf a + 1) (f a))
    (hlist : ∀ a ∈ list, sizeOf a < n) : Below n (list.flatMap f) := by
  intro part hpart
  obtain ⟨a, ha, hpart⟩ := List.mem_flatMap.mp hpart
  exact Nat.lt_of_lt_of_le (h a part hpart) (hlist a ha)

theorem map {g : α → Part} (h : ∀ a, (g a).2.size ≤ sizeOf a) (hlist : ∀ a ∈ list, sizeOf a < n) :
    Below n (list.map g) := by
  intro part hpart
  obtain ⟨a, ha, rfl⟩ := List.mem_map.mp hpart
  exact Nat.lt_of_le_of_lt (h a) (hlist a ha)

theorem values {list : List Expr} (hlist : ∀ e ∈ list, sizeOf e < n) : Below n (list.map .value) :=
  map (fun _ => Nat.le_refl _) hlist

theorem bodies {list : List (List Stmt)} (hlist : ∀ body ∈ list, sizeOf body < n) :
    Below n (list.map .body) :=
  map (fun _ => Nat.le_refl _) hlist

theorem ofList (h : sizeOf list ≤ n) : ∀ a ∈ list, sizeOf a < n :=
  fun _ ha => Nat.lt_of_lt_of_le (List.sizeOf_lt_of_mem ha) h

theorem ofOption {value : Option α} (h : sizeOf value ≤ n) : ∀ a ∈ value.toList, sizeOf a < n := by
  rintro a ha
  obtain rfl := Option.mem_toList.mp ha
  rw [Option.some.sizeOf_spec] at h
  omega

end Part.Below

section

open Part.Below

theorem Slot.below_values (slot : Slot) :
    Part.Below (sizeOf slot + 1) (slot.values.map .value) := by
  refine .values ?_
  cases slot with
  | absent label => exact List.forall_mem_nil _
  | present label value => simp +arith [Slot.values]
  | variadic label values => exact ofList (by simp +arith [Slot.values])

theorem Segment.below_values (segment : Segment) :
    Part.Below (sizeOf segment + 1) (segment.values.map .value) := by
  refine .values ?_
  cases segment <;> simp +arith [Segment.values]

theorem Variable.below_parts (item : Variable) : Part.Below (sizeOf item + 1) item.parts := by
  cases item
  refine ((values (ofOption ?_)).append (bodies (ofOption ?_))).append (bodies (ofOption ?_)) <;>
    simp +arith

theorem Condition.below_parts (condition : Condition) :
    Part.Below (sizeOf condition + 1) condition.parts := by
  cases condition with
  | test e => exact cons (by simp +arith [Part.value, Fragment.size]) nil
  | binding item => exact item.below_parts.mono (by simp)

theorem SwitchCase.below_parts (c : SwitchCase) : Part.Below (sizeOf c + 1) c.parts := by
  cases c
  refine (values (ofList ?_)).append (cons ?_ nil) <;> simp +arith [Part.body, Fragment.size]

theorem SwitchTarget.below_parts (target : SwitchTarget) :
    Part.Below (sizeOf target + 1) target.parts := by
  cases target with
  | returned => exact nil
  | assigned lhs => exact cons (by simp +arith [Part.value, Fragment.size]) nil
  | declared item => exact item.below_parts.mono (by simp)

theorem Expr.below_parts (e : Expr) : Part.Below (sizeOf e) e.parts := by
  cases e with
  | array elements info => exact values (ofList (by simp +arith))
  | dictionary keys others info =>
    refine (values (ofList ?_)).append (values (ofList ?_)) <;> simp +arith
  | tuple elements info =>
    refine map ?_ (ofList (by simp +arith))
    rintro ⟨label, value⟩
    simp [Part.value, Fragment.size]
  | shuffle slots info => exact flatMap Slot.below_values (ofList (by simp +arith))
  | interpolation segments info => exact flatMap Segment.below_values (ofList (by simp +arith))
  | literal | name | typeName | code | error => exact nil
  | _ => simp +arith [Part.Below, Expr.parts, Part.value, Fragment.size]

theorem Stmt.below_parts (s : Stmt) : Part.Below (sizeOf s) s.parts := by
  cases s with
  | enumDecl head kind elements members span =>
    -- Lists that hold the parts are smaller than the statement, and the parts smaller than the
    -- lists.
    refine (flatMap ?_ (ofList ?_)).append (cons ?_ nil)
    rintro ⟨⟩
    refine map (fun _ => Nat.le_refl _) (ofOption ?_)
    all_goals simp +arith [Fragment.size]
  | function head parameters body span =>
    refine (flatMap ?_ (ofList ?_)).append (bodies (ofOption ?_))
    rintro ⟨⟩
    refine values (ofOption ?_)
    all_goals simp +arith
  | declare item => exact item.below_parts.mono (by simp +arith)
  | ifStmt conditions body otherwise isGuard span =>
    refine (flatMap Condition.below_parts (ofList ?_)).append (cons ?_ (bodies (ofOption ?_))) <;>
      simp +arith [Part.body, Fragment.size]
  | switchStmt subject cases target span =>
    refine cons ?_ ((flatMap SwitchTarget.below_parts (ofOption ?_)).append
      (flatMap SwitchCase.below_parts (ofList ?_))) <;> simp +arith [Part.value, Fragment.size]
  | catchBlock item body span =>
    refine (flatMap Variable.below_parts (ofOption ?_)).append (cons ?_ nil) <;>
      simp +arith [Part.body, Fragment.size]
  | returnStmt value span => exact values (ofOption (by simp +arith))
  | importDecl | breakStmt | continueStmt | comment | errorStmt => exact nil
  | _ => simp +arith [Part.Below, Stmt.parts, Part.value, Part.body, Fragment.size]

end

/-- What passes from the parts of every node to the node holds of everything. -/
theorem Fragment.induction {P : Place → Fragment → Prop}
    (expr : ∀ place called (e : Expr), (∀ part ∈ e.parts, P (place.step part.1) part.2) →
      P place (.expr called e))
    (stmts : ∀ place (list : List Stmt),
      (∀ s ∈ list, ∀ part ∈ s.parts, P (place.step part.1) part.2) → P place (.stmts list))
    (place : Place) (fragment : Fragment) : P place fragment := by
  match fragment with
  | .expr called e =>
    refine expr place called e fun part hpart => ?_
    have hsize := e.below_parts part hpart
    exact Fragment.induction expr stmts (place.step part.1) part.2
  | .stmts list =>
    refine stmts place list fun s hs part hpart => ?_
    have hsize := s.below_parts part hpart
    have hlist := List.sizeOf_lt_of_mem hs
    exact Fragment.induction expr stmts (place.step part.1) part.2
termination_by fragment.size
decreasing_by
  · exact hsize
  · exact Nat.lt_trans hsize hlist

/-- What passes from the lists of statements right below those of a list to the list holds of every
list. -/
theorem Fragment.stmts_induction {P : List Stmt → Prop}
    (h : ∀ list, (∀ s ∈ list, ∀ {step inside}, (step, Fragment.stmts inside) ∈ s.parts → P inside) →
      P list) (list : List Stmt) : P list := by
  have hfragment : ∀ (place : Place) fragment, ∀ list, fragment = Fragment.stmts list → P list := by
    intro place fragment
    induction place, fragment using Fragment.induction with
    | expr => exact fun _ => Fragment.noConfusion
    | stmts place list ih =>
      rintro _ ⟨⟩
      exact h list fun s hs _ inside hpart => ih s hs _ hpart inside rfl
  exact hfragment {} _ list rfl

end Ferry
