/-
  Ferry.Proofs.Traverse.Finding

  What a survey finds in a node, by the parts of the node.  It finds in a statement what it finds in
  the parts (`ofParts_eq`), and in an expression that it enters what it finds in the parts or at the
  expression itself (`mem_ofExpr_iff`).  Only a dictionary with more keys than values, or more
  values than keys, has parts that a survey of pairs does not see.
-/
import Ferry.Proofs.Traverse.Fragment
import Ferry.Traverse.Survey

namespace Ferry

/-- Whether an expression is no dictionary with keys or values left over. -/
def Expr.isBalanced : Expr → Bool
  | .dictionary keys values _ => keys.length == values.length
  | _ => true

namespace Survey

variable {α : Type} (s : Survey α)

def ofFragment : Fragment → List α
  | .expr _ e => s.ofExpr e
  | .stmts list => s.ofStmts list

def ofPartList (parts : List Part) : List α :=
  parts.flatMap fun part => s.ofFragment part.2

@[simp] theorem ofPartList_nil : s.ofPartList [] = [] := rfl

@[simp] theorem ofPartList_cons (part : Part) (parts : List Part) :
    s.ofPartList (part :: parts) = s.ofFragment part.2 ++ s.ofPartList parts :=
  List.flatMap_cons

@[simp] theorem ofPartList_append (parts more : List Part) :
    s.ofPartList (parts ++ more) = s.ofPartList parts ++ s.ofPartList more :=
  List.flatMap_append

@[simp] theorem ofFragment_expr (called : Bool) (e : Expr) :
    s.ofFragment (.expr called e) = s.ofExpr e := rfl

@[simp] theorem ofFragment_stmts (list : List Stmt) :
    s.ofFragment (.stmts list) = s.ofStmts list := rfl

@[simp] theorem ofFragment_value (e : Expr) : s.ofFragment (Part.value e).2 = s.ofExpr e := rfl

@[simp] theorem ofFragment_body (list : List Stmt) :
    s.ofFragment (Part.body list).2 = s.ofStmts list :=
  rfl

theorem ofExprs_eq_map (es : List Expr) : s.ofExprs es = es.map s.ofExpr := by
  induction es with
  | nil => rfl
  | cons e rest ih => rw [List.map_cons, ← ih]; rfl

theorem flatten_ofExprs (es : List Expr) :
    (s.ofExprs es).flatten = s.ofPartList (es.map .value) := by
  rw [ofExprs_eq_map, ofPartList, List.flatMap_map]
  rfl

theorem ofArguments_eq (elements : List Argument) :
    s.ofArguments elements = s.ofPartList (elements.map fun argument => .value argument.value) := by
  induction elements with
  | nil => rfl
  | cons argument rest ih =>
    obtain ⟨label, value⟩ := argument
    rw [List.map_cons, ofPartList_cons, ← ih]
    rfl

theorem ofSlots_eq (slots : List Slot) :
    s.ofSlots slots = s.ofPartList (slots.flatMap fun slot => slot.values.map .value) := by
  induction slots with
  | nil => rfl
  | cons slot rest ih =>
    rw [List.flatMap_cons, ofPartList_append, ← ih, ← flatten_ofExprs]
    cases slot with
    | absent label => rfl
    | present label value =>
      rw [Slot.values, ofExprs_eq_map, List.map_singleton, List.flatten_singleton]
      rfl
    | variadic label values => rfl

theorem ofSegments_eq (segments : List Segment) :
    s.ofSegments segments =
      s.ofPartList (segments.flatMap fun segment => segment.values.map .value) := by
  induction segments with
  | nil => rfl
  | cons segment rest ih =>
    rw [List.flatMap_cons, ofPartList_append, ← ih, ← flatten_ofExprs]
    cases segment with
    | text content => rfl
    | value e =>
      rw [Segment.values, ofExprs_eq_map, List.map_singleton, List.flatten_singleton]
      rfl

theorem ofValue_eq (value : Option Expr) :
    s.ofValue value = s.ofPartList (value.toList.map .value) := by
  cases value with
  | none => rfl
  | some e => exact (List.append_nil _).symm

theorem ofBody_eq (body : Option (List Stmt)) :
    s.ofBody body = s.ofPartList (body.toList.map .body) := by
  cases body with
  | none => rfl
  | some list => exact (List.append_nil _).symm

theorem ofVariable_eq (item : Variable) : s.ofVariable item = s.ofPartList item.parts := by
  obtain ⟨name, ty, initializer, isLet, isStatic, getter, setter, access, receiver, span⟩ := item
  rw [Variable.parts, ofPartList_append, ofPartList_append, ← ofValue_eq, ← ofBody_eq, ← ofBody_eq]
  rfl

theorem ofParameters_eq (parameters : List Parameter) :
    s.ofParameters parameters =
      s.ofPartList (parameters.flatMap fun parameter => parameter.default.toList.map .value) := by
  induction parameters with
  | nil => rfl
  | cons parameter rest ih =>
    obtain ⟨label, name, ty, default, isVariadic⟩ := parameter
    rw [List.flatMap_cons, ofPartList_append, ← ih, ← ofValue_eq]
    rfl

theorem ofElements_eq (owner : String) (elements : List EnumElement) :
    s.ofElements elements =
      s.ofPartList (elements.flatMap fun element =>
        element.rawValue.toList.map fun e => (.rawValue owner, .expr false e)) := by
  induction elements with
  | nil => rfl
  | cons element rest ih =>
    obtain ⟨name, payload, rawValue, span⟩ := element
    rw [List.flatMap_cons, ofPartList_append, ← ih]
    cases rawValue with
    | none => rfl
    | some e => simp [ofElements, ofValue]

theorem ofConditions_eq (conditions : List Condition) :
    s.ofConditions conditions = s.ofPartList (conditions.flatMap Condition.parts) := by
  induction conditions with
  | nil => rfl
  | cons condition rest ih =>
    rw [List.flatMap_cons, ofPartList_append, ← ih]
    cases condition with
    | test e => simp [ofConditions, Condition.parts]
    | binding item => rw [ofConditions, ofVariable_eq]; rfl

theorem ofCases_eq (cases : List SwitchCase) :
    s.ofCases cases = s.ofPartList (cases.flatMap SwitchCase.parts) := by
  induction cases with
  | nil => rfl
  | cons c rest ih =>
    obtain ⟨patterns, body, span⟩ := c
    rw [List.flatMap_cons, ofPartList_append, ← ih, ofCases, flatten_ofExprs]
    simp [SwitchCase.parts]

theorem ofTarget_eq (target : Option SwitchTarget) :
    s.ofTarget target = s.ofPartList (target.toList.flatMap SwitchTarget.parts) := by
  cases target with
  | none => rfl
  | some target =>
    rw [Option.toList_some, List.flatMap_singleton]
    cases target with
    | returned => rfl
    | assigned lhs => exact (List.append_nil _).symm
    | declared item => exact s.ofVariable_eq item

theorem ofHandled_eq (item : Option Variable) :
    s.ofHandled item = s.ofPartList (item.toList.flatMap Variable.parts) := by
  cases item with
  | none => rfl
  | some item =>
    rw [Option.toList_some, List.flatMap_singleton]
    exact s.ofVariable_eq item

theorem ofParts_eq (stmt : Stmt) : s.ofParts stmt = s.ofPartList stmt.parts := by
  cases stmt with
  | enumDecl head kind elements members span =>
    simp [ofParts, Stmt.parts, s.ofElements_eq head.name]
  | function head parameters body span => simp [ofParts, Stmt.parts, ofParameters_eq, ofBody_eq]
  | declare item => exact s.ofVariable_eq item
  | ifStmt conditions body otherwise isGuard span =>
    simp [ofParts, Stmt.parts, ofConditions_eq, ofBody_eq]
  | switchStmt subject cases target span => simp [ofParts, Stmt.parts, ofCases_eq, ofTarget_eq]
  | catchBlock item body span => simp [ofParts, Stmt.parts, ofHandled_eq]
  | returnStmt value span => exact s.ofValue_eq value
  | _ => simp [ofParts, Stmt.parts]

theorem ofStmts_eq (list : List Stmt) :
    s.ofStmts list =
      list.flatMap fun stmt => s.before stmt ++ s.ofPartList stmt.parts ++ s.after stmt := by
  induction list with
  | nil => rfl
  | cons stmt rest ih => rw [List.flatMap_cons, ← ih, ← ofParts_eq]; rfl

variable {s} {x : α}

theorem ofStmts_flatMap {β : Type} (f : β → List Stmt) (list : List β) :
    s.ofStmts (list.flatMap f) = list.flatMap fun x => s.ofStmts (f x) := by
  simp only [ofStmts_eq, List.flatMap_assoc]

theorem mem_ofPartList {parts : List Part} :
    x ∈ s.ofPartList parts ↔ ∃ part ∈ parts, x ∈ s.ofFragment part.2 :=
  List.mem_flatMap

theorem mem_of_mem_zipWith {keys values : List (List α)}
    (h : x ∈ (List.zipWith (fun key value => key ++ value) keys values).flatten) :
    x ∈ keys.flatten ++ values.flatten := by
  induction keys generalizing values with
  | nil => exact absurd h List.not_mem_nil
  | cons key keys ih =>
    cases values with
    | nil => exact absurd h List.not_mem_nil
    | cons value values =>
      rw [List.zipWith_cons_cons, List.flatten_cons, List.mem_append] at h
      obtain h | h := h
      · simp only [List.flatten_cons, List.mem_append] at h ⊢
        exact h.imp .inl .inl
      · have hrest := List.mem_append.mp (ih h)
        simp only [List.flatten_cons, List.mem_append]
        exact hrest.imp .inr .inr

theorem mem_zipWith_of_length {keys values : List (List α)} (hlength : keys.length = values.length)
    (h : x ∈ keys.flatten ++ values.flatten) :
    x ∈ (List.zipWith (fun key value => key ++ value) keys values).flatten := by
  induction keys generalizing values with
  | nil =>
    rw [List.eq_nil_of_length_eq_zero hlength.symm] at h
    exact h
  | cons key keys ih =>
    cases values with
    | nil => exact absurd hlength (Nat.succ_ne_zero _)
    | cons value values =>
      have hrest := @ih values (Nat.succ.inj hlength)
      rw [List.zipWith_cons_cons, List.flatten_cons]
      simp only [List.flatten_cons, List.mem_append] at h hrest ⊢
      obtain (h | h) | h | h := h
      · exact .inl (.inl h)
      · exact .inr (hrest (.inl h))
      · exact .inl (.inr h)
      · exact .inr (hrest (.inr h))

theorem mem_visit_iff {e : Expr} {parts : Unit → List α} :
    x ∈ s.visit e parts ↔ s.enters e = true ∧ (x ∈ parts () ∨ x ∈ s.expr e) := by
  rw [visit]
  split
  next henters => rw [List.mem_append, and_iff_right henters]
  next henters => exact iff_of_false List.not_mem_nil fun h => henters h.1

theorem mem_of_mem_ofExpr {e : Expr} (h : x ∈ s.ofExpr e) :
    s.enters e = true ∧ (x ∈ s.ofPartList e.parts ∨ x ∈ s.expr e) := by
  cases e with
  | dictionary keys values info =>
    obtain ⟨henters, h⟩ := mem_visit_iff.mp h
    refine ⟨henters, h.imp_left fun h => ?_⟩
    rw [Expr.parts, ofPartList_append, ← flatten_ofExprs, ← flatten_ofExprs]
    -- In pairs, keys and values are mixed; what is beyond the shorter list is not found.
    split at h
    next => exact mem_of_mem_zipWith h
    next => exact h
  | call callee arguments hasTrailing isPure info =>
    obtain ⟨henters, h⟩ := mem_visit_iff.mp h
    refine ⟨henters, h.imp_left fun h => ?_⟩
    simp only [Expr.parts, ofPartList_cons, ofPartList_nil, ofFragment_expr, ofFragment_value,
      List.append_nil, List.mem_append]
    -- A survey may go to the arguments before the callee.
    split at h
    next => exact (List.mem_append.mp h).symm
    next => exact List.mem_append.mp h
  | array elements info =>
    rwa [ofExpr, mem_visit_iff, flatten_ofExprs] at h
  | tuple elements info => rwa [ofExpr, mem_visit_iff, ofArguments_eq] at h
  | shuffle slots info => rwa [ofExpr, mem_visit_iff, ofSlots_eq] at h
  | interpolation segments info => rwa [ofExpr, mem_visit_iff, ofSegments_eq] at h
  | _ => simpa [ofExpr, mem_visit_iff, Expr.parts] using h

theorem mem_ofExpr_iff {e : Expr} (hbalanced : s.paired = true → e.isBalanced = true) :
    x ∈ s.ofExpr e ↔ s.enters e = true ∧ (x ∈ s.ofPartList e.parts ∨ x ∈ s.expr e) := by
  refine ⟨mem_of_mem_ofExpr, ?_⟩
  rintro ⟨henters, h⟩
  cases e with
  | dictionary keys values info =>
    refine mem_visit_iff.mpr ⟨henters, h.imp_left fun h => ?_⟩
    rw [Expr.parts, ofPartList_append, ← flatten_ofExprs, ← flatten_ofExprs] at h
    split
    -- With as many keys as values nothing is cut off.
    next hpaired =>
      refine mem_zipWith_of_length ?_ h
      rw [ofExprs_eq_map, ofExprs_eq_map, List.length_map, List.length_map]
      exact eq_of_beq (hbalanced hpaired)
    next => exact h
  | call callee arguments hasTrailing isPure info =>
    refine mem_visit_iff.mpr ⟨henters, h.imp_left fun h => ?_⟩
    simp only [Expr.parts, ofPartList_cons, ofPartList_nil, ofFragment_expr, ofFragment_value,
      List.append_nil, List.mem_append] at h
    split
    next => exact List.mem_append.mpr h.symm
    next => exact List.mem_append.mpr h
  | array elements info =>
    rw [ofExpr, mem_visit_iff, flatten_ofExprs]
    exact ⟨henters, h⟩
  | tuple elements info =>
    rw [ofExpr, mem_visit_iff, ofArguments_eq]
    exact ⟨henters, h⟩
  | shuffle slots info =>
    rw [ofExpr, mem_visit_iff, ofSlots_eq]
    exact ⟨henters, h⟩
  | interpolation segments info =>
    rw [ofExpr, mem_visit_iff, ofSegments_eq]
    exact ⟨henters, h⟩
  | _ =>
    simp only [ofExpr, mem_visit_iff]
    refine ⟨henters, ?_⟩
    simpa [Expr.parts] using h

theorem mem_ofStmts_iff {list : List Stmt} :
    x ∈ s.ofStmts list ↔
      ∃ stmt ∈ list, x ∈ s.before stmt ∨ x ∈ s.ofPartList stmt.parts ∨ x ∈ s.after stmt := by
  simp only [ofStmts_eq, List.mem_flatMap, List.mem_append, or_assoc]

theorem ofExpr_eq_nil {e : Expr} (hparts : ∀ part ∈ e.parts, s.ofFragment part.2 = [])
    (hown : s.expr e = []) : s.ofExpr e = [] := by
  refine List.eq_nil_iff_forall_not_mem.mpr fun x hx => ?_
  obtain ⟨-, hx | hx⟩ := mem_of_mem_ofExpr hx
  · obtain ⟨part, hpart, hx⟩ := mem_ofPartList.mp hx
    rw [hparts part hpart] at hx
    exact List.not_mem_nil hx
  · rw [hown] at hx
    exact List.not_mem_nil hx

theorem ofExpr_eq_nil_iff {e : Expr} (hbalanced : s.paired = true → e.isBalanced = true)
    (henters : s.enters e = true) :
    s.ofExpr e = [] ↔ (∀ part ∈ e.parts, s.ofFragment part.2 = []) ∧ s.expr e = [] := by
  refine ⟨fun h => ?_, fun h => ofExpr_eq_nil h.1 h.2⟩
  have hnone : ∀ x, ¬(x ∈ s.ofPartList e.parts ∨ x ∈ s.expr e) := fun x hx =>
    List.eq_nil_iff_forall_not_mem.mp h x ((mem_ofExpr_iff hbalanced).mpr ⟨henters, hx⟩)
  refine ⟨fun part hpart => ?_, List.eq_nil_iff_forall_not_mem.mpr fun x hx => hnone x (.inr hx)⟩
  exact List.eq_nil_iff_forall_not_mem.mpr fun x hx =>
    hnone x (.inl (mem_ofPartList.mpr ⟨part, hpart, hx⟩))

theorem ofStmts_eq_nil_iff {list : List Stmt} :
    s.ofStmts list = [] ↔
      ∀ stmt ∈ list, s.before stmt = [] ∧ (∀ part ∈ stmt.parts, s.ofFragment part.2 = []) ∧
        s.after stmt = [] := by
  simp only [ofStmts_eq, ofPartList, List.flatMap_eq_nil_iff, List.append_eq_nil_iff, and_assoc]

end Survey

end Ferry
