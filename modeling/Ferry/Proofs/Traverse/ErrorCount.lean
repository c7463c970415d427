/-
  Ferry.Proofs.Traverse.ErrorCount

  Counting error nodes.  The error nodes of a node are its own and those of its parts that are seen
  (`Expr.errors_eq`, `Stmt.errors_eq`): all parts but for keys without values and values
  without keys.

  A name may stand for something that is put in its place later.  It then counts for as many error
  nodes as that has, its load.
-/
import Ferry.Program.Placeholder
import Ferry.Proofs.Traverse.Trace
import Mathlib.Algebra.BigOperators.Group.List.Basic
import Mathlib.Algebra.GroupWithZero.Nat

namespace Ferry

/-- Error nodes; a name shows as many as its load. -/
def errorSurvey (load : String → Nat) : Survey Diagnostic where
  expr
    | .error diagnostic _ => [diagnostic]
    | .name n _ _ _ => List.replicate (load n) (Diagnostic.ofCode .unrecognizedSyntax "")
    | _ => []
  before
    | .errorStmt diagnostic _ => [diagnostic]
    | _ => []
  paired := true

theorem errorSurvey_zero : errorSurvey 0 = placeholderSurvey := by
  rw [errorSurvey, placeholderSurvey]
  congr
  funext e
  cases e <;> rfl

def Fragment.errors (fragment : Fragment) (load : String → Nat) : Nat :=
  ((errorSurvey load).ofFragment fragment).length

def Expr.errors (e : Expr) (load : String → Nat) : Nat :=
  ((errorSurvey load).ofExpr e).length

def stmtErrors (list : List Stmt) (load : String → Nat) : Nat :=
  ((errorSurvey load).ofStmts list).length

def Stmt.errors (s : Stmt) : (load : String → Nat) → Nat :=
  stmtErrors [s]

theorem length_placeholders (file : SourceFile) :
    file.placeholders.length = stmtErrors file.declarations 0 + stmtErrors file.statements 0 := by
  rw [SourceFile.placeholders, ← errorSurvey_zero, Survey.ofFile, List.length_append]
  rfl

/-! ## Nodes -/

def Expr.ownErrors : Expr → (load : String → Nat) → Nat
  | .error .., _ => 1
  | .name n _ _ _, load => load n
  | _, _ => 0

@[simp] def Stmt.ownErrors : Stmt → Nat
  | .errorStmt .. => 1
  | _ => 0

/-- The parts that are seen. -/
def Expr.seen : Expr → List Part
  | .dictionary keys values _ =>
    (keys.take values.length).map .value ++ (values.take keys.length).map .value
  | e => e.parts

def partErrors (parts : List Part) (load : String → Nat) : Nat :=
  (parts.map fun part => part.2.errors load).sum

variable {load : String → Nat}

@[simp] theorem errors_expr (called : Bool) (e : Expr) :
    (Fragment.expr called e).errors load = e.errors load := rfl

@[simp] theorem errors_stmts (list : List Stmt) :
    (Fragment.stmts list).errors load = stmtErrors list load := rfl

@[simp] theorem partErrors_nil : partErrors [] load = 0 := rfl

@[simp] theorem partErrors_cons (part : Part) (parts : List Part) :
    partErrors (part :: parts) load = part.2.errors load + partErrors parts load := rfl

@[simp] theorem partErrors_append (parts more : List Part) :
    partErrors (parts ++ more) load = partErrors parts load + partErrors more load := by
  simp [partErrors]

@[simp] theorem errors_value (e : Expr) : (Part.value e).2.errors load = e.errors load := rfl

@[simp] theorem errors_body (list : List Stmt) :
    (Part.body list).2.errors load = stmtErrors list load := rfl

@[simp] theorem partErrors_map {α : Type} (f : α → Part) (list : List α) :
    partErrors (list.map f) load = (list.map fun a => (f a).2.errors load).sum := by
  simp [partErrors, Function.comp_def]

@[simp] theorem partErrors_flatMap {α : Type} (f : α → List Part) (list : List α) :
    partErrors (list.flatMap f) load = (list.map fun a => partErrors (f a) load).sum := by
  induction list with
  | nil => rfl
  | cons a rest ih => simp [ih]

theorem sum_zipWith_add {α : Type} (f g : α → Nat) (keys values : List α) :
    (List.zipWith (fun key value => f key + g value) keys values).sum =
      ((keys.take values.length).map f).sum + ((values.take keys.length).map g).sum := by
  induction keys generalizing values with
  | nil => simp
  | cons key keys ih =>
    cases values with
    | nil => simp
    | cons value values =>
      simp only [List.zipWith_cons_cons, List.sum_cons, ih, List.length_cons, List.take_succ_cons,
        List.map_cons]
      omega

namespace Survey

variable {α : Type} {f : Expr → List α} {g : Stmt → List α}

theorem length_ofPartList (s : Survey α) (parts : List Part) :
    (s.ofPartList parts).length = (parts.map fun part => (s.ofFragment part.2).length).sum := by
  simp [ofPartList, List.length_flatMap]

theorem length_ofExpr {s : Survey α} (hs : s = { expr := f, before := g, paired := true })
    (e : Expr) : (s.ofExpr e).length =
      (f e).length + (e.seen.map fun part => (s.ofFragment part.2).length).sum := by
  subst hs
  cases e with
  | dictionary keys values info =>
    rw [ofExpr, visit, ofExprs_eq_map, ofExprs_eq_map]
    show (List.flatten _ ++ _).length = _
    rw [List.length_append, List.length_flatten, List.map_zipWith, List.zipWith_map, Nat.add_comm,
      Expr.seen, List.map_append, List.sum_append, List.map_map, List.map_map]
    simp only [List.length_append]
    exact congrArg (_ + ·) (sum_zipWith_add (fun e => (ofExpr _ e).length) _ keys values)
  | _ =>
    rw [ofExpr_eq (by simp) rfl]
    show (_ ++ _ : List α).length = _
    rw [List.length_append, length_ofPartList, Nat.add_comm]
    rfl

theorem length_ofStmts {s : Survey α} (hs : s = { expr := f, before := g, paired := true })
    (list : List Stmt) :
    (s.ofStmts list).length = (list.map fun stmt =>
      (g stmt).length + (stmt.parts.map fun part => (s.ofFragment part.2).length).sum).sum := by
  subst hs
  simp [ofStmts_eq, List.length_flatMap, length_ofPartList]

end Survey

theorem Expr.errors_eq (e : Expr) :
    e.errors load = e.ownErrors load + partErrors e.seen load := by
  have hown : ((errorSurvey load).expr e).length = e.ownErrors load := by
    cases e <;> simp [errorSurvey, Expr.ownErrors]
  rw [Expr.errors, ← hown]
  exact Survey.length_ofExpr rfl e

/-! ### Expressions -/

section

variable (load)

@[simp] theorem Expr.errors_literal (value : Literal) (info : Info) :
    (Expr.literal value info).errors load = 0 := rfl

@[simp] theorem Expr.errors_array (elements : List Expr) (info : Info) :
    (Expr.array elements info).errors load = (elements.map (·.errors load)).sum := by
  rw [Expr.errors_eq]
  simp [ownErrors, seen, parts]

@[simp] theorem Expr.errors_name (n : String) (isLibrary isImplicit : Bool) (info : Info) :
    (Expr.name n isLibrary isImplicit info).errors load = load n := by
  rw [Expr.errors_eq]
  simp [ownErrors, seen, parts]

@[simp] theorem Expr.errors_member (base : Expr) (n : String) (isLibrary : Bool)
    (style : Option EnumKind) (info : Info) :
    (Expr.member base n isLibrary style info).errors load = base.errors load := by
  rw [Expr.errors_eq]
  simp [ownErrors, seen, parts]

@[simp] theorem Expr.errors_call (callee arguments : Expr) (hasTrailing isPure : Bool)
    (info : Info) :
    (Expr.call callee arguments hasTrailing isPure info).errors load = callee.errors load +
    arguments.errors load := by
  rw [Expr.errors_eq]
  simp [ownErrors, seen, parts]

@[simp] theorem Expr.errors_closure (parameters : List ClosureParameter) (body : List Stmt)
    (info : Info) :
    (Expr.closure parameters body info).errors load = stmtErrors body load := by
  rw [Expr.errors_eq]
  simp [ownErrors, seen, parts]

@[simp] theorem Expr.errors_subscript (base index : Expr) (info : Info) :
    (Expr.subscript base index info).errors load = base.errors load + index.errors load := by
  rw [Expr.errors_eq]
  simp [ownErrors, seen, parts]

@[simp] theorem Expr.errors_prefixOp (op : String) (operand : Expr) (info : Info) :
    (Expr.prefixOp op operand info).errors load = operand.errors load := by
  rw [Expr.errors_eq]
  simp [ownErrors, seen, parts]

@[simp] theorem Expr.errors_postfixOp (op : String) (operand : Expr) (info : Info) :
    (Expr.postfixOp op operand info).errors load = operand.errors load := by
  rw [Expr.errors_eq]
  simp [ownErrors, seen, parts]

@[simp] theorem Expr.errors_binary (lhs : Expr) (op : String) (rhs : Expr) (info : Info) :
    (Expr.binary lhs op rhs info).errors load = lhs.errors load + rhs.errors load := by
  rw [Expr.errors_eq]
  simp [ownErrors, seen, parts]

@[simp] theorem Expr.errors_ternary (condition yes no : Expr) (info : Info) :
    (Expr.ternary condition yes no info).errors load = condition.errors load + yes.errors load +
    no.errors load := by
  rw [Expr.errors_eq]
  simp [ownErrors, seen, parts, Nat.add_assoc]

@[simp] theorem Expr.errors_typeName (n : String) (info : Info) :
    (Expr.typeName n info).errors load = 0 := rfl

@[simp] theorem Expr.errors_tuple (elements : List Argument) (info : Info) :
    (Expr.tuple elements info).errors load = (elements.map (·.value.errors load)).sum := by
  rw [Expr.errors_eq]
  simp [ownErrors, seen, parts]

@[simp] theorem Expr.errors_shuffle (slots : List Slot) (info : Info) :
    (Expr.shuffle slots info).errors load =
      (slots.map fun slot => (slot.values.map (·.errors load)).sum).sum := by
  rw [Expr.errors_eq]
  simp [ownErrors, seen, parts]

@[simp] theorem Expr.errors_paren (inner : Expr) (info : Info) :
    (Expr.paren inner info).errors load = inner.errors load := by
  rw [Expr.errors_eq]
  simp [ownErrors, seen, parts]

@[simp] theorem Expr.errors_optional (inner : Expr) (info : Info) :
    (Expr.optional inner info).errors load = inner.errors load := by
  rw [Expr.errors_eq]
  simp [ownErrors, seen, parts]

@[simp] theorem Expr.errors_force (inner : Expr) (info : Info) :
    (Expr.force inner info).errors load = inner.errors load := by
  rw [Expr.errors_eq]
  simp [ownErrors, seen, parts]

@[simp] theorem Expr.errors_interpolation (segments : List Segment) (info : Info) :
    (Expr.interpolation segments info).errors load =
      (segments.map fun segment => (segment.values.map (·.errors load)).sum).sum := by
  rw [Expr.errors_eq]
  simp [ownErrors, seen, parts]

@[simp] theorem Expr.errors_code (text : String) (info : Info) :
    (Expr.code text info).errors load = 0 := rfl

theorem Expr.errors_dictionary (entries : List (Expr × Expr)) (info : Info) :
    (Expr.dictionary (entries.map Prod.fst) (entries.map Prod.snd) info).errors load =
      (entries.map fun entry => entry.1.errors load + entry.2.errors load).sum := by
  rw [Expr.errors_eq]
  simp [ownErrors, seen, List.take_of_length_le, List.sum_map_add]

end

@[simp] theorem stmtErrors_nil : stmtErrors [] load = 0 := rfl

theorem stmtErrors_cons (s : Stmt) (rest : List Stmt) :
    stmtErrors (s :: rest) load = s.errors load + stmtErrors rest load := by
  simp [Stmt.errors, stmtErrors, Survey.ofStmts, Nat.add_assoc]

theorem stmtErrors_eq_sum (list : List Stmt) :
    stmtErrors list load = (list.map fun s => s.errors load).sum := by
  induction list with
  | nil => rfl
  | cons s rest ih => rw [stmtErrors_cons, ih, List.map_cons, List.sum_cons]

@[simp] theorem stmtErrors_append (list more : List Stmt) :
    stmtErrors (list ++ more) load = stmtErrors list load + stmtErrors more load := by
  simp [stmtErrors_eq_sum]

theorem stmtErrors_flatMap {α : Type} (f : α → List Stmt) (list : List α) :
    stmtErrors (list.flatMap f) load = (list.map fun a => stmtErrors (f a) load).sum := by
  induction list with
  | nil => rfl
  | cons a rest ih => rw [List.flatMap_cons, stmtErrors_append, ih, List.map_cons, List.sum_cons]

theorem Stmt.errors_eq (s : Stmt) : s.errors load = s.ownErrors + partErrors s.parts load := by
  have hown : ((errorSurvey load).before s).length = s.ownErrors := by
    cases s <;> rfl
  have hlength := Survey.length_ofStmts (s := errorSurvey load) rfl [s]
  rw [List.map_singleton, List.sum_singleton] at hlength
  rw [← hown]
  exact hlength

/-! ## Changed parts -/

theorem Expr.seen_subset (e : Expr) : e.seen ⊆ e.parts := by
  cases e with
  | dictionary keys values info =>
    refine List.append_subset.mpr ⟨fun part h => ?_, fun part h => ?_⟩
    · exact List.mem_append_left _ (List.map_subset _ (List.take_subset _ _) h)
    · exact List.mem_append_right _ (List.map_subset _ (List.take_subset _ _) h)
  | _ => exact List.Subset.refl _

theorem Expr.seen_mapParts (φ : Change) (e : Expr) : (e.mapParts φ).seen = e.seen.map φ.onPart := by
  have hparts := Expr.parts_mapParts φ e
  cases e with
  | dictionary keys values info => simp [Expr.mapParts, Expr.seen, List.map_take, Function.comp_def]
  | _ => exact hparts

variable {load' : String → Nat} {φ : Change}

theorem partErrors_onPart {parts : List Part}
    (h : ∀ part ∈ parts, (φ.onPart part).2.errors load = part.2.errors load') :
    partErrors (parts.map φ.onPart) load = partErrors parts load' := by
  rw [partErrors, partErrors, List.map_map]
  exact congrArg List.sum (List.map_congr_left h)

theorem Expr.errors_mapParts {e : Expr}
    (h : ∀ part ∈ e.parts, (φ.onPart part).2.errors load = part.2.errors load')
    (hown : e.ownErrors load = e.ownErrors load') :
    (e.mapParts φ).errors load = e.errors load' := by
  have hsame : (e.mapParts φ).ownErrors load = e.ownErrors load := by cases e <;> rfl
  rw [Expr.errors_eq, Expr.errors_eq, hsame, hown, Expr.seen_mapParts,
    partErrors_onPart fun part hpart => h part (e.seen_subset hpart)]

theorem Stmt.errors_mapParts {s : Stmt}
    (h : ∀ part ∈ s.parts, (φ.onPart part).2.errors load = part.2.errors load') :
    (s.mapParts φ).errors load = s.errors load' := by
  have hown : (s.mapParts φ).ownErrors = s.ownErrors := by cases s <;> rfl
  rw [Stmt.errors_eq, Stmt.errors_eq, hown, Stmt.parts_mapParts, partErrors_onPart h]

/-! ## Transforms -/

/-- Steps of a transform that each keep the number of error nodes keep it in everything.  The names
may stand for something else before them. -/
theorem Transform.errors_onFragment {t : Transform}
    (henters : ∀ e, t.enters e = false → e.errors load = e.errors load')
    (hdescends : ∀ s, t.descends s = false → s.errors load = s.errors load')
    (hexpr : ∀ called (e : Expr) (φ : Change),
      (∀ part ∈ e.parts, (φ.onPart part).2.errors load = part.2.errors load') →
        (t.expr called (e.mapParts φ)).errors load = e.errors load')
    (hstmt : ∀ owner s, stmtErrors (t.stmt owner s) load = s.errors load)
    (hblock : ∀ list, stmtErrors (t.block list) load = stmtErrors list load)
    (place : Place) (fragment : Fragment) (owner : Option String) :
    (t.onFragment owner fragment).errors load = fragment.errors load' := by
  induction place, fragment using Fragment.induction generalizing owner with
  | expr place called e ih =>
    rw [onFragment, errors_expr, errors_expr, onExpr_eq_mapParts]
    split
    next =>
      refine hexpr called e _ fun part hpart => ?_
      rw [onPart_change]
      exact ih part hpart _
    next hskip => exact henters e (Bool.not_eq_true _ ▸ hskip)
  | stmts place list ih =>
    have hstmts : ∀ s ∈ list, stmtErrors (t.stmt owner (t.onStmt owner s)) load =
        s.errors load' := by
      intro s hs
      rw [hstmt, onStmt_eq]
      split
      next =>
        refine Stmt.errors_mapParts fun part hpart => ?_
        rw [onPart_change]
        exact ih s hs part hpart _
      next hskip => exact hdescends s (Bool.not_eq_true _ ▸ hskip)
    rw [onFragment, errors_stmts, errors_stmts, onStmts_eq, hblock, stmtErrors_flatMap,
      List.map_congr_left hstmts, stmtErrors_eq_sum]

end Ferry
