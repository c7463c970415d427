/-
  Ferry.Proofs.Program.Evaluation

  Values of the expressions that patterns come to: members, `==`, `is`, `as`, and `&&`, which looks
  at its right side only if the left one is true.  A member that a value does not have and a cast to
  a type that it is not of have no value (`World.eval` is `none`).  What all other expressions come
  to is left to a `World`.

  The names of a match are declared one after the other (`World.boundInOrder`), so a later one sees
  the earlier ones in place of what was there before.
-/
import Ferry.Source.Pattern
import Mathlib.Data.List.Forall2

namespace Ferry

open Source (PatternMatch PatternVariable plainBinary plainMember tupleComponents)

/-! ## Values -/

mutual

/-- Values: tuples, cases of enumerations with their data, and all others. -/
inductive Value where
  | bool (b : Bool)
  | object (id : Nat)
  | tuple (components : Fields)
  | enumCase (owner name : String) (payload : Fields)
deriving DecidableEq, Repr

/-- Values in a row, some of them labeled. -/
inductive Fields where
  | nil
  | cons (label : Option String) (value : Value) (rest : Fields)
deriving DecidableEq, Repr

end

namespace Fields

def at? : Fields → Nat → Option Value
  | nil, _ => none
  | cons _ value _, 0 => some value
  | cons _ _ rest, i + 1 => rest.at? i

def named? : Fields → String → Option Value
  | nil, _ => none
  | cons label value rest, name => if label = some name then some value else rest.named? name

end Fields

namespace Value

def isCase (owner name : String) : Value → Bool
  | enumCase o n _ => o == owner && n == name
  | _ => false

theorem exists_of_isCase {owner name : String} {v : Value} (h : v.isCase owner name = true) :
    ∃ payload, v = .enumCase owner name payload := by
  cases v with
  | enumCase o n payload =>
    rw [isCase, Bool.and_eq_true, beq_iff_eq, beq_iff_eq] at h
    obtain ⟨rfl, rfl⟩ := h
    exact ⟨payload, rfl⟩
  | _ => cases h

/-- A component of a tuple or of the data of a case. -/
def component? : Value → String → Option Value
  | tuple components, name => (tupleComponents.idxOf? name).bind components.at?
  | enumCase _ _ payload, name => payload.named? name
  | _, _ => none

end Value

/-! ## Expressions -/

abbrev Environment := String → Option Value

namespace Environment

def set (env : Environment) (name : String) (value : Value) : Environment :=
  fun other => if other = name then some value else env other

end Environment

/-- What the values of expressions rest on. -/
structure World where
  isInstance : Value → String → Bool
  /-- Members of types. -/
  static : (owner name : String) → Option Value
  /-- Members of values other than their components. -/
  field : Value → String → Option Value
  /-- All other expressions. -/
  other : Environment → Expr → Option Value

def Expr.typeName? : Expr → Option String
  | .typeName ty _ => some ty
  | _ => none

/-- `&&` of two values, the second one only if it counts. -/
def conjunction : (lhs rhs : Option Value) → Option Value
  | some (.bool true), rhs => rhs
  | some (.bool false), _ => some (.bool false)
  | _, _ => none

namespace World

variable (w : World)

def project (value : Value) (name : String) : Option Value :=
  value.component? name <|> w.field value name

/-- What the right side of `is` tests for: a type, or a case of an enumeration. -/
def test? : Expr → Option (Value → Bool)
  | .typeName ty _ => some (w.isInstance · ty)
  | .member base name _ _ _ => base.typeName?.map fun owner => Value.isCase owner name
  | _ => none

/-- A value as one of a type. -/
def cast? (value : Value) (ty : String) : Option Value :=
  if w.isInstance value ty then some value else none

def eval (env : Environment) : Expr → Option Value
  | .typeName _ _ => none
  | .name name _ _ _ => env name
  | .member base name _ _ _ =>
    match base.typeName? with
    | some owner => w.static owner name
    | none => (eval env base).bind (w.project · name)
  | .binary lhs op rhs info =>
    if op = "&&" then conjunction (eval env lhs) (eval env rhs)
    else if op = "==" then
      (eval env lhs).bind fun a => (eval env rhs).map fun b => .bool (decide (a = b))
    else if op = "is" then
      (w.test? rhs).bind fun test => (eval env lhs).map fun a => .bool (test a)
    else if op = "as" then
      rhs.typeName?.bind fun ty => (eval env lhs).bind (w.cast? · ty)
    else w.other env (.binary lhs op rhs info)
  | e => w.other env e

section

variable {w} {env : Environment} {subject : Expr} {v : Value}

theorem eval_conjunction (lhs rhs : Expr) :
    w.eval env (plainBinary lhs "&&" rhs) = conjunction (w.eval env lhs) (w.eval env rhs) := by
  rw [plainBinary, eval, if_pos rfl]

theorem eval_equal {other : Expr} {u : Value} (h : w.eval env subject = some v)
    (hother : w.eval env other = some u) :
    w.eval env (plainBinary subject "==" other) = some (.bool (decide (v = u))) := by
  rw [plainBinary, eval, if_neg (by decide), if_pos rfl, h, hother]
  rfl

theorem eval_isType (ty : String) (h : w.eval env subject = some v) :
    w.eval env (plainBinary subject "is" (.typeName ty {})) = some (.bool (w.isInstance v ty)) := by
  rw [plainBinary, eval, if_neg (by decide), if_neg (by decide), if_pos rfl, h]
  rfl

theorem eval_isCase (owner name : String) (h : w.eval env subject = some v) :
    w.eval env (plainBinary subject "is" (plainMember (.typeName owner {}) name)) =
      some (.bool (v.isCase owner name)) := by
  rw [plainBinary, eval, if_neg (by decide), if_neg (by decide), if_pos rfl, h]
  rfl

theorem eval_cast {ty : String} (h : w.eval env subject = some v) (his : w.isInstance v ty = true) :
    w.eval env (plainBinary subject "as" (.typeName ty {})) = some v := by
  rw [plainBinary, eval, if_neg (by decide), if_neg (by decide), if_neg (by decide), if_pos rfl, h]
  exact if_pos his

theorem eval_static (owner name : String) :
    w.eval env (plainMember (.typeName owner {}) name) = w.static owner name := by
  rw [plainMember, eval]
  rfl

/-- A type has no value, so a member of what has one is a member of that value. -/
theorem eval_plainMember {name : String} (h : w.eval env subject = some v) :
    w.eval env (plainMember subject name) = w.project v name := by
  have hbase : subject.typeName? = none := by
    cases subject with
    | typeName => rw [eval] at h; cases h
    | _ => rfl
  rw [plainMember, eval, hbase, h]
  rfl

theorem eval_component {name : String} {part : Value} (h : w.eval env subject = some v)
    (hpart : v.component? name = some part) :
    w.eval env (plainMember subject name) = some part := by
  rw [eval_plainMember h, project, hpart]
  rfl

end

/-! ## Matches -/

/-- A name with the value it was declared with. -/
structure Bound where
  name : String
  value : Value
  isLet : Bool
deriving DecidableEq, Repr

/-- The value of the test of a match; without a test it is true. -/
def holds? (env : Environment) (condition : Option Expr) : Option Value :=
  condition.elim (some (.bool true)) (w.eval env)

/-- The names of a match, all declared against the same environment. -/
def boundAtOnce (env : Environment) (bindings : List PatternVariable) : Option (List Bound) :=
  bindings.mapM fun binding =>
    (w.eval env binding.value).map fun value => ⟨binding.name, value, binding.isLet⟩

/-- The names of a match, declared one after the other. -/
def boundInOrder : Environment → List PatternVariable → Option (List Bound)
  | _, [] => some []
  | env, binding :: rest =>
    (w.eval env binding.value).bind fun value =>
      (boundInOrder (env.set binding.name value) rest).map
        (⟨binding.name, value, binding.isLet⟩ :: ·)

/-- That a name stands for a value in all of some environments. -/
def Stands (same : Environment → Prop) (binding : PatternVariable) (bound : Bound) : Prop :=
  bound.name = binding.name ∧ bound.isLet = binding.isLet ∧
    ∀ env, same env → w.eval env binding.value = some bound.value

section

variable {w} {env : Environment} {same : Environment → Prop} {bindings : List PatternVariable}
  {bound : List Bound}

theorem boundAtOnce_of_stands (hsame : same env) (h : List.Forall₂ (w.Stands same) bindings bound) :
    w.boundAtOnce env bindings = some bound := by
  induction h with
  | nil => rfl
  | cons hfirst _ ih =>
    obtain ⟨hname, hlet, hvalue⟩ := hfirst
    rw [boundAtOnce, List.mapM_cons, hvalue env hsame, ← hname, ← hlet]
    rw [boundAtOnce] at ih
    rw [ih]
    rfl

/-- Declared one after the other, names get the values they stand for if the subject keeps its value
    while all but the last are declared. -/
theorem boundInOrder_of_stands (h : List.Forall₂ (w.Stands same) bindings bound)
    (hsame : ∀ env', (∀ x ∉ (bound.map Bound.name).dropLast, env' x = env x) → same env') :
    w.boundInOrder env bindings = some bound := by
  induction h generalizing env with
  | nil => rfl
  | @cons binding first bindings bound hfirst hrest ih =>
    obtain ⟨hname, hlet, hvalue⟩ := hfirst
    rw [boundInOrder, hvalue env (hsame env fun _ _ => rfl), Option.bind_some, ← hname, ← hlet]
    cases hrest with
    | nil => rfl
    | cons =>
      rw [ih, Option.map_some]
      intro env' henv'
      refine hsame env' fun x hx => ?_
      rw [List.map_cons, List.map_cons, List.dropLast_cons_cons, List.mem_cons, not_or] at hx
      rw [henv' x hx.2, Environment.set, if_neg hx.1]

end

end World

end Ferry
