/-
  Ferry.Proofs.Target.Branch

  What the branches of a `when` ask.  A case value is compared with the subject, or looked for in if
  it is a range; a subtype check of the subject asks for a type; a test of its own is asked as it
  is.  So every label is a list of branches (`caseRows_eq`), and the condition of a branch says what
  it asks, with or without a subject behind `when`.

  A value that looks like a test is taken for one.  Then the branch holds when the value is true,
  whatever the subject is, and not when the two are equal (`Asks`).
-/
import Ferry.Proofs.Program.Evaluation
import Ferry.Proofs.Target.Call
import Ferry.Proofs.Traverse.Fragment

namespace Ferry.Target

open Document (joinWith)
open Source (plainBinary)

/-- What a branch of a `when` asks. -/
inductive Branch where
  /-- Whether a test holds. -/
  | stated (e : Expr)
  /-- Whether the subject equals a value. -/
  | compared (e : Expr)
  /-- Whether the subject lies in a range. -/
  | within (e : Expr)
  /-- Whether the subject is of a type. -/
  | checked (type : Expr)

/-- The branch for a case value, in a `when` with or without a subject. -/
def branchOf (subject : Expr) (usesTests : Bool) (e : Expr) : Branch :=
  if usesTests then
    if Switch.isTest subject e then .stated e else if isRange e then .within e else .compared e
  else
    match e.unparenthesized with
    | .binary lhs op rhs info =>
      if op = "is" ∧ Switch.mentions subject lhs then .checked rhs
      else if isRangeOperator op then .within (.binary lhs op rhs info)
      else .compared (.binary lhs op rhs info)
    | inner => .compared inner

namespace Branch

/-- What a branch asks, as an expression.  Parentheses do not count. -/
def condition (subject : Expr) : Branch → Expr
  | stated e => e.unparenthesized
  | compared e => plainBinary subject "==" e.unparenthesized
  | within e => plainBinary subject "in" e.unparenthesized
  | checked type => plainBinary subject "is" type

def exprs (subject : Expr) (usesTests : Bool) : Branch → List Expr
  | stated e => [e]
  | compared e | within e => if usesTests then [subject, e] else [e]
  | checked type => [type]

def document (registry : Registry) (subject : Expr) (usesTests : Bool) : Branch → Document
  | stated e => operand e (exprDocument registry .value e) .disjunction false
  | compared e =>
    if usesTests then exprDocument registry .value (plainBinary subject "==" e)
    else exprDocument registry .value e
  | within e =>
    if usesTests then exprDocument registry .value (plainBinary subject "in" e)
    else .cat [.text "in ", exprDocument registry .value e]
  | checked type => .cat [.text "is ", exprDocument registry .value type]

end Branch

/-! ## Labels -/

section

variable (registry : Registry) (subject : Expr)

theorem testDocument_eq (e : Expr) :
    testDocument subject (exprDocument registry .value subject) e (exprDocument registry .value e) =
      (branchOf subject true e).document registry subject true := by
  rw [testDocument, branchOf, if_pos rfl]
  split
  next => rfl
  next => cases isRange e <;> rfl

theorem exprDocument_branch (e : Expr) :
    exprDocument registry (.branch subject) e =
      (branchOf subject false e).document registry subject false := by
  unfold branchOf
  rw [if_neg Bool.false_ne_true]
  fun_induction Expr.unparenthesized e with
  | case1 inner info ih => exact ih
  | case2 e he =>
    cases e with
    | paren inner info => exact absurd rfl (he inner info)
    | binary lhs op rhs info =>
      show (if op = "is" ∧ Switch.mentions subject lhs then _ else _) = _
      dsimp only
      split
      next => rfl
      next => cases hrange : isRangeOperator op <;> rfl
    | _ =>
      -- No other expression looks at its role.
      dsimp only [Branch.document]
      unfold exprDocument
      rfl

/-- The label of a case: its branches, any of which is enough. -/
def labelOf (usesTests : Bool) (c : SwitchCase) : List Document :=
  if c.patterns.isEmpty then [.text "else"]
  else joinWith (if usesTests then " || " else ", ")
    (c.patterns.map fun e => (branchOf subject usesTests e).document registry subject usesTests)

theorem caseRows_eq (usesTests : Bool) (cases : List SwitchCase) :
    caseRows registry subject (exprDocument registry .value subject) usesTests cases =
      cases.map fun c => .ofDocument (.cat (labelOf registry subject usesTests c ++
        [.text " -> ", branchDocument c.body (assemble (pieces registry none false c.body))])) := by
  induction cases with
  | nil => rfl
  | cons c rest ih =>
    obtain ⟨patterns, body, span⟩ := c
    have hlabel : (if patterns.isEmpty then [.text "else"]
        else if usesTests then joinWith " || " (List.zipWith
          (testDocument subject (exprDocument registry .value subject)) patterns
            (exprDocuments registry .value patterns))
        else joinWith ", " (exprDocuments registry (.branch subject) patterns)) =
          labelOf registry subject usesTests ⟨patterns, body, span⟩ := by
      rw [labelOf]
      -- With tests each pattern is a test of its own; else the subject stands once, behind `when`.
      cases usesTests with
      | true =>
        rw [exprDocuments_eq_map, List.zipWith_map_right, List.zipWith_self]
        simp only [testDocument_eq, if_true]
      | false =>
        rw [exprDocuments_eq_map, exprDocuments_eq_map,
          funext (exprDocument_branch registry subject)]
        simp only [Bool.false_eq_true, if_false]
    rw [List.map_cons, ← ih, ← hlabel]
    rfl

/-- A `switch` as a `when`, without its subject if some case is a test. -/
def whenDocument (cases : List SwitchCase) : Document :=
  let usesTests := Switch.usesTests subject cases
  let opening : List Document :=
    if usesTests then [.text "when "]
    else [.text "when (", exprDocument registry .value subject, .text ") "]
  .cat (opening ++ [.block "\x7b" (cases.map fun c =>
    .ofDocument (.cat (labelOf registry subject usesTests c ++
      [.text " -> ", branchDocument c.body (assemble (pieces registry none false c.body))])))])

theorem piece_switchStmt (receiver : Option String) (isValue : Bool) (cases : List SwitchCase)
    (span : Option Span) :
    piece registry receiver isValue (.switchStmt subject cases none span) =
      .plain .other [.ofDocument (whenDocument registry subject cases)] := by
  rw [whenDocument, ← caseRows_eq]
  rfl

end

/-! ## Conditions -/

theorem isTest_eq_false_of_isRange {subject e : Expr} (h : isRange e = true) :
    Switch.isTest subject e = false := by
  unfold isRange at h
  unfold Switch.isTest
  split at h
  next lhs op rhs info heq =>
    rw [isRangeOperator, Bool.or_eq_true, beq_iff_eq, beq_iff_eq] at h
    rw [heq]
    rcases h with rfl | rfl <;> rfl
  next => cases h

section

variable {subject e : Expr}

/-- Without tests, the branch of a check of the subject asks for the type. -/
theorem branchOf_of_isSubjectCheck (h : Switch.isSubjectCheck subject e = true) :
    ∃ lhs type info, e.unparenthesized = .binary lhs "is" type info ∧
      Switch.mentions subject lhs = true ∧ branchOf subject false e = .checked type := by
  unfold Switch.isSubjectCheck at h
  split at h
  next lhs type info heq =>
    refine ⟨lhs, type, info, heq, h, ?_⟩
    rw [branchOf, if_neg Bool.false_ne_true, heq]
    exact if_pos ⟨rfl, h⟩
  next => cases h

/-- All other values are looked for in or compared, as in a `when` without subject. -/
theorem condition_branchOf_of_not_isTest (usesTests : Bool) (h : Switch.isTest subject e = false) :
    (branchOf subject usesTests e).condition subject =
      plainBinary subject (if isRange e then "in" else "==") e.unparenthesized := by
  cases usesTests with
  | true =>
    rw [branchOf, if_pos rfl, h, if_neg Bool.false_ne_true]
    cases isRange e <;> rfl
  | false =>
    rw [branchOf, if_neg Bool.false_ne_true]
    unfold Switch.isTest at h
    split
    next lhs op rhs info heq =>
      rw [heq, Bool.or_eq_false_iff, Bool.and_eq_false_iff] at h
      -- The value is no check of the subject, which would be written `is`.
      have hcheck : ¬(op = "is" ∧ Switch.mentions subject lhs = true) := by
        rintro ⟨rfl, hmentions⟩
        exact h.2.elim nofun fun hother => Bool.false_ne_true (hother.symm.trans hmentions)
      have hrange : isRange e = isRangeOperator op := by rw [isRange, heq]
      rw [if_neg hcheck, heq, hrange]
      split <;> rfl
    next inner hinner =>
      have hrange : isRange e = false := by
        unfold isRange
        split
        next heq => exact absurd heq (hinner _ _ _ _)
        next => rfl
      rw [Branch.condition, Expr.unparenthesized_unparenthesized, hrange]
      rfl

/-- What a branch asks about a case value: whether the subject lies in it, if it is a range; whether
    it is true, if it looks like a test; otherwise whether the subject equals it. -/
def Asks (subject : Expr) (usesTests : Bool) (e : Expr) : Prop :=
  let condition := (branchOf subject usesTests e).condition subject
  (isRange e = true → condition = plainBinary subject "in" e.unparenthesized) ∧
  (isRange e = false → ∀ (w : World) (env : Environment) (v u : Value),
    w.eval env subject = some v → w.eval env e.unparenthesized = some u →
    (∀ lhs type info, e.unparenthesized = .binary lhs "is" type info →
      Switch.mentions subject lhs = true → w.eval env lhs = some v) →
    (w.eval env condition = some (.bool true) ↔
      if Switch.isTest subject e then u = .bool true else v = u))

/-- With the subject behind `when`, all tests are checks of the subject. -/
theorem asks_branchOf {usesTests : Bool}
    (hchecks : usesTests = false → Switch.isTest subject e = true →
      Switch.isSubjectCheck subject e = true) : Asks subject usesTests e := by
  refine ⟨fun hrange => ?_, fun hrange w env v u hsubject hvalue hsame => ?_⟩
  · rw [condition_branchOf_of_not_isTest usesTests (isTest_eq_false_of_isRange hrange), hrange,
      if_pos rfl]
  cases htest : Switch.isTest subject e with
  | false =>
    rw [condition_branchOf_of_not_isTest usesTests htest, hrange, if_neg Bool.false_ne_true,
      if_neg Bool.false_ne_true, World.eval_equal hsubject hvalue]
    simp
  | true =>
    rw [if_pos rfl]
    cases usesTests with
    | true =>
      rw [branchOf, if_pos rfl, htest, if_pos rfl, Branch.condition, hvalue, Option.some.injEq]
    | false =>
      obtain ⟨lhs, type, info, heq, hmentions, hbranch⟩ :=
        branchOf_of_isSubjectCheck (hchecks rfl htest)
      -- The left side has the value of the subject, so the check comes to the same for both.
      have hcheck : w.eval env (plainBinary subject "is" type) = some u := by
        rw [← hvalue, heq]
        simp only [plainBinary, World.eval, hsubject, hsame lhs type info heq hmentions]
        rfl
      rw [hbranch, Branch.condition, hcheck, Option.some.injEq]

theorem asks_of_mem {cases : List SwitchCase} {c : SwitchCase} (hc : c ∈ cases)
    (he : e ∈ c.patterns) : Asks subject (Switch.usesTests subject cases) e := by
  refine asks_branchOf fun huses htest => ?_
  have hnone := List.any_eq_false.mp (Bool.not_eq_true _ ▸ List.any_eq_false.mp huses c hc) e he
  simpa [htest] using hnone

end

end Ferry.Target
