/-
  Ferry.Proofs.Target.Condition

  What stands in the parentheses of an `if`.  Conditions are joined by `&&`; a guard negates them,
  or asks for a binding that failed, and a guard on a negation has been turned into a plain `if`
  before. Read with the precedences of the target, the written condition is true exactly if the
  block is to run (`read_ifStmt`).
-/
import Ferry.Pass.Guard
import Ferry.Proofs.Target.Regrouping

namespace Ferry.Target

/-! ## Truth -/

/-- What the words of conditions come to. -/
structure Meaning where
  Value : Type
  isTrue : Value → Bool
  ofBool : Bool → Value
  atom : Atom → Value
  /-- Infix operators other than `&&` and `||`. -/
  joined : String → Value → Value → Value
  /-- Prefix operators other than `!`. -/
  signed : String → Value → Value
  isTrue_ofBool : ∀ b, isTrue (ofBool b) = b
  isTrue_unequal : ∀ a b, isTrue (joined "!=" a b) = !isTrue (joined "==" a b)

namespace Meaning

/-- Values are truth values, and equality is that of truth values. -/
def ofTruth (truth : Atom → Bool) : Meaning where
  Value := Bool
  isTrue := id
  ofBool := id
  atom := truth
  joined op a b := if op = "!=" then a != b else a == b
  signed _ a := a
  isTrue_ofBool _ := rfl
  isTrue_unequal _ _ := rfl

instance : Inhabited Meaning :=
  ⟨ofTruth fun _ => true⟩

/-- The binding of a name succeeded, which the target asks by comparing it with `null`. -/
def isBound (m : Meaning) (name : String) : Bool :=
  m.isTrue (m.joined "!=" (m.atom (.reference name)) (m.atom (.literal .nil)))

/-- The two operators that join conditions. -/
def connect (op : String) (a b : Bool) : Bool :=
  if op = "&&" then a && b else a || b

theorem connect_assoc (op : String) (a b c : Bool) :
    connect op (connect op a b) c = connect op a (connect op b c) := by
  unfold connect
  split
  · exact Bool.and_assoc a b c
  · exact Bool.or_assoc a b c

end Meaning

def Grouping.value (m : Meaning) : Grouping → m.Value
  | atom value => m.atom value
  | joined lhs op rhs =>
    if op = "&&" ∨ op = "||" then
      m.ofBool (Meaning.connect op (m.isTrue (lhs.value m)) (m.isTrue (rhs.value m)))
    else m.joined op (lhs.value m) (rhs.value m)
  | signed op operand =>
    if op = "!" then m.ofBool (!m.isTrue (operand.value m)) else m.signed op (operand.value m)
  | choice condition yes no => if m.isTrue (condition.value m) then yes.value m else no.value m

/-- Whether a test holds; parentheses have no meaning of their own. -/
def Operation.holds (m : Meaning) (o : Operation) : Bool :=
  m.isTrue (o.grouping.value m)

/-- A condition of an `if` or `guard`. -/
inductive Clause where
  | test (o : Operation)
  | binding (item : Variable)

namespace Clause

def condition : Clause → Condition
  | test o => .test o.expr
  | binding item => .binding item

def holds (m : Meaning) : Clause → Bool
  | test o => o.holds m
  | binding item => m.isBound item.name

/-- Whether the block of an `if` or `guard` is run. -/
def runs (m : Meaning) (isGuard : Bool) (clauses : List Clause) : Bool :=
  if isGuard then !clauses.all (holds m) else clauses.all (holds m)

end Clause

/-! ## Spelling -/

/-- The text is a spelling of the tokens.  A name that is bound is written like a reference to it,
    but for `self`, which has no word of its own there. -/
inductive Spells : List Token → String → Prop where
  | nil : Spells [] ""
  | cons {t : Token} {rest : List Token} {s : String} (h : Spells rest s) :
      Spells (t :: rest) (t.text ++ t.gap rest ++ s)
  | bound {name : String} {rest : List Token} {s : String} (h : Spells rest s) :
      Spells (.atom (.reference name) :: rest) (identifier name ++ s)

namespace Spells

theorem spelled (ts : List Token) : Spells ts (Token.spelled ts) := by
  induction ts with
  | nil => exact .nil
  | cons t ts ih => exact .cons ih

theorem append {first rest : List Token} {t : Token} {s s' : String} (h : Spells first s)
    (ht : t.startsOperand = false) (h' : Spells (t :: rest) s') :
    Spells (first ++ t :: rest) (s ++ s') := by
  induction h with
  | nil => simpa using h'
  | @cons head tail s _ ih =>
    have hgap : head.gap (tail ++ t :: rest) = head.gap tail := by
      cases tail <;> simp [Token.gap, ht]
    rw [String.append_assoc, ← hgap]
    exact .cons ih
  | bound _ ih =>
    rw [String.append_assoc]
    exact .bound ih

theorem comparison {op : String} (hop : isTight op = false) (name : String) :
    Spells [.atom (.reference name), .operator op, .atom (.literal .nil)]
      (identifier name ++ (" " ++ op ++ " null")) := by
  have h : Spells (.atom (.reference name) :: _) _ :=
    .bound (spelled [.operator op, .atom (.literal .nil)])
  simpa [Token.spelled, Token.gap, Token.text, Atom.text, literalText, hop, String.append_assoc]
    using h

theorem enclosed {ts : List Token} {s : String} (h : Spells ts s) :
    Spells (.opening :: (ts ++ [.closing])) ("(" ++ s ++ ")") := by
  have hclosing : Spells (ts ++ [.closing]) (s ++ ")") := h.append rfl (spelled [.closing])
  have hopening := cons (t := .opening) hclosing
  simpa [Token.text, Token.gap, String.append_assoc] using hopening

end Spells

/-! ## Joining conditions -/

namespace Operation

/-- The operation with one more condition behind it; the target groups what is joined to the
left. -/
def join (left : Operation) (op : String) : Operation → Operation
  | binary lhs inner rhs info =>
    if inner = op then binary (left.join op lhs) op rhs info
    else binary left op (binary lhs inner rhs info) {}
  | o => binary left op o {}

theorem joint_facts {op : String} (h : op = "&&" ∨ op = "||") :
    operatorText op = op ∧ isRightAssociative op = false ∧ isTight op = false := by
  rcases h with rfl | rfl <;> decide

theorem eq_of_rank_eq {op inner : String} (h : op = "&&" ∨ op = "||")
    (hrank : (operatorPrecedence (operatorText inner)).rank = (operatorPrecedence op).rank) :
    inner = op := by
  have htext : operatorText inner = op := by
    rcases h with rfl | rfl <;> unfold operatorPrecedence at hrank <;> split at hrank <;>
      simp_all [Precedence.rank]
  unfold operatorText at htext
  split at htext <;> rcases h with rfl | rfl <;> simp_all

theorem wrap_of_rank_ne {o : Operation} {parent : Precedence} (h : o.level ≠ parent.rank)
    (ts : List Token) (tieWraps : Bool) : o.wrap ts parent tieWraps = o.wrap ts parent false := by
  have hne : ((precedenceOf o.expr).rank == parent.rank) = false := by simpa [level] using h
  simp [wrap, needsParentheses, hne]

theorem wrap_of_rank_le {o : Operation} {parent : Precedence} (h : parent.rank ≤ o.level)
    (ts : List Token) : o.wrap ts parent false = ts := by
  have hlt : ¬(precedenceOf o.expr).rank < parent.rank := by simpa [level] using h
  simp [wrap, needsParentheses, hlt]

theorem tokens_binary {op : String} (h : op = "&&" ∨ op = "||") (left right : Operation)
    (info : Info) :
    (binary left op right info).tokens = left.wrap left.tokens (operatorPrecedence op) false ++
      .operator op :: right.wrap right.tokens (operatorPrecedence op) true := by
  obtain ⟨htext, hright, -⟩ := joint_facts h
  simp only [tokens, htext, hright, Bool.not_false]

theorem level_binary {op : String} (h : op = "&&" ∨ op = "||") (left right : Operation)
    (info : Info) : (binary left op right info).level = (operatorPrecedence op).rank := by
  rw [level, expr, precedenceOf, (joint_facts h).1]

theorem level_join {op : String} (h : op = "&&" ∨ op = "||") (left o : Operation) :
    (left.join op o).level = (operatorPrecedence op).rank := by
  fun_cases join left op o with
  | case1 => exact level_binary h ..
  | case2 => exact level_binary h ..
  | case3 => exact level_binary h ..

/-- What is joined is written behind what it is joined to, with the parentheses it needs. -/
theorem tokens_join {op : String} (h : op = "&&" ∨ op = "||") (left o : Operation) :
    (left.join op o).tokens = left.wrap left.tokens (operatorPrecedence op) false ++
      .operator op :: o.wrap o.tokens (operatorPrecedence op) false := by
  -- Only an operation with the same operator can tie; `join` goes down its left side, where a tie
  -- needs no parentheses.
  fun_induction join left op o with
  | case1 lhs rhs info ih =>
    rw [tokens_binary h, wrap_of_rank_le (Nat.le_of_eq (level_join h ..).symm), ih,
      wrap_of_rank_le (Nat.le_of_eq (level_binary h ..).symm), tokens_binary h]
    simp
  | case2 lhs inner rhs info hne =>
    have hrank : (binary lhs inner rhs info).level ≠ (operatorPrecedence op).rank := fun hrank =>
      hne (eq_of_rank_eq h hrank)
    rw [tokens_binary h, wrap_of_rank_ne hrank]
  | case3 o hne =>
    have hrank : o.level ≠ (operatorPrecedence op).rank := by
      cases o with
      | binary lhs inner rhs info => exact absurd rfl (hne lhs inner rhs info)
      | literal value info unsigned =>
        rw [level_literal]
        rcases h with rfl | rfl <;> decide
      | _ =>
        rcases h with rfl | rfl <;>
          simp [level, expr, precedenceOf, operatorPrecedence, Precedence.rank]
    rw [tokens_binary h, wrap_of_rank_ne hrank]

theorem holds_join {op : String} (h : op = "&&" ∨ op = "||") (m : Meaning) (left o : Operation) :
    (left.join op o).holds m = Meaning.connect op (left.holds m) (o.holds m) := by
  have hbinary : ∀ (l r : Operation) (info : Info),
      (binary l op r info).holds m = Meaning.connect op (l.holds m) (r.holds m) := by
    intro l r info
    rw [holds, grouping, (joint_facts h).1, Grouping.value, if_pos h, m.isTrue_ofBool]
    rfl
  fun_induction join left op o with
  | case1 lhs rhs info ih => rw [hbinary, ih, hbinary, Meaning.connect_assoc]
  | case2 | case3 => exact hbinary ..

def joinAll (op : String) (left : Operation) (items : List Operation) : Operation :=
  items.foldl (fun left o => left.join op o) left

theorem holds_joinAll {op : String} (h : op = "&&" ∨ op = "||") (m : Meaning) (left : Operation)
    (items : List Operation) : (left.joinAll op items).holds m =
      items.foldl (fun b o => Meaning.connect op b (o.holds m)) (left.holds m) := by
  induction items generalizing left with
  | nil => rfl
  | cons o items ih => rw [List.foldl_cons, ← holds_join h, ← ih, joinAll, List.foldl_cons, joinAll]

theorem spells_joinAll {op : String} (h : op = "&&" ∨ op = "||") {α : Type} {o : α → Operation}
    {text : α → String}
    (ho : ∀ x, Spells ((o x).wrap (o x).tokens (operatorPrecedence op) false) (text x))
    {left : Operation} {s : String}
    (hl : Spells (left.wrap left.tokens (operatorPrecedence op) false) s) (items : List α) :
    Spells ((left.joinAll op (items.map o)).wrap (left.joinAll op (items.map o)).tokens
      (operatorPrecedence op) false)
      (s ++ String.join (items.map fun x => " " ++ op ++ " " ++ text x)) := by
  induction items generalizing left s with
  | nil => simpa [joinAll] using hl
  | cons x items ih =>
    obtain ⟨-, -, htight⟩ := joint_facts h
    -- The operator stands between blanks, being no tight one.
    have hitem : Spells (.operator op :: (o x).wrap (o x).tokens (operatorPrecedence op) false)
        (" " ++ op ++ " " ++ text x) := by
      have hcons := Spells.cons (t := .operator op) (ho x)
      simpa [Token.text, Token.gap, htight] using hcons
    have hjoined : Spells ((left.join op (o x)).wrap (left.join op (o x)).tokens
        (operatorPrecedence op) false) (s ++ (" " ++ op ++ " " ++ text x)) := by
      rw [wrap_of_rank_le (Nat.le_of_eq (level_join h ..).symm), tokens_join h]
      exact hl.append rfl hitem
    simpa [joinAll, String.append_assoc] using ih hjoined

/-- The operation with the parentheses that it needs as an operand. -/
def grouped (parent : Precedence) (o : Operation) : Operation :=
  if needsParentheses (precedenceOf o.expr) parent false then paren o {} else o

theorem tokens_grouped (parent : Precedence) (o : Operation) :
    (o.grouped parent).tokens = o.wrap o.tokens parent false := by
  unfold grouped wrap
  split <;> rfl

theorem holds_grouped (m : Meaning) (parent : Precedence) (o : Operation) :
    (o.grouped parent).holds m = o.holds m := by
  unfold grouped
  split <;> rfl

theorem read_tokens (o : Operation) : read o.tokens = some o.grouping := by
  have h : Reads 0 (o.tokens ++ []) o.grouping [] := o.readable.whole (by simp)
  rw [List.append_nil] at h
  exact read_of_reads h

theorem holds_not (m : Meaning) (o : Operation) (info : Info) :
    (signed "!" o info (by decide)).holds m = !o.holds m := by
  rw [holds, grouping, Grouping.value, if_pos rfl, m.isTrue_ofBool]
  rfl

def nullTest (op name : String) : Operation :=
  binary (reference name false false {}) op (literal .nil {} rfl) {}

theorem holds_nullTest (m : Meaning) (name : String) :
    (nullTest "!=" name).holds m = m.isBound name ∧
      (nullTest "==" name).holds m = !m.isBound name := by
  refine ⟨rfl, ?_⟩
  rw [Meaning.isBound, m.isTrue_unequal, Bool.not_not]
  rfl

theorem spells_nullTest {op : String} (h : op = "!=" ∨ op = "==") {parent : Precedence}
    (hp : parent.rank ≤ Precedence.equality.rank) (name : String) :
    Spells ((nullTest op name).wrap (nullTest op name).tokens parent false)
      (identifier name ++ (" " ++ op ++ " null")) := by
  rcases h with rfl | rfl
  · rw [wrap_of_rank_le hp]
    exact .comparison (by decide) name
  · rw [wrap_of_rank_le hp]
    exact .comparison (by decide) name

end Operation

/-! ## Written conditions -/

namespace Clause

open Operation

/-- The test that stands for a condition. -/
def operation : Clause → Operation
  | test o => o
  | binding item => nullTest "!=" item.name

theorem holds_operation (m : Meaning) (c : Clause) : c.operation.holds m = c.holds m := by
  cases c with
  | test o => rfl
  | binding item => exact (holds_nullTest m item.name).1

def text : Clause → String
  | test o => Token.spelled (o.wrap o.tokens .conjunction false)
  | binding item => identifier item.name ++ " != null"

theorem spells_text (c : Clause) :
    Spells (c.operation.wrap c.operation.tokens .conjunction false) c.text := by
  cases c with
  | test o => exact .spelled _
  | binding item => exact spells_nullTest (.inl rfl) (by decide) item.name

/-- A condition that is ready to be joined with others. -/
def written (registry : Registry) : Clause → WrittenCondition
  | test o => ⟨some o.expr, exprDocument registry .value o.expr⟩
  | binding item => ⟨none, .text (identifier item.name ++ " != null")⟩

theorem conditionItems_map (registry : Registry) (clauses : List Clause) :
    conditionItems registry (clauses.map condition) = clauses.map (written registry) := by
  induction clauses with
  | nil => rfl
  | cons c clauses ih => cases c <;> simp [condition, conditionItems, written, ih]

theorem render_written (registry : Registry) (layout : Layout) (level : Nat) (c : Clause) :
    ((c.written registry).operand .conjunction).render layout level = c.text := by
  cases c with
  | test o => exact render_operand registry layout level o _ _ (render_operation ..)
  | binding item => rfl

/-- The text of all conditions at once. -/
def joinedText (first : Clause) (more : List Clause) : String :=
  first.text ++ String.join (more.map fun c => " && " ++ c.text)

theorem render_conjunction (registry : Registry) (layout : Layout) (level : Nat) (first : Clause)
    (more : List Clause) :
    (conjunction ((first :: more).map (written registry))).render layout level =
      joinedText first more := by
  have hjoin : ∀ (d : Document) (ds : List Document),
      String.join (Document.renderAll layout (Document.joinWith " && " (d :: ds)) level) =
        d.render layout level ++ String.join (ds.map fun d => " && " ++ d.render layout level) := by
    intro d ds
    induction ds generalizing d with
    | nil => simp [Document.joinWith, Document.renderAll]
    | cons next ds ih =>
      simp [Document.joinWith, Document.renderAll, Document.render, ih, String.append_assoc]
  rw [conjunction, Document.render, List.map_map, List.map_cons, hjoin, List.map_map]
  simp [Function.comp_def, render_written, joinedText]

def joined (first : Clause) (more : List Clause) : Operation :=
  first.operation.joinAll "&&" (more.map operation)

theorem spells_joined (first : Clause) (more : List Clause) :
    Spells ((joined first more).wrap (joined first more).tokens .conjunction false)
      (joinedText first more) := by
  exact spells_joinAll (.inl rfl) spells_text first.spells_text more

theorem holds_joined (m : Meaning) (first : Clause) (more : List Clause) :
    (joined first more).holds m = (first :: more).all (holds m) := by
  rw [joined, holds_joinAll (.inl rfl), List.foldl_map, holds_operation, List.all_cons]
  simp only [holds_operation, Meaning.connect, if_pos]
  generalize first.holds m = b
  induction more generalizing b with
  | nil => simp
  | cons c more ih => rw [List.foldl_cons, ih, List.all_cons, Bool.and_assoc]

/-! ## Conditions of an `if` and of a guard -/

/-- What is written for the conditions is the text of a test that holds if the block is to run. -/
def Asks (isGuard : Bool) (clauses : List Clause) (o : Operation) (text : String) : Prop :=
  (∀ registry layout level, (ifCondition isGuard (clauses.map condition)
    (conditionItems registry (clauses.map condition))).render layout level = text) ∧
  Spells o.tokens text ∧ ∀ m, o.holds m = runs m isGuard clauses

theorem asks_all (first : Clause) (more : List Clause) :
    Asks false (first :: more) ((joined first more).grouped .conjunction)
      (joinedText first more) := by
  refine ⟨fun registry layout level => ?_, ?_, fun m => ?_⟩
  · rw [conditionItems_map]
    exact render_conjunction ..
  · rw [tokens_grouped]
    exact spells_joined first more
  · rw [holds_grouped, holds_joined]
    rfl

theorem asks_unbound (first : Variable) (more : List Variable) :
    ∃ o text, Asks true (binding first :: more.map binding) o text := by
  let failed (item : Variable) := identifier item.name ++ " == null"
  refine ⟨((nullTest "==" first.name).joinAll "||" (more.map fun item =>
    nullTest "==" item.name)).grouped .disjunction,
    failed first ++ String.join (more.map fun item => " || " ++ failed item),
    fun registry layout level => ?_, ?_, fun m => ?_⟩
  -- What is written: one comparison for each name, with `||` between them.
  · have hnames : boundNames ((binding first :: more.map binding).map condition) =
        (first :: more).map (·.name) := by
      simp [boundNames, condition, List.filterMap_map, Function.comp_def]
    have hall : ((binding first :: more.map binding).map condition).all Condition.isBinding := by
      simp [condition, Condition.isBinding]
    have hjoin : ∀ item items, " || ".intercalate ((item :: items).map failed) =
        failed item ++ String.join (items.map fun item => " || " ++ failed item) := by
      intro item items
      induction items generalizing item with
      | nil => simp
      | cons next items ih =>
        rw [List.map_cons, List.map_cons, String.intercalate_cons_cons, ← List.map_cons, ih]
        simp [String.append_assoc]
    simp only [ifCondition, hall, hnames, List.map_map, Document.render, Bool.not_true,
      Bool.false_eq_true, if_false, if_true, ← hjoin]
    rfl
  -- How it is spelled in tokens.
  · have hfailed : ∀ item : Variable, Spells ((nullTest "==" item.name).wrap
        (nullTest "==" item.name).tokens .disjunction false) (failed item) := fun item =>
      spells_nullTest (.inr rfl) (by decide) item.name
    rw [tokens_grouped]
    exact spells_joinAll (.inr rfl) hfailed (hfailed first) more
  -- What it means: some binding failed exactly if not all were made.
  · rw [holds_grouped, holds_joinAll (.inr rfl), List.foldl_map, (holds_nullTest m _).2]
    simp only [(holds_nullTest m _).2, Meaning.connect, runs, List.all_cons, holds, List.all_map]
    generalize m.isBound first.name = b
    induction more generalizing b with
    | nil => simp
    | cons item more ih =>
      have hstep := ih (b && m.isBound item.name)
      rw [Bool.not_and, Bool.and_assoc] at hstep
      exact hstep

theorem asks_not (first : Clause) (more : List Clause)
    (h : ¬((first :: more).map condition).all Condition.isBinding) :
    ∃ o text, Asks true (first :: more) o text := by
  have hnot : ∀ (o : Operation) (m : Meaning), o.holds m = (first :: more).all (holds m) →
      (signed "!" o {} (by decide)).holds m = runs m true (first :: more) := by
    intro o m ho
    rw [holds_not, ho]
    rfl
  match first, more, h with
  -- One test is negated as an operand; several are joined in parentheses.
  | test o, [], _ =>
    refine ⟨signed "!" o {} (by decide), "!" ++ Token.spelled (o.wrap o.tokens .prefixed false),
      fun registry layout level => ?_, ?_, fun m => hnot o m (by simp [holds])⟩
    · have ho := render_operand registry layout level o .prefixed false (render_operation ..)
      simp [condition, conditionItems, ifCondition, Condition.isBinding, WrittenCondition.operand,
        Document.render, Document.renderAll, ho]
    · have hs := Spells.spelled (signed "!" o {} (by decide)).tokens
      rwa [tokens, Token.spelled_cons (by decide)] at hs
  | binding item, [], h => exact absurd rfl h
  | first, second :: more, h =>
    let all := (joined first (second :: more)).grouped .conjunction
    refine ⟨signed "!" (paren all {}) {} (by decide),
      "!" ++ ("(" ++ joinedText first (second :: more) ++ ")"), fun registry layout level => ?_, ?_,
      fun m => hnot _ m ((holds_grouped ..).trans (holds_joined ..))⟩
    · have hall := render_conjunction registry layout level first (second :: more)
      have hopening : "!" ++ "(" = "!(" := by decide
      rw [conditionItems_map]
      unfold ifCondition
      rw [if_neg (by simp), if_neg h, ← hall, ← String.append_assoc,
        ← String.append_assoc, hopening]
      show (Document.cat [.text "!(", conjunction _, .text ")"]).render layout level = _
      simp [Document.render, Document.renderAll, String.append_assoc]
    · have hs := (spells_joined first (second :: more)).enclosed
      rw [← tokens_grouped] at hs
      exact .cons (t := .sign "!") hs

theorem exists_asks (isGuard : Bool) (first : Clause) (more : List Clause) :
    ∃ o text, Asks isGuard (first :: more) o text := by
  cases isGuard with
  | false => exact ⟨_, _, asks_all first more⟩
  | true =>
    by_cases h : ((first :: more).map condition).all Condition.isBinding
    -- Conditions that are all bindings are the bindings of a list of variables.
    · have hitems : ∀ clauses : List Clause, (clauses.map condition).all Condition.isBinding →
          ∃ items : List Variable, clauses = items.map binding := by
        intro clauses hc
        induction clauses with
        | nil => exact ⟨[], rfl⟩
        | cons c clauses ih =>
          simp only [List.map_cons, List.all_cons, Bool.and_eq_true] at hc
          obtain ⟨items, rfl⟩ := ih hc.2
          match c, hc.1 with
          | binding item, _ => exact ⟨item :: items, rfl⟩
      obtain ⟨_ | ⟨item, items⟩, hitems⟩ := hitems _ h
      · cases hitems
      · rw [hitems]
        exact asks_unbound item items
    · exact asks_not first more h

end Clause

/-! ## Guards on negations -/

section

open Pass

namespace Operation

/-- The pass is about statements: a test stays as it is. -/
theorem onExpr_expr (owner : Option String) (called : Bool) (o : Operation) :
    doubleNegativesInGuards.onExpr owner called o.expr = o.expr := by
  induction o generalizing called <;> simp only [expr, Transform.onExpr, *] <;> rfl

def bare : Operation → Operation
  | paren inner _ => inner.bare
  | o => o

theorem expr_bare (o : Operation) : o.bare.expr = o.expr.unparenthesized := by
  induction o with
  | paren inner info ih => exact ih
  | _ => rfl

theorem holds_bare (m : Meaning) (o : Operation) : o.bare.holds m = o.holds m := by
  induction o with
  | paren inner info ih => exact ih
  | _ => rfl

theorem exists_withoutNegation (o : Operation) : ∃ (o' : Operation) (isNegated : Bool),
    withoutNegation o.expr = (o'.expr, isNegated) ∧ ∀ m, o.holds m = (o'.holds m ^^ isNegated) := by
  cases o with
  | signed op operand info isOperator =>
    -- A negation is taken off, and the truth of the rest is turned around.
    by_cases hop : op = "!"
    · subst hop
      exact ⟨operand, true, rfl, fun m => by rw [holds_not, Bool.xor_true]⟩
    · exact ⟨.signed op operand info isOperator, false, if_neg hop, fun m => by simp⟩
  | binary lhs op rhs info =>
    by_cases hop : op = "!="
    · subst hop
      refine ⟨.binary lhs "==" rhs info, true, rfl, fun m => ?_⟩
      rw [Bool.xor_true]
      exact m.isTrue_unequal ..
    · exact ⟨.binary lhs op rhs info, false, if_neg hop, fun m => by simp⟩
  | literal value info unsigned => exact ⟨.literal value info unsigned, false, rfl, by simp⟩
  | reference name isLibrary isImplicit info =>
    exact ⟨.reference name isLibrary isImplicit info, false, rfl, by simp⟩
  | choice condition yes no info => exact ⟨.choice condition yes no info, false, rfl, by simp⟩
  | paren inner info => exact ⟨.paren inner info, false, rfl, by simp⟩

end Operation

namespace Clause

theorem exists_cancelNegation (first : Clause) (more : List Clause) (body : List Stmt)
    (otherwise : Option (List Stmt)) (isGuard : Bool) (span : Option Span) :
    ∃ (first' : Clause) (more' : List Clause) (isGuard' : Bool),
      cancelNegation (.ifStmt ((first :: more).map condition) body otherwise isGuard span) =
        .ifStmt ((first' :: more').map condition) body otherwise isGuard' span ∧
      ∀ m, runs m isGuard' (first' :: more') = runs m isGuard (first :: more) := by
  match isGuard, first, more with
  -- Only a guard with a single test can be turned around.
  | true, test o, [] =>
    obtain ⟨o', isNegated, hwithout, hholds⟩ := o.bare.exists_withoutNegation
    rw [Operation.expr_bare] at hwithout
    refine ⟨test o', [], !isNegated, ?_, fun m => ?_⟩
    · simp only [List.map, condition, cancelNegation, hwithout]
    · have ho : o.holds m = (o'.holds m ^^ isNegated) := by rw [← hholds, Operation.holds_bare]
      cases isNegated <;> simp [runs, holds, ho]
  | false, first, more => exact ⟨first, more, false, by simp [cancelNegation], fun m => rfl⟩
  | true, binding item, more => exact ⟨binding item, more, true, rfl, fun m => rfl⟩
  | true, test o, next :: more => exact ⟨test o, next :: more, true, rfl, fun m => rfl⟩

def walked (owner : Option String) : Clause → Clause
  | test o => test o
  | binding item => binding (doubleNegativesInGuards.onVariable owner item)

theorem onConditions_map (owner : Option String) (clauses : List Clause) :
    doubleNegativesInGuards.onConditions owner (clauses.map condition) =
      (clauses.map (walked owner)).map condition := by
  induction clauses with
  | nil => rfl
  | cons c clauses ih =>
    cases c <;> simp [condition, walked, Transform.onConditions, Operation.onExpr_expr, ih]

theorem runs_walked (m : Meaning) (owner : Option String) (isGuard : Bool) (clauses : List Clause) :
    runs m isGuard (clauses.map (walked owner)) = runs m isGuard clauses := by
  have hholds : ∀ c : Clause, (c.walked owner).holds m = c.holds m := by
    intro c
    cases c with
    | test o => rfl
    | binding item =>
      cases item
      rw [walked, Transform.onVariable, holds, holds]
  simp [runs, Function.comp_def, hholds]

end Clause

/-- The statement is written with the document in the parentheses of its `if`, in front of the
    block, also where it follows an `else`. -/
def AsksFor (registry : Registry) (s : Stmt) (d : Document) (block : List Row) : Prop :=
  (∀ receiver isValue, ∃ before after, piece registry receiver isValue s = .plain .other
    (before ++ [.ofDocument (.cat ([.text "if (", d, .text ") ", .block "\x7b" block] ++
      after))])) ∧
  (chainsIf [s] → ∃ after, elseDocuments registry [s] =
    [.text " else if (", d, .text ") ", .block "\x7b" block] ++ after)

theorem asksFor_ifStmt (registry : Registry) (conditions : List Condition) (body : List Stmt)
    (otherwise : Option (List Stmt)) (isGuard : Bool) (span : Option Span) :
    AsksFor registry (.ifStmt conditions body otherwise isGuard span)
      (ifCondition isGuard conditions (conditionItems registry conditions))
      (assemble (pieces registry none false body)) := by
  refine ⟨fun receiver isValue => ?_, fun h => ?_⟩
  · cases otherwise <;> rw [piece] <;> exact ⟨_, _, rfl⟩
  · have hguard : isGuard = false := by
      simp only [chainsIf, Bool.and_eq_true, Bool.not_eq_true'] at h
      exact h.1
    subst hguard
    rw [elseDocuments, if_pos h]
    cases otherwise <;> rw [chainedDocuments] <;> exact ⟨_, rfl⟩

/-- The condition written for an `if` or guard, once guards on negations are turned around, is true
    exactly if the block is to run: if all conditions hold, for a guard if not all do. -/
theorem read_ifStmt (owner : Option String) (first : Clause) (more : List Clause)
    (body : List Stmt) (otherwise : Option (List Stmt)) (isGuard : Bool) (span : Option Span) :
    ∃ (s : Stmt) (text : String) (tokens : List Token) (meant : Grouping),
      doubleNegativesInGuards.onStmts owner
        [.ifStmt ((first :: more).map Clause.condition) body otherwise isGuard span] = [s] ∧
      (∀ registry, ∃ d,
        AsksFor registry s d
          (assemble (pieces registry none false (doubleNegativesInGuards.onStmts owner body))) ∧
        ∀ layout level, d.render layout level = text) ∧
      Spells tokens text ∧ read tokens = some meant ∧
      ∀ m, m.isTrue (meant.value m) = Clause.runs m isGuard (first :: more) := by
  obtain ⟨first', more', isGuard', hcancel, hruns⟩ := Clause.exists_cancelNegation
    (first.walked owner) (more.map (Clause.walked owner))
    (doubleNegativesInGuards.onStmts owner body)
    (doubleNegativesInGuards.onBody owner otherwise) isGuard span
  obtain ⟨o, text, hrender, hspells, hholds⟩ := Clause.exists_asks isGuard' first' more'
  refine ⟨_, text, o.tokens, o.grouping, ?_, fun registry => ⟨_, asksFor_ifStmt registry
    ((first' :: more').map Clause.condition) _ (doubleNegativesInGuards.onBody owner otherwise)
    isGuard' span, fun layout level => hrender registry layout level⟩, hspells, o.read_tokens,
    fun m => ?_⟩
  · have hwalk : doubleNegativesInGuards.onStmt owner
        (.ifStmt ((first :: more).map Clause.condition) body otherwise isGuard span) =
        .ifStmt (((first :: more).map (Clause.walked owner)).map Clause.condition)
          (doubleNegativesInGuards.onStmts owner body)
          (doubleNegativesInGuards.onBody owner otherwise) isGuard span := by
      rw [← Clause.onConditions_map, Transform.onStmt]
      rfl
    rw [Transform.onStmts, hwalk, Transform.flatten]
    exact congrArg (fun s => [s]) hcancel
  · exact (hholds m).trans ((hruns m).trans (Clause.runs_walked m owner isGuard (first :: more)))

end

end Ferry.Target
