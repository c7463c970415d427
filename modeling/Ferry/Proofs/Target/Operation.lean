/-
  Ferry.Proofs.Target.Operation

  Operations are the expressions whose grouping the target decides by precedence: atoms joined by
  infix and prefix operators, conditionals and parentheses.  This module says what an operation is
  once written, as tokens and as text, and what it means, as a tree without parentheses.

  The tokens are those of the document: `render_operation` gives the rendered document as the
  spelling of the tokens, whatever the layout.
-/
import Ferry.Target.Emit

namespace Ferry

def Literal.isNegative : Literal → Bool
  | int value => value < 0
  | double value | float value => value.isNegative
  | _ => false

namespace Target

theorem precedenceOf_literal {value : Literal} (h : value.isNegative = false) (info : Info) :
    precedenceOf (.literal value info) = .atom := by
  cases value <;> simp_all [Literal.isNegative, precedenceOf]

/-! ## Operations -/

/-- An expression of atoms, infix and prefix operators, conditionals and parentheses.  The operator
    `~` is not among them: the target spells it as a method. -/
inductive Operation where
  | literal (value : Literal) (info : Info) (unsigned : value.isNegative = false)
  | reference (name : String) (isLibrary isImplicit : Bool) (info : Info)
  | binary (lhs : Operation) (op : String) (rhs : Operation) (info : Info)
  | signed (op : String) (operand : Operation) (info : Info) (isOperator : op ≠ "~")
  | choice (condition yes no : Operation) (info : Info)
  | paren (inner : Operation) (info : Info)

/-- An operand that is one word. -/
inductive Atom where
  | literal (value : Literal)
  | reference (name : String)
deriving DecidableEq

def Atom.text : Atom → String
  | literal value => literalText value
  | reference name => referenceText name

/-- What an operation means: which operands each operator joins.  Operators have their target
    spelling, and there are no parentheses. -/
inductive Grouping where
  | atom (value : Atom)
  | joined (lhs : Grouping) (op : String) (rhs : Grouping)
  | signed (op : String) (operand : Grouping)
  | choice (condition yes no : Grouping)
deriving DecidableEq

/-- A word of a written operation. -/
inductive Token where
  | atom (value : Atom)
  /-- An infix operator in its target spelling. -/
  | operator (op : String)
  /-- A prefix operator. -/
  | sign (op : String)
  | opening
  | closing
  | ifWord
  | elseWord
deriving DecidableEq

namespace Operation

def expr : Operation → Expr
  | literal value info _ => .literal value info
  | reference name isLibrary isImplicit info => .name name isLibrary isImplicit info
  | binary lhs op rhs info => .binary lhs.expr op rhs.expr info
  | signed op operand info _ => .prefixOp op operand.expr info
  | choice condition yes no info => .ternary condition.expr yes.expr no.expr info
  | paren inner info => .paren inner.expr info

/-- The operation without its parentheses, its operators in their target spelling. -/
def grouping : Operation → Grouping
  | literal value _ _ => .atom (.literal value)
  | reference name _ _ _ => .atom (.reference name)
  | binary lhs op rhs _ => .joined lhs.grouping (operatorText op) rhs.grouping
  | signed op operand _ _ => .signed op operand.grouping
  | choice condition yes no _ => .choice condition.grouping yes.grouping no.grouping
  | paren inner _ => inner.grouping

/-- The tokens of an operand, in parentheses where the document has them. -/
def wrap (o : Operation) (written : List Token) (parent : Precedence) (tieWraps : Bool) :
    List Token :=
  if needsParentheses (precedenceOf o.expr) parent tieWraps then
    .opening :: (written ++ [.closing])
  else written

/-- The words of the written operation, one for each atom, operator, parenthesis, `if` and
`else`. -/
def tokens : Operation → List Token
  | literal value _ _ => [.atom (.literal value)]
  | reference name _ _ _ => [.atom (.reference name)]
  | binary lhs op rhs _ =>
    let op := operatorText op
    let precedence := operatorPrecedence op
    lhs.wrap lhs.tokens precedence (isRightAssociative op) ++
      .operator op :: rhs.wrap rhs.tokens precedence (!isRightAssociative op)
  | signed op operand _ _ => .sign op :: operand.wrap operand.tokens .prefixed false
  | choice condition yes no _ =>
    .ifWord :: .opening :: (condition.tokens ++
      .closing :: (yes.wrap yes.tokens .assignment false ++ .elseWord :: no.tokens))
  | paren inner _ => .opening :: (inner.tokens ++ [.closing])

end Operation

/-! ## Spelling -/

namespace Token

def text : Token → String
  | atom value => value.text
  | operator op => if isTight op then op else " " ++ op ++ " "
  | sign op => op
  | opening => "("
  | closing => ")"
  | ifWord => "if "
  | elseWord => " else "

def startsOperand : Token → Bool
  | atom _ | sign _ | opening | ifWord => true
  | operator _ | closing | elseWord => false

/-- The blank between a parenthesis and an operand right after it. -/
def gap (t : Token) (rest : List Token) : String :=
  if t == closing && rest.head?.any startsOperand then " " else ""

def spelled : List Token → String
  | [] => ""
  | t :: rest => t.text ++ t.gap rest ++ spelled rest

theorem spelled_cons {t : Token} (h : t ≠ closing) (rest : List Token) :
    spelled (t :: rest) = t.text ++ spelled rest := by
  simp [spelled, gap, h]

theorem spelled_closing_cons (rest : List Token) :
    spelled (closing :: rest) =
      (if rest.head?.any startsOperand then ") " else ")") ++ spelled rest := by
  simp only [spelled, gap, text, BEq.rfl, Bool.true_and]
  split <;> simp

/-- What is written first does not depend on a token after it that starts no operand. -/
theorem spelled_append (first : List Token) {t : Token} (h : t.startsOperand = false)
    (rest : List Token) :
    spelled (first ++ t :: rest) = spelled first ++ spelled (t :: rest) := by
  induction first with
  | nil => simp [spelled]
  | cons head tail ih =>
    have hgap : head.gap (tail ++ t :: rest) = head.gap tail := by
      cases tail <;> simp [gap, h]
    rw [List.cons_append, spelled, hgap, ih]
    simp only [spelled, String.append_assoc]

end Token

/-! ## Tokens and documents -/

namespace Operation

theorem startsOperand_tokens (o : Operation) : o.tokens.head?.any Token.startsOperand = true := by
  induction o with
  | binary lhs op rhs info ihl ihr =>
    simp only [tokens, wrap]
    split
    · rfl
    · rw [List.head?_append]
      cases h : lhs.tokens.head? with
      | none => simp [h] at ihl
      | some t => simpa [h] using ihl
  | _ => rfl

theorem startsOperand_wrap (o : Operation) (parent : Precedence) (tieWraps : Bool)
    (rest : List Token) :
    (o.wrap o.tokens parent tieWraps ++ rest).head?.any Token.startsOperand = true := by
  have ho := o.startsOperand_tokens
  unfold wrap
  split
  · rfl
  · rw [List.head?_append]
    cases h : o.tokens.head? with
    | none => simp [h] at ho
    | some t => simpa [h] using ho

variable (registry : Registry)

theorem exprDocument_literal (value : Literal) (info : Info) :
    exprDocument registry .value (.literal value info) = .text (literalText value) := rfl

theorem exprDocument_name (name : String) (isLibrary isImplicit : Bool) (info : Info) :
    exprDocument registry .value (.name name isLibrary isImplicit info) =
      .text (referenceText name) := rfl

theorem exprDocument_binary (lhs : Expr) (op : String) (rhs : Expr) (info : Info) :
    exprDocument registry .value (.binary lhs op rhs info) =
      binaryDocument lhs op rhs (exprDocument registry .value lhs)
        (exprDocument registry .value rhs) := rfl

theorem exprDocument_prefixOp {op : String} (h : op ≠ "~") (e : Expr) (info : Info) :
    exprDocument registry .value (.prefixOp op e info) =
      .cat [.text op, operand e (exprDocument registry .value e) .prefixed false] :=
  if_neg h

theorem exprDocument_ternary (condition yes no : Expr) (info : Info) :
    exprDocument registry .value (.ternary condition yes no info) =
      .cat [.text "if (", exprDocument registry .value condition, .text ") ",
        operand yes (exprDocument registry .value yes) .assignment false, .text " else ",
        exprDocument registry .value no] := rfl

theorem exprDocument_paren (inner : Expr) (info : Info) :
    exprDocument registry .value (.paren inner info) =
      Document.parenthesized (exprDocument registry .value inner) := rfl

variable (layout : Layout) (level : Nat)

theorem render_parenthesized (d : Document) :
    d.parenthesized.render layout level = "(" ++ d.render layout level ++ ")" := by
  simp [Document.parenthesized, Document.render, Document.renderAll, String.append_assoc]

theorem render_operand (o : Operation) (parent : Precedence) (tieWraps : Bool)
    (ih : (exprDocument registry .value o.expr).render layout level = Token.spelled o.tokens) :
    (operand o.expr (exprDocument registry .value o.expr) parent tieWraps).render layout level =
      Token.spelled (o.wrap o.tokens parent tieWraps) := by
  unfold operand wrap
  split
  · rw [render_parenthesized, ih, Token.spelled_cons (by decide), Token.spelled_append _ rfl]
    simp only [Token.spelled_closing_cons, Token.text, String.append_assoc]
    rfl
  · exact ih

theorem render_operation (o : Operation) :
    (exprDocument registry .value o.expr).render layout level = Token.spelled o.tokens := by
  induction o with
  | literal value info unsigned =>
    rw [expr, exprDocument_literal]
    simp [Document.render, tokens, Token.spelled, Token.gap, Token.text, Atom.text]
  | reference name isLibrary isImplicit info =>
    rw [expr, exprDocument_name]
    simp [Document.render, tokens, Token.spelled, Token.gap, Token.text, Atom.text]
  | binary lhs op rhs info ihl ihr =>
    have hl := render_operand registry layout level lhs (operatorPrecedence (operatorText op))
      (isRightAssociative (operatorText op)) ihl
    have hr := render_operand registry layout level rhs (operatorPrecedence (operatorText op))
      (!isRightAssociative (operatorText op)) ihr
    rw [tokens, Token.spelled_append _ rfl, Token.spelled_cons (by simp), ← hl, ← hr, expr,
      exprDocument_binary]
    simp [binaryDocument, Document.render, Document.renderAll, Token.text]
  | signed op inner info isOperator ih =>
    have h := render_operand registry layout level inner .prefixed false ih
    rw [tokens, Token.spelled_cons (by simp), ← h, expr, exprDocument_prefixOp registry isOperator]
    simp [Document.render, Document.renderAll, Token.text]
  | choice condition yes no info ihc ihy ihn =>
    have hy := render_operand registry layout level yes .assignment false ihy
    -- The parenthesis after the condition is the one place where a blank follows.
    rw [tokens, Token.spelled_cons (by decide), Token.spelled_cons (by decide),
      Token.spelled_append _ rfl, Token.spelled_closing_cons, if_pos (startsOperand_wrap ..),
      Token.spelled_append _ rfl, Token.spelled_cons (by decide), ← ihc, ← hy, ← ihn, expr,
      exprDocument_ternary]
    simp only [Document.render, Document.renderAll, Token.text, String.join_cons, String.join_nil,
      String.append_empty]
    exact @String.append_assoc "if " "(" _
  | paren inner info ih =>
    rw [expr, exprDocument_paren, render_parenthesized, ih, tokens, Token.spelled_cons (by decide),
      Token.spelled_append _ rfl]
    simp only [Token.spelled_closing_cons, Token.text, String.append_assoc]
    rfl

end Operation

end Target

end Ferry
