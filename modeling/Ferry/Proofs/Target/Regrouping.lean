/-
  Ferry.Proofs.Target.Regrouping

  Written operations are grouped by the target as they were meant.  The target reads by precedence
  climbing: an operand, and then every infix operator that binds at least as tightly as asked for,
  each with a right operand that binds tighter (or as tightly, if the operator groups to the right).
  A prefix operator takes one operand, and a conditional takes everything that can follow `else`.

  `read_operation` is the main result: the reader succeeds on the tokens of every operation and
  returns its grouping, so parentheses are written wherever the target needs them.
-/
import Ferry.Proofs.Target.Operation

namespace Ferry.Target

/-! ## The reader -/

/-- The least level at which the right operand of an operator is read. -/
def rightLevel (op : String) : Nat :=
  if isRightAssociative op then (operatorPrecedence op).rank else (operatorPrecedence op).rank + 1

mutual

/-- Reads one operand: an atom, an operand behind a prefix operator, an operation in parentheses or
    a conditional. -/
def readOperand (ts : List Token) :
    Option (Grouping × { rest : List Token // rest.length < ts.length }) :=
  match ts with
  | .atom value :: rest => some (.atom value, ⟨rest, by simp⟩)
  | .sign op :: rest => do
    let (operand, ⟨after, h⟩) ← readOperand rest
    return (.signed op operand, ⟨after, by simp only [List.length_cons]; omega⟩)
  | .opening :: rest => do
    match ← readFrom 0 rest with
    | (inner, ⟨.closing :: after, h⟩) =>
      return (inner, ⟨after, by simp only [List.length_cons] at h ⊢; omega⟩)
    | _ => none
  | .ifWord :: .opening :: rest => do
    match ← readFrom 0 rest with
    | (condition, ⟨.closing :: middle, hc⟩) =>
      match ← readFrom 0 middle with
      | (yes, ⟨.elseWord :: last, hy⟩) => do
        let (no, ⟨after, hn⟩) ← readFrom 0 last
        return (.choice condition yes no,
          ⟨after, by simp only [List.length_cons] at hc hy ⊢; omega⟩)
      | _ => none
    | _ => none
  | _ => none
termination_by (ts.length, 0)
decreasing_by
  all_goals simp only [List.length_cons] at *
  all_goals apply Prod.Lex.left
  all_goals omega

/-- Reads an operation whose infix operators outside parentheses bind at least at a level. -/
def readFrom (least : Nat) (ts : List Token) :
    Option (Grouping × { rest : List Token // rest.length < ts.length }) := do
  let (left, ⟨middle, hm⟩) ← readOperand ts
  let (whole, ⟨after, ha⟩) ← readOn least left middle
  return (whole, ⟨after, by omega⟩)
termination_by (ts.length, 1)
decreasing_by
  · exact Prod.Lex.right _ (by omega)
  · exact Prod.Lex.left _ _ hm

/-- Reads infix operators after an operand as long as they bind at least at a level. -/
def readOn (least : Nat) (left : Grouping) (ts : List Token) :
    Option (Grouping × { rest : List Token // rest.length ≤ ts.length }) :=
  match ts with
  | .operator op :: rest =>
    if least ≤ (operatorPrecedence op).rank then do
      let (right, ⟨middle, hm⟩) ← readFrom (rightLevel op) rest
      let (whole, ⟨after, ha⟩) ← readOn least (.joined left op right) middle
      return (whole, ⟨after, by simp only [List.length_cons]; omega⟩)
    else some (left, ⟨.operator op :: rest, Nat.le_refl _⟩)
  | ts => some (left, ⟨ts, Nat.le_refl _⟩)
termination_by (ts.length, 0)
decreasing_by
  all_goals simp only [List.length_cons] at *
  all_goals apply Prod.Lex.left
  all_goals omega

end

/-- Reads all of some tokens as one operation. -/
def read (ts : List Token) : Option Grouping :=
  match readFrom 0 ts with
  | some (whole, ⟨[], _⟩) => some whole
  | _ => none

/-! ## What the reader does, step by step -/

/-- The reader takes an operand off some tokens and leaves the rest. -/
def ReadsOperand (ts : List Token) (found : Grouping) (rest : List Token) : Prop :=
  ∃ h, readOperand ts = some (found, ⟨rest, h⟩)

/-- The reader takes an operation off some tokens and leaves the rest. -/
def Reads (least : Nat) (ts : List Token) (found : Grouping) (rest : List Token) : Prop :=
  ∃ h, readFrom least ts = some (found, ⟨rest, h⟩)

/-- After an operand the reader goes on to an operation and leaves the rest. -/
def ReadsOn (least : Nat) (left : Grouping) (ts : List Token) (found : Grouping)
    (rest : List Token) : Prop :=
  ∃ h, readOn least left ts = some (found, ⟨rest, h⟩)

/-- No infix operator that binds at a level or tighter comes next. -/
def Stops (least : Nat) (ts : List Token) : Prop :=
  ∀ op, ts.head? = some (.operator op) → (operatorPrecedence op).rank < least

theorem readsOperand_atom (value : Atom) (rest : List Token) :
    ReadsOperand (.atom value :: rest) (.atom value) rest := by
  refine ⟨by simp, ?_⟩
  rw [readOperand]

theorem readsOperand_sign (op : String) {ts rest : List Token} {found : Grouping}
    (h : ReadsOperand ts found rest) :
    ReadsOperand (.sign op :: ts) (.signed op found) rest := by
  obtain ⟨hlt, h⟩ := h
  refine ⟨by simp only [List.length_cons]; omega, ?_⟩
  rw [readOperand, h]
  rfl

theorem readsOperand_opening {ts rest : List Token} {found : Grouping}
    (h : Reads 0 ts found (.closing :: rest)) :
    ReadsOperand (.opening :: ts) found rest := by
  obtain ⟨hlt, h⟩ := h
  refine ⟨by simp only [List.length_cons] at hlt ⊢; omega, ?_⟩
  rw [readOperand, h]
  rfl

theorem readsOperand_choice {ts middle last rest : List Token} {condition yes no : Grouping}
    (hc : Reads 0 ts condition (.closing :: middle)) (hy : Reads 0 middle yes (.elseWord :: last))
    (hn : Reads 0 last no rest) :
    ReadsOperand (.ifWord :: .opening :: ts) (.choice condition yes no) rest := by
  obtain ⟨hcl, hc⟩ := hc
  obtain ⟨hyl, hy⟩ := hy
  obtain ⟨hnl, hn⟩ := hn
  refine ⟨by simp only [List.length_cons] at hcl hyl ⊢; omega, ?_⟩
  rw [readOperand, hc]
  simp only [Option.bind_eq_bind, Option.bind_some, hy, hn]
  rfl

theorem reads_of_readsOn {least : Nat} {ts middle rest : List Token} {left found : Grouping}
    (hl : ReadsOperand ts left middle) (h : ReadsOn least left middle found rest) :
    Reads least ts found rest := by
  obtain ⟨hml, hl⟩ := hl
  obtain ⟨hrl, h⟩ := h
  refine ⟨by omega, ?_⟩
  rw [readFrom, hl]
  simp only [Option.bind_eq_bind, Option.bind_some, h]
  rfl

theorem readsOn_operator {least : Nat} {op : String} {ts middle rest : List Token}
    {left right found : Grouping} (hop : least ≤ (operatorPrecedence op).rank)
    (hr : Reads (rightLevel op) ts right middle)
    (h : ReadsOn least (.joined left op right) middle found rest) :
    ReadsOn least left (.operator op :: ts) found rest := by
  obtain ⟨hml, hr⟩ := hr
  obtain ⟨hrl, h⟩ := h
  refine ⟨by simp only [List.length_cons]; omega, ?_⟩
  rw [readOn, if_pos hop, hr]
  simp only [Option.bind_eq_bind, Option.bind_some, h]
  rfl

theorem readsOn_stop {least : Nat} {ts : List Token} (h : Stops least ts) (left : Grouping) :
    ReadsOn least left ts left ts := by
  refine ⟨Nat.le_refl _, ?_⟩
  unfold readOn
  split
  next op rest =>
    have hop := h op rfl
    rw [if_neg (by omega)]
  next => rfl

/-- The reader takes all of some tokens exactly when it leaves none. -/
theorem read_of_reads {ts : List Token} {found : Grouping} (h : Reads 0 ts found []) :
    read ts = some found := by
  obtain ⟨hlt, h⟩ := h
  rw [read, h]

/-! ## The operator table -/

theorem rank_operatorPrecedence (op : String) :
    Precedence.lowest.rank < (operatorPrecedence op).rank ∧
      (operatorPrecedence op).rank < Precedence.prefixed.rank := by
  unfold operatorPrecedence
  split <;> decide

theorem isRightAssociative_iff (op : String) :
    isRightAssociative op = true ↔
      (operatorPrecedence op).rank = Precedence.assignment.rank ∨
        (operatorPrecedence op).rank = Precedence.elvis.rank := by
  constructor
  · intro h
    simp only [isRightAssociative, List.contains_iff_mem, List.mem_cons, List.not_mem_nil,
      or_false] at h
    rcases h with rfl | rfl | rfl | rfl | rfl | rfl | rfl <;> decide
  · unfold operatorPrecedence
    split <;> simp [Precedence.rank, isRightAssociative]

theorem isRightAssociative_eq_of_rank_eq {a b : String}
    (h : (operatorPrecedence a).rank = (operatorPrecedence b).rank) :
    isRightAssociative a = isRightAssociative b := by
  rw [Bool.eq_iff_iff, isRightAssociative_iff, isRightAssociative_iff, h]

namespace Operation

def level (o : Operation) : Nat :=
  (precedenceOf o.expr).rank

/-- Infix operators at this level or above would be taken into the operation if they followed it. -/
def reach : Operation → Nat
  | binary _ op _ _ => rightLevel (operatorText op)
  | o => o.level

theorem level_literal {value : Literal} {info : Info} (unsigned : value.isNegative = false) :
    (literal value info unsigned).level = Precedence.atom.rank := by
  rw [level, expr, precedenceOf_literal unsigned]

theorem level_le_reach (o : Operation) : o.level ≤ o.reach := by
  cases o with
  | binary lhs op rhs info =>
    simp only [level, expr, precedenceOf, reach, rightLevel]
    split <;> omega
  | _ => exact Nat.le_refl _

/-- What an operand without parentheses needs: it binds at least as tightly as its operator, and
    tighter on the side where a tie asks for parentheses. -/
theorem le_level_of_unwrapped {o : Operation} {op : String} {tieWraps : Bool}
    (h : needsParentheses (precedenceOf o.expr) (operatorPrecedence op) tieWraps = false) :
    (operatorPrecedence op).rank + (if tieWraps then 1 else 0) ≤ o.level := by
  have hop := (rank_operatorPrecedence op).2
  have hpost : Precedence.prefixed.rank < Precedence.postfixed.rank := by decide
  simp only [needsParentheses, Bool.or_eq_false_iff, Bool.and_eq_false_iff, decide_eq_false_iff_not,
    beq_eq_false_iff_ne] at h
  obtain ⟨hle, htie⟩ := h
  rw [level]
  cases tieWraps with
  | false => simpa using hle
  | true =>
    rw [if_pos rfl]
    rcases htie with (hne | hfalse) | hlt
    · omega
    · exact absurd hfalse (by decide)
    · omega

/-- An operator after its left operand is not taken into that operand. -/
theorem rank_lt_reach_of_unwrapped {o : Operation} {op : String}
    (h : needsParentheses (precedenceOf o.expr) (operatorPrecedence op) (isRightAssociative op) =
      false) :
    (operatorPrecedence op).rank < o.reach := by
  have hle := le_level_of_unwrapped h
  have hreach := o.level_le_reach
  have hop := rank_operatorPrecedence op
  by_cases htie : (operatorPrecedence op).rank = o.level
  · -- On a tie the operand is itself an operation at this level, which groups to the same side.
    cases o with
    | binary lhs inner rhs info =>
      have hright := isRightAssociative_eq_of_rank_eq htie
      cases hassoc : isRightAssociative op with
      | true => simp only [hassoc, if_true] at hle; omega
      | false =>
        simp only [level, expr, precedenceOf] at htie
        simp only [reach, rightLevel, ← hright, hassoc]
        simp only [Bool.false_eq_true, if_false]
        omega
    | literal value info unsigned =>
      rw [level_literal] at htie
      simp only [Precedence.rank] at htie hop
      omega
    | _ =>
      simp only [level, expr, precedenceOf, Precedence.rank] at htie hop
      omega
  · omega

/-! ## Reading operations back -/

/-- What the reader does with the tokens of an operation, whatever follows them.  The second part is
    the invariant of the induction: at any level the operation allows, the reader comes to the point
    where it has read the operation and goes on with what follows. -/
structure Readable (o : Operation) : Prop where
  asOperand : Precedence.prefixed.rank ≤ o.level →
    ∀ rest, ReadsOperand (o.tokens ++ rest) o.grouping rest
  onward : ∀ {least : Nat} {rest after : List Token} {found : Grouping}, least ≤ o.level →
    Stops o.reach rest → ReadsOn least o.grouping rest found after →
    Reads least (o.tokens ++ rest) found after

namespace Readable

variable {o : Operation}

theorem of_operand (h : ∀ rest, ReadsOperand (o.tokens ++ rest) o.grouping rest) : o.Readable where
  asOperand _ := h
  onward _ _ hon := reads_of_readsOn (h _) hon

/-- An operation in front of a token that is no infix operator is read as a whole. -/
theorem whole (h : o.Readable) {rest : List Token}
    (hrest : ∀ op, rest.head? ≠ some (.operator op)) :
    Reads 0 (o.tokens ++ rest) o.grouping rest := by
  have hstops : ∀ least, Stops least rest := fun least op hop => absurd hop (hrest op)
  exact h.onward (Nat.zero_le _) (hstops _) (readsOn_stop (hstops 0) _)

theorem parenthesized (h : o.Readable) (rest : List Token) :
    ReadsOperand (.opening :: (o.tokens ++ [.closing]) ++ rest) o.grouping rest := by
  rw [List.cons_append, List.append_assoc]
  exact readsOperand_opening (h.whole (by simp))

theorem left (h : o.Readable) {least : Nat} {op : String} {rest after : List Token}
    {found : Grouping} (hleast : least ≤ (operatorPrecedence op).rank)
    (hon : ReadsOn least o.grouping (.operator op :: rest) found after) :
    Reads least (o.wrap o.tokens (operatorPrecedence op) (isRightAssociative op) ++
      .operator op :: rest) found after := by
  unfold wrap
  split
  next => exact reads_of_readsOn (h.parenthesized _) hon
  next hneeds =>
    rw [Bool.not_eq_true] at hneeds
    have hlevel := le_level_of_unwrapped hneeds
    refine h.onward (by omega) ?_ hon
    intro other hother
    simp only [List.head?_cons, Option.some.injEq, Token.operator.injEq] at hother
    rw [← hother]
    exact rank_lt_reach_of_unwrapped hneeds

theorem right (h : o.Readable) {op : String} {rest : List Token}
    (hstops : Stops (rightLevel op) rest) :
    Reads (rightLevel op) (o.wrap o.tokens (operatorPrecedence op) (!isRightAssociative op) ++ rest)
      o.grouping rest := by
  unfold wrap
  split
  next => exact reads_of_readsOn (h.parenthesized _) (readsOn_stop hstops _)
  next hneeds =>
    rw [Bool.not_eq_true] at hneeds
    have hlevel : rightLevel op ≤ o.level := by
      have hle := le_level_of_unwrapped hneeds
      rw [rightLevel]
      cases hassoc : isRightAssociative op <;> simp [hassoc] at hle ⊢ <;> omega
    have hreach := o.level_le_reach
    refine h.onward hlevel ?_ (readsOn_stop hstops _)
    intro other hother
    have hlt := hstops other hother
    omega

theorem signedOperand (h : o.Readable) (rest : List Token) :
    ReadsOperand (o.wrap o.tokens .prefixed false ++ rest) o.grouping rest := by
  unfold wrap
  split
  next => exact h.parenthesized _
  next hneeds =>
    refine h.asOperand ?_ rest
    simpa [needsParentheses, level] using hneeds

theorem branch (h : o.Readable) (rest : List Token) :
    Reads 0 (o.wrap o.tokens .assignment false ++ .elseWord :: rest) o.grouping
      (.elseWord :: rest) := by
  have hstops : Stops 0 (.elseWord :: rest) := by
    intro op hop
    simp at hop
  unfold wrap
  split
  next => exact reads_of_readsOn (h.parenthesized _) (readsOn_stop hstops _)
  next => exact h.whole (by simp)

end Readable

theorem readable (o : Operation) : o.Readable := by
  induction o with
  | literal value info unsigned => exact .of_operand (readsOperand_atom _)
  | reference name isLibrary isImplicit info => exact .of_operand (readsOperand_atom _)
  | binary lhs op rhs info ihl ihr =>
    have hop := (rank_operatorPrecedence (operatorText op)).2
    constructor
    · intro hlevel
      simp only [level, expr, precedenceOf] at hlevel
      omega
    · intro least rest after found hleast hstops hon
      rw [tokens, List.append_assoc]
      exact ihl.left hleast (readsOn_operator hleast (ihr.right hstops) hon)
  | signed op operand info isOperator ih =>
    exact .of_operand fun rest => readsOperand_sign op (ih.signedOperand rest)
  | choice condition yes no info ihc ihy ihn =>
    constructor
    · intro hlevel
      simp [level, expr, precedenceOf, Precedence.rank] at hlevel
    · intro least rest after found _ hstops hon
      -- Nothing binds looser than a conditional, so no infix operator can follow it.
      have hrest : ∀ op, rest.head? ≠ some (.operator op) := fun op hop =>
        absurd (hstops op hop) (by simp [reach, level, expr, precedenceOf, Precedence.rank])
      refine reads_of_readsOn ?_ hon
      simp only [tokens, List.cons_append, List.append_assoc]
      exact readsOperand_choice (ihc.whole (by simp)) (ihy.branch _) (ihn.whole hrest)
  | paren inner info ih => exact .of_operand ih.parenthesized

/-- Written operations are grouped as they were meant: what is written is the spelling of the
    tokens, and reading the tokens by the operator table of the target gives the operation back, its
    parentheses deleted and its operators in their target spelling. -/
theorem read_operation (registry : Registry) (layout : Layout) (indent : Nat) (o : Operation) :
    (exprDocument registry .value o.expr).render layout indent = Token.spelled o.tokens ∧
      read o.tokens = some o.grouping := by
  refine ⟨render_operation registry layout indent o, ?_⟩
  have h : Reads 0 (o.tokens ++ []) o.grouping [] := o.readable.whole (by simp)
  rw [List.append_nil] at h
  exact read_of_reads h

end Operation

end Ferry.Target
