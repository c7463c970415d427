/-
  Ferry.Proofs.Target.Sign

  Signs in front of operands.  A prefix operator is written right before its operand, which is in
  parentheses only if it binds less tightly than the operator.  An operand that binds tightly enough
  may itself start with a sign: a negative literal, another prefix operation, or what starts with
  one of these.  `sign_doubled_iff` says when the same sign follows, so that the target reads two of
  them as one operator: the leftmost text of the operand decides.
-/
import Ferry.Proofs.Target.Operation

namespace Ferry.Target

/-! ## Leftmost texts -/

/-- Whether a document is not put together from others on the same line. -/
def Document.isLeaf : Document → Bool
  | .cat _ | .list .. => false
  | _ => true

/-- That the text of a document starts with that of another one, but for what is empty. -/
inductive Document.Leads (layout : Layout) (level : Nat) : Document → Document → Prop where
  | refl (d : Document) : Leads layout level d d
  | cat {d leaf : Document} (rest : List Document) (h : Leads layout level d leaf) :
    Leads layout level (.cat (d :: rest)) leaf
  | skip {d leaf : Document} {rest : List Document} (hd : d.render layout level = "")
    (h : Leads layout level (.cat rest) leaf) : Leads layout level (.cat (d :: rest)) leaf
  | list {head leaf : Document} (items : List Document) (tail : Document)
    (h : Leads layout level head leaf) : Leads layout level (.list head items tail) leaf
  | leaf {d : Document} (hd : d.isLeaf = true) :
    Leads layout level d (.text (d.render layout level))

def StartsWith (sign : Char) (text : String) : Prop := text.toList.head? = some sign

section

variable {sign : Char} {text after : String}

theorem startsWith_append_iff :
    StartsWith sign (text ++ after) ↔ StartsWith sign text ∨ text = "" ∧ StartsWith sign after := by
  rw [StartsWith, String.toList_append, List.head?_append, Option.or_eq_some_iff]
  simp [StartsWith]

theorem StartsWith.append (h : StartsWith sign text) (after : String) :
    StartsWith sign (text ++ after) :=
  startsWith_append_iff.mpr (.inl h)

end

namespace Document

variable (layout : Layout) (level : Nat)

theorem render_cat_cons (d : Document) (rest : List Document) :
    (cat (d :: rest)).render layout level =
      d.render layout level ++ (cat rest).render layout level := by
  rw [render, renderAll, String.join_cons, render]

theorem render_list (head : Document) (items : List Document) (tail : Document) :
    ∃ after, (list head items tail).render layout level =
      head.render layout level ++ ("(" ++ after) := by
  rw [render]
  split
  · exact ⟨_, by simp only [String.append_assoc]; rfl⟩
  · exact ⟨"\n" ++ _, by simp only [String.append_assoc]; rfl⟩

variable {layout level} {sign : Char}

theorem Leads.exists_append {d leaf : Document} (h : d.Leads layout level leaf) :
    ∃ after, d.render layout level = leaf.render layout level ++ after := by
  induction h with
  | refl | leaf => exact ⟨"", String.append_empty.symm⟩
  | cat rest _ ih =>
    obtain ⟨after, hafter⟩ := ih
    exact ⟨_, by rw [render_cat_cons, hafter, String.append_assoc]⟩
  | skip hd _ ih =>
    obtain ⟨after, hafter⟩ := ih
    exact ⟨after, by rw [render_cat_cons, hd, String.empty_append, hafter]⟩
  | list items tail _ ih =>
    obtain ⟨after, hafter⟩ := ih
    obtain ⟨more, hmore⟩ := render_list layout level _ items tail
    exact ⟨_, by rw [hmore, hafter, String.append_assoc]⟩

mutual

/-- A document that starts with a sign has a leftmost text that does. -/
theorem exists_leads (hsign : sign = '-' ∨ sign = '+') : ∀ d : Document,
    StartsWith sign (d.render layout level) →
      ∃ words, d.Leads layout level (.text words) ∧ StartsWith sign words
  | .text _, h | .marker _, h | .block .., h | .lambda .., h | .branch .., h => ⟨_, .leaf rfl, h⟩
  | .cat parts, h => exists_leads_cat hsign parts h
  | .list head items tail, h => by
    obtain ⟨after, hafter⟩ := render_list layout level head items tail
    rw [hafter, startsWith_append_iff] at h
    obtain h | ⟨-, h⟩ := h
    · obtain ⟨words, hleads, hwords⟩ := exists_leads hsign head h
      exact ⟨words, .list items tail hleads, hwords⟩
    · obtain rfl | rfl := hsign <;> simp [StartsWith] at h

theorem exists_leads_cat (hsign : sign = '-' ∨ sign = '+') : ∀ parts : List Document,
    StartsWith sign ((cat parts).render layout level) →
      ∃ words, (cat parts).Leads layout level (.text words) ∧ StartsWith sign words
  | [], h => absurd h (by simp [render, renderAll, StartsWith])
  | d :: rest, h => by
    rw [render_cat_cons, startsWith_append_iff] at h
    obtain h | ⟨hempty, h⟩ := h
    · obtain ⟨words, hleads, hwords⟩ := exists_leads hsign d h
      exact ⟨words, .cat rest hleads, hwords⟩
    · obtain ⟨words, hleads, hwords⟩ := exists_leads_cat hsign rest h
      exact ⟨words, .skip hempty hleads, hwords⟩

end

end Document

/-! ## Doubled signs -/

variable {op : String} {sign : Char}

theorem render_prefixOp (hop : op ≠ "~") (e : Expr) (info : Info)
    (registry : Registry) (role : Role) (layout : Layout) (level : Nat) :
    (exprDocument registry role (.prefixOp op e info)).render layout level =
      op ++ (operand e (exprDocument registry .value e) .prefixed false).render layout level := by
  have hdocument : exprDocument registry role (.prefixOp op e info) =
      .cat [.text op, operand e (exprDocument registry .value e) .prefixed false] := if_neg hop
  rw [hdocument]
  simp [Document.render, Document.renderAll]

/-- A sign is followed by the same sign exactly where the operand stands without parentheses and
starts with it.  It starts with the sign where a literal or a prefix operation with that sign leads
it, and exactly where its leftmost text does. -/
theorem sign_doubled_iff (hop : op = String.singleton sign) (hsign : sign = '-' ∨ sign = '+')
    (e : Expr) (info : Info) (registry : Registry) (role : Role) (layout : Layout) (level : Nat) :
    ∃ rest, (exprDocument registry role (.prefixOp op e info)).render layout level = op ++ rest ∧
      (StartsWith sign rest ↔ needsParentheses (precedenceOf e) .prefixed false = false ∧
        StartsWith sign ((exprDocument registry .value e).render layout level)) ∧
      (∀ leaf, (exprDocument registry .value e).Leads layout level
        (exprDocument registry .value leaf) → (∃ inner info, leaf = .prefixOp op inner info) ∨
          (∃ value info, leaf = .literal value info ∧ StartsWith sign (literalText value)) →
        StartsWith sign ((exprDocument registry .value e).render layout level)) ∧
      (StartsWith sign ((exprDocument registry .value e).render layout level) ↔
        ∃ words, (exprDocument registry .value e).Leads layout level (.text words) ∧
          StartsWith sign words) := by
  have hne : op ≠ "~" := by
    rintro rfl
    obtain rfl | rfl := hsign <;> exact absurd hop (by decide)
  have hstarts : StartsWith sign op := by rw [StartsWith, hop]; simp
  refine ⟨_, render_prefixOp hne e info registry role layout level, ?_, ?_,
    Document.exists_leads hsign _, ?_⟩
  · rw [operand]
    split
    next hwraps =>
      rw [Operation.render_parenthesized, String.append_assoc]
      -- A parenthesis is no sign.
      have hparen : ∀ inner, ¬ StartsWith sign ("(" ++ inner) := by
        obtain rfl | rfl := hsign <;> simp [StartsWith]
      simp [hparen, hwraps]
    next hbare => simp [hbare]
  · intro leaf hleads hleaf
    obtain ⟨after, hafter⟩ := hleads.exists_append
    rw [hafter]
    refine StartsWith.append ?_ after
    -- The leftmost part is written by its own sign.
    obtain ⟨inner, info, rfl⟩ | ⟨value, info, rfl, hvalue⟩ := hleaf
    · rw [render_prefixOp hne]
      exact hstarts.append _
    · exact hvalue
  · rintro ⟨words, hleads, hwords⟩
    obtain ⟨after, hafter⟩ := hleads.exists_append
    exact hafter ▸ StartsWith.append hwords after

theorem sign_doubled_negativeLiteral : ∃ rest,
    (exprDocument {} .value (.prefixOp "-" (.literal (.int (-5)) {}) {})).render {} 0 = "-" ++
      rest ∧ StartsWith '-' rest := by
  have hop : "-" = String.singleton '-' := by decide
  obtain ⟨rest, htext, hdoubled, -⟩ :=
    sign_doubled_iff hop (.inl rfl) (.literal (.int (-5)) {}) {} {} .value {} 0
  exact ⟨rest, htext, hdoubled.mpr ⟨rfl, rfl⟩⟩

end Ferry.Target
