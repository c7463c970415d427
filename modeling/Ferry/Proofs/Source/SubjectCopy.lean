/-
  Ferry.Proofs.Source.SubjectCopy

  How often the subject of a `switch` is written.  It stands behind `when` unless some case is a
  test, in the tests that mention it, and in every name that a pattern binds, which is a part of it,
  a cast of it or all of it (`Projection`).

  A subject with effects is reported if there are tests or if a name is bound to a direct part.  So
  it is missed, and yet written more than once, exactly if names are bound to other things only or a
  case written against the subject has a copy of it inside (`missed_iff`).
-/
import Ferry.Pass.Warning
import Ferry.Proofs.Source.PatternReading
import Ferry.Proofs.Source.SwitchReading
import Ferry.Proofs.Traverse.Reach

namespace Ferry.Source

open Adapter

/-! ## Projections -/

/-- What patterns bind names to: parts and casts of what is matched. -/
inductive Projection (subject : Expr) : Expr → Prop where
  | whole : Projection subject subject
  | part {e : Expr} (h : Projection subject e) (name : String) :
      Projection subject (plainMember e name)
  | cast {e : Expr} (h : Projection subject e) (ty : String) :
      Projection subject (plainBinary e "as" (.typeName ty {}))

theorem Projection.trans {subject middle e : Expr} (h : Projection subject middle)
    (h' : Projection middle e) : Projection subject e := by
  induction h' with
  | whole => exact h
  | part _ name ih => exact ih.part name
  | cast _ ty ih => exact ih.cast ty

/-- That a match binds all its names to projections. -/
def Projects (subject : Expr) (found : PatternMatch) : Prop :=
  ∀ bound ∈ found.bindings, Projection subject bound.value

/-- That a pattern is read as such a match for every subject. -/
def Projecting (tables : SideTables) (n : Node) : Prop :=
  ∀ subject context isLet found,
    Yields tables (n.site.pattern subject context isLet).run (.ok found) → Projects subject found

section

variable {tables : SideTables} {n : Node} {nodes : List Node} {subject middle : Expr} {isLet : Bool}
  {found inner result : PatternMatch}

theorem projects_ofTest (subject test : Expr) : Projects subject (.ofTest test) :=
  fun _ hbound => absurd hbound List.not_mem_nil

theorem Projects.absorb (h : Projects subject found) (hmiddle : Projection subject middle)
    (hinner : Projects middle inner) : Projects subject (found.absorb inner) := by
  intro bound hbound
  rw [bindings_absorb] at hbound
  obtain hbound | hbound := List.mem_append.mp hbound
  · exact h bound hbound
  · exact hmiddle.trans (hinner bound hbound)

theorem projects_destructureElements {names : List String}
    (hnodes : ∀ n ∈ nodes, Projecting tables n) (h : Yields tables
      (destructureElements subject isLet found ((nodes.map Node.site).zip names)).run (.ok result))
    (hfound : Projects subject found) : Projects subject result := by
  induction nodes generalizing names found with
  | nil =>
    obtain rfl := Except.ok.inj (yields_pure h)
    exact hfound
  | cons n rest ih =>
    obtain ⟨hn, hrest⟩ := List.forall_mem_cons.mp hnodes
    cases names with
    | nil =>
      obtain rfl := Except.ok.inj (yields_pure h)
      exact hfound
    | cons name names =>
      obtain ⟨inner, hinner, h⟩ := yields_run_bind h
      exact ih hrest h (hfound.absorb (.part .whole name) (hn _ _ _ _ hinner))

theorem projects_destructurePayload {caseName : String} {declared : List (Option String)}
    {index : Nat} (hnodes : ∀ n ∈ nodes, ∀ child ∈ n.children, Projecting tables child)
    (h : Yields tables (destructurePayload caseName subject isLet declared found index
      (nodes.map Node.site)).run (.ok result))
    (hfound : Projects subject found) : Projects subject result := by
  induction nodes generalizing index found with
  | nil =>
    obtain rfl := Except.ok.inj (yields_pure h)
    exact hfound
  | cons n rest ih =>
    obtain ⟨hn, hrest⟩ := List.forall_mem_cons.mp hnodes
    rw [List.map_cons, destructurePayload, children_site, List.head?_map] at h
    cases hinner : n.children.head? with
    | none =>
      rw [hinner] at h
      exact ih hrest h hfound
    | some inner =>
      rw [hinner, Option.map_some] at h
      dsimp only at h
      split at h
      next label _ =>
        obtain ⟨bound, hbound, h⟩ := yields_run_bind h
        have hprojects := hn inner (List.mem_of_head? hinner) _ _ _ _ hbound
        -- A labelled part of the subject is a projection, and so is whatever is bound in it.
        exact ih hrest h (hfound.absorb (.part .whole label) hprojects)
      next =>
        split at h
        next => exact ih hrest h hfound
        next => exact absurd h not_yields_refusePattern

/-- Every pattern binds names to projections of what it is matched with. -/
theorem projecting_site (tables : SideTables) (n : Node) : Projecting tables n := by
  -- The arguments of a case stand between it and the patterns in it.
  suffices h : Projecting tables n ∧ ∀ child ∈ n.children, Projecting tables child from h.1
  induction n using Node.induction with
  | h n ih =>
    have hchildren : ∀ child ∈ n.children, Projecting tables child := fun child hchild =>
      (ih child hchild).1
    refine ⟨fun subject context isLet found hread => ?_, hchildren⟩
    cases read_of_pattern_site hread with
    | wildcard => exact fun _ hbound => absurd hbound List.not_mem_nil
    | identifier =>
      intro bound hbound
      obtain rfl := List.mem_singleton.mp hbound
      exact .whole
    | binding _ hinner hread => exact hchildren _ (List.mem_of_head? hinner) _ _ _ _ hread
    | expression | plainCase | isType => exact projects_ofTest _ _
    | enumCase _ _ hread =>
      refine projects_destructurePayload (fun argument h => ?_) hread (projects_ofTest _ _)
      exact (ih argument (List.mem_of_mem_filter h)).2
    | tuple _ _ hread =>
      exact projects_destructureElements hchildren hread
        fun _ hbound => absurd hbound List.not_mem_nil
    | @asType inner ty bound _ hinner hbound =>
      have hprojects := hchildren _ (List.mem_of_find?_eq_some hinner) _ _ _ _ hbound
      exact (projects_ofTest _ _).absorb (.cast .whole ty) hprojects

/-- What is bound before the body of a case is declared there, and projects the subject. -/
theorem declared_of_readsCase {c : SwitchCase} {bound : List PatternVariable}
    (h : ReadsCase tables subject n (c, bound)) :
    ∀ b ∈ bound, Projection subject b.value ∧
      .declare (Variable.simple b.name none (some b.value) b.isLet) ∈ c.body := by
  cases h with
  | clash => exact fun b hb => absurd hb List.not_mem_nil
  | @alike items body span hitems hbind =>
    intro b hb
    cases hmatches : items.filterMap CaseItem.match? with
    | nil =>
      rw [hmatches] at hb
      exact absurd hb List.not_mem_nil
    | cons first rest =>
      rw [hmatches] at hb
      -- The names are those of the first item that has a pattern.
      obtain ⟨item, hmem, hfirst⟩ := List.mem_filterMap.mp (hmatches ▸ List.mem_cons_self)
      obtain ⟨node, -, hreads⟩ := exists_of_mem_items hitems hmem
      cases hreads with
      | matched hpattern hread hwhere =>
        obtain rfl := Option.some.inj hfirst
        refine ⟨projecting_site tables _ _ _ _ _ hread b hb, ?_⟩
        exact List.mem_append_left _ (List.mem_map_of_mem hb)
      | blank => cases hfirst
      | refused => cases hfirst

end

/-! ## Copies -/

open Classical in
noncomputable def copySurvey (x : Expr) : Survey Unit where
  expr e := if e = x then [()] else []

/-- Number of copies of an expression in others. -/
noncomputable def copies (x : Expr) (es : List Expr) : Nat :=
  (es.flatMap (copySurvey x).ofExpr).length

section

variable {x e : Expr}

open Classical in
theorem expr_copySurvey : (copySurvey x).expr e = if e = x then [()] else [] :=
  rfl

theorem not_mem_of_size_lt (fragment : Fragment) (hsize : fragment.size < sizeOf x) :
    () ∉ (copySurvey x).ofFragment fragment := by
  induction ({} : Place), fragment using Fragment.induction with
  | expr place called e ih =>
    intro hmem
    obtain ⟨-, hmem | hmem⟩ := Survey.mem_of_mem_ofExpr hmem
    · obtain ⟨part, hpart, hmem⟩ := Survey.mem_ofPartList.mp hmem
      exact ih part hpart (Nat.lt_trans (e.below_parts part hpart) hsize) hmem
    -- An equal expression would be as large.
    · by_cases heq : e = x
      · subst heq
        exact Nat.lt_irrefl _ hsize
      · rw [expr_copySurvey, if_neg heq] at hmem
        cases hmem
  | stmts place list ih =>
    intro hmem
    rw [Survey.ofFragment, Survey.ofStmts_eq] at hmem
    obtain ⟨s, hs, hmem⟩ := List.mem_flatMap.mp hmem
    simp only [copySurvey, List.nil_append, List.append_nil] at hmem
    obtain ⟨part, hpart, hmem⟩ := Survey.mem_ofPartList.mp hmem
    have hlt := Nat.lt_trans (s.below_parts part hpart) (List.sizeOf_lt_of_mem hs)
    exact ih s hs part hpart (Nat.lt_trans hlt hsize) hmem

theorem ofExpr_eq_nil_of_size_lt (hsize : sizeOf e < sizeOf x) : (copySurvey x).ofExpr e = [] :=
  List.eq_nil_iff_forall_not_mem.mpr fun _ => not_mem_of_size_lt (.expr false e) hsize

/-- A call has one copy of itself, in parentheses or not. -/
theorem copies_of_isImpureCall (h : Pass.isImpureCall e = true) :
    copies e.unparenthesized [e] = 1 := by
  rw [copies, List.flatMap_singleton]
  fun_induction Expr.unparenthesized e with
  | case1 inner info ih =>
    -- Parentheses around a call are no call.
    have hne : Expr.paren inner info ≠ inner.unparenthesized := by
      intro heq
      rw [Pass.isImpureCall, Expr.unparenthesized, ← heq] at h
      cases h
    rw [Survey.ofExpr, Survey.visit, expr_copySurvey, if_neg hne, List.append_nil]
    exact ih h
  | case2 e he =>
    cases e with
    | call callee arguments hasTrailing isPure info =>
      rw [Survey.ofExpr, Survey.visit, expr_copySurvey, if_pos rfl,
        ofExpr_eq_nil_of_size_lt (by rw [Expr.call.sizeOf_spec]; omega),
        ofExpr_eq_nil_of_size_lt (by rw [Expr.call.sizeOf_spec]; omega)]
      rfl
    | paren inner info => exact absurd rfl (he inner info)
    | _ => cases h

theorem copies_append (x : Expr) (es more : List Expr) :
    copies x (es ++ more) = copies x es + copies x more := by
  rw [copies, List.flatMap_append, List.length_append]
  rfl

theorem copies_pos_iff {es : List Expr} : 0 < copies x es ↔ ∃ e ∈ es, 0 < copies x [e] := by
  simp only [copies, List.flatMap_singleton, List.length_pos_iff, ne_eq, List.flatMap_eq_nil_iff,
    not_forall, exists_prop]

theorem copies_singleton_pos_iff : 0 < copies x [e] ↔ () ∈ (copySurvey x).ofExpr e := by
  rw [copies, List.flatMap_singleton, List.length_pos_iff_exists_mem]
  exact ⟨fun ⟨_, h⟩ => h, fun h => ⟨(), h⟩⟩

theorem Projection.copies_pos {subject : Expr} (h : Projection subject e)
    (hsubject : 0 < copies x [subject]) : 0 < copies x [e] := by
  rw [copies_singleton_pos_iff] at hsubject ⊢
  induction h with
  | whole => exact hsubject
  | part _ name ih =>
    rw [plainMember, Survey.ofExpr]
    exact List.mem_append_left _ ih
  | cast _ ty ih =>
    rw [plainBinary, Survey.ofExpr]
    exact List.mem_append_left _ (List.mem_append_left _ ih)

end

/-! ## Reports -/

/-- That the subject of a `switch` is reported as evaluated again. -/
def Reported (subject : Expr) (cases : List SwitchCase) (target : Option SwitchTarget)
    (span : Option Span) : Prop :=
  ∃ d ∈ Pass.impureSubjects.after (.switchStmt subject cases target span),
    d.code = some .impureSubject

theorem reported_iff {subject : Expr} {cases : List SwitchCase} {target : Option SwitchTarget}
    {span : Option Span} (hcall : Pass.isImpureCall subject = true) :
    Reported subject cases target span ↔
      Switch.usesTests subject cases = true ∨ Pass.bindsFromSubject subject cases = true := by
  rw [Reported, Pass.impureSubjects]
  dsimp only
  rw [hcall, Bool.true_and, ← Bool.or_eq_true]
  cases Switch.usesTests subject cases || Pass.bindsFromSubject subject cases with
  | true => exact iff_of_true ⟨_, List.mem_singleton_self _, rfl⟩ rfl
  | false => exact iff_of_false (fun ⟨_, hmem, _⟩ => List.not_mem_nil hmem) Bool.false_ne_true

/-- The expressions that are written for a `switch`: its subject behind `when`, the tests of its
    cases, and what names are bound to. -/
def writtenExprs (subject : Expr) (read : List (SwitchCase × List PatternVariable)) : List Expr :=
  let usesTests := Switch.usesTests subject (read.map Prod.fst)
  (if usesTests then [] else [subject]) ++
    read.flatMap fun (c, bound) =>
      (c.patterns.flatMap fun e => (Target.branchOf subject usesTests e).exprs subject usesTests) ++
        bound.map PatternVariable.value

section

variable {tables : SideTables} {subject : Expr} {nodes : List Node}
  {read : List (SwitchCase × List PatternVariable)}

theorem bindsFromSubject_of_declare {cases : List SwitchCase} {c : SwitchCase} {item : Variable}
    {name : String} (hc : c ∈ cases) (hitem : .declare item ∈ c.body)
    (hvalue : item.initializer = some (plainMember subject name)) :
    Pass.bindsFromSubject subject cases = true := by
  refine List.any_eq_true.mpr ⟨c, hc, List.any_eq_true.mpr ⟨_, hitem, ?_⟩⟩
  show item.initializer.any (Switch.readsMember subject) = true
  rw [hvalue]
  exact beq_self_eq_true _

/-- With the subject behind `when`, it is written again for every name and in some tests. -/
theorem one_lt_copies_iff (hcall : Pass.isImpureCall subject = true)
    (hbound : ∀ r ∈ read, ∀ b ∈ r.2, Projection subject b.value)
    (huses : Switch.usesTests subject (read.map Prod.fst) = false) :
    1 < copies subject.unparenthesized (writtenExprs subject read) ↔
      (∃ r ∈ read, r.2 ≠ []) ∨
        ∃ r ∈ read, ∃ e ∈ r.1.patterns,
          ∃ written ∈ (Target.branchOf subject false e).exprs subject false,
            0 < copies subject.unparenthesized [written] := by
  have hone := copies_of_isImpureCall hcall
  rw [writtenExprs, huses, if_neg Bool.false_ne_true, copies_append, hone, Nat.lt_add_right_iff_pos,
    copies_pos_iff]
  constructor
  -- A copy beyond the one behind `when` is in a test or in what a name is bound to.
  · rintro ⟨e, hmem, hpos⟩
    obtain ⟨⟨c, bound⟩, hr, hmem⟩ := List.mem_flatMap.mp hmem
    obtain hmem | hmem := List.mem_append.mp hmem
    · obtain ⟨pattern, hpattern, hmem⟩ := List.mem_flatMap.mp hmem
      exact .inr ⟨(c, bound), hr, pattern, hpattern, e, hmem, hpos⟩
    · obtain ⟨b, hb, -⟩ := List.mem_map.mp hmem
      exact .inl ⟨(c, bound), hr, List.ne_nil_of_mem hb⟩
  · rintro (⟨⟨c, bound⟩, hr, hne⟩ | ⟨⟨c, bound⟩, hr, pattern, hpattern, e, hmem, hpos⟩)
    · obtain ⟨b, hb⟩ := List.exists_mem_of_ne_nil bound hne
      refine ⟨b.value, List.mem_flatMap.mpr ⟨_, hr, ?_⟩, ?_⟩
      · exact List.mem_append_right _ (List.mem_map_of_mem hb)
      -- What projects the subject has the call in it.
      · exact (hbound _ hr b hb).copies_pos (hone ▸ Nat.one_pos)
    · refine ⟨e, List.mem_flatMap.mpr ⟨_, hr, ?_⟩, hpos⟩
      exact List.mem_append_left _ (List.mem_flatMap.mpr ⟨pattern, hpattern, hmem⟩)

/-- The readings of the cases of a `switch`, with what they bind. -/
def ReadsCases (tables : SideTables) (n : Node) (subject : Expr) (cases : List SwitchCase)
    (read : List (SwitchCase × List PatternVariable)) : Prop :=
  cases = read.map Prod.fst ∧ List.Forall₂ (ReadsCase tables subject)
    (n.childrenOf .switchCase) read

end

/-- What is bound before the bodies of the cases projects the subject.  A subject with effects is
    reported if some case is a test or some name is bound to a direct part.  It is written more than
    once and not reported exactly if there are no tests, no case declares a direct part, and some
    name is bound or some case has the call inside what is written for it. -/
theorem missed_iff {tables : SideTables} {n : Node} {subject : Expr} {cases : List SwitchCase}
    {target : Option SwitchTarget} {span : Option Span}
    (hread : Yields tables (readSwitch n n.site.children) (.switchStmt subject cases target span))
    (hcall : Pass.isImpureCall subject = true) :
    (∀ registry receiver isValue,
      Target.piece registry receiver isValue (.switchStmt subject cases target span) =
        .plain .other [.ofDocument (Target.whenDocument registry subject cases)]) ∧
    (∃ read, ReadsCases tables n subject cases read) ∧
    ∀ read, ReadsCases tables n subject cases read →
      (∀ r ∈ read, ∀ b ∈ r.2, Projection subject b.value ∧
        .declare (Variable.simple b.name none (some b.value) b.isLet) ∈ r.1.body) ∧
      (Switch.usesTests subject cases = true → Reported subject cases target span) ∧
      (∀ r ∈ read, ∀ b ∈ r.2, ∀ name, b.value = plainMember subject name →
        Reported subject cases target span) ∧
      (1 < copies subject.unparenthesized (writtenExprs subject read) ∧
          ¬Reported subject cases target span ↔
        Switch.usesTests subject cases = false ∧ Pass.bindsFromSubject subject cases = false ∧
          ((∃ r ∈ read, r.2 ≠ []) ∨
            ∃ r ∈ read, ∃ e ∈ r.1.patterns,
              ∃ written ∈ (Target.branchOf subject false e).exprs subject false,
                0 < copies subject.unparenthesized [written])) := by
  obtain ⟨rfl, hexists⟩ := reads_of_readSwitch hread
  refine ⟨fun registry _ _ => Target.piece_switchStmt registry subject _ _ _ _, hexists, ?_⟩
  rintro read ⟨rfl, hreads⟩
  have hbound : ∀ r ∈ read, ∀ b ∈ r.2, Projection subject b.value ∧
      .declare (Variable.simple b.name none (some b.value) b.isLet) ∈ r.1.body := by
    intro r hr
    obtain ⟨i, hi, rfl⟩ := List.getElem_of_mem hr
    exact declared_of_readsCase (hreads.get (hreads.length_eq ▸ hi) hi)
  refine ⟨hbound, fun huses => (reported_iff hcall).mpr (.inl huses), ?_, ?_⟩
  -- A direct part is what the warning looks for.
  · intro r hr b hb name hvalue
    exact (reported_iff hcall).mpr (.inr (bindsFromSubject_of_declare (List.mem_map_of_mem hr)
      (hbound r hr b hb).2 (congrArg some hvalue)))
  · have hiff := one_lt_copies_iff hcall fun r hr b hb => (hbound r hr b hb).1
    rw [reported_iff hcall, not_or, Bool.not_eq_true, Bool.not_eq_true]
    constructor
    · rintro ⟨hcopies, huses, hbinds⟩
      exact ⟨huses, hbinds, (hiff huses).mp hcopies⟩
    · rintro ⟨huses, hbinds, hcause⟩
      exact ⟨(hiff huses).mpr hcause, huses, hbinds⟩

def castPattern : Node :=
  .node { kind := .valueBindingPattern, text := some "let", role := some "pattern", offset := 21,
          length := 12 }
    [.node { kind := .asPattern, offset := 25, length := 8 }
      [.node { kind := .identifierPattern, text := some "x", role := some "pattern", offset := 25,
               length := 1 } [],
        .node { kind := .typeNode, text := some "Foo", role := some "type", offset := 30,
                length := 3 } []]]

def castItem : Node :=
  .node { kind := .caseItem, offset := 21, length := 12 } [castPattern]

/-- The statement `switch next() { case let x as Foo: default: }`. -/
def nextSwitch : Node :=
  .node { kind := .switchStmt, length := 45 }
    [.node { kind := .call, role := some "subject", offset := 7, length := 6 }
      [.node { kind := .declRef, text := some "next", role := some "function", offset := 7,
               length := 4 } []],
      .node { kind := .switchCase, offset := 16, length := 18 } [castItem],
      .node { kind := .switchCase, text := some "default", offset := 35, length := 8 } []]

def nextCall : Expr :=
  .call (.name "next" false false { span := some ⟨7, 11⟩ }) (.tuple [] {}) false false
    { span := some ⟨7, 13⟩ }

def castMatch : PatternMatch where
  condition := some (plainBinary nextCall "is" (.typeName "Foo" {}))
  bindings := [⟨"x", plainBinary nextCall "as" (.typeName "Foo" {}), true⟩]

def nextRead : List (SwitchCase × List PatternVariable) :=
  [({ patterns := castMatch.condition.toList, body := castMatch.declarations,
      span := some ⟨16, 34⟩ }, castMatch.bindings),
    ({ patterns := [], body := [], span := some ⟨35, 43⟩ }, [])]

theorem readsCases_nextSwitch :
    ReadsCases {} nextSwitch nextCall (nextRead.map Prod.fst) nextRead := by
  have hitem : ReadsItem {} nextCall castItem (.matched castMatch.condition castMatch) :=
    @ReadsItem.matched _ _ _ castPattern castMatch none rfl ⟨{}, {}, Exchange.reaches_alone _⟩ .none
  refine ⟨rfl, .cons ?_ (.cons ?_ .nil)⟩
  · exact @ReadsCase.alike _ _ _ [.matched castMatch.condition castMatch] [] _
      (.cons hitem .nil) rfl
  · exact @ReadsCase.alike _ _ _ [] [] _ .nil rfl

/-- The call stands behind `when` and is made again for `x`, and nothing is said. -/
theorem missed_nextSwitch :
    Yields {} (readSwitch nextSwitch nextSwitch.site.children)
      (.switchStmt nextCall (nextRead.map Prod.fst) none (some ⟨0, 45⟩)) ∧
    Pass.isImpureCall nextCall = true ∧
    1 < copies nextCall (writtenExprs nextCall nextRead) ∧
    ¬Reported nextCall (nextRead.map Prod.fst) none (some ⟨0, 45⟩) := by
  have hread : Yields {} (readSwitch nextSwitch nextSwitch.site.children)
      (.switchStmt nextCall (nextRead.map Prod.fst) none (some ⟨0, 45⟩)) :=
    ⟨{}, {}, Exchange.reaches_alone _⟩
  have hcall : Pass.isImpureCall nextCall = true := by decide
  obtain ⟨-, -, hreads⟩ := missed_iff hread hcall
  obtain ⟨-, -, -, hmissed⟩ := hreads nextRead readsCases_nextSwitch
  refine ⟨hread, hcall, hmissed.mpr ⟨by decide, by decide, .inl ⟨_, List.mem_cons_self, ?_⟩⟩⟩
  exact List.cons_ne_nil _ _

end Ferry.Source
