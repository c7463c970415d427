/-
  Ferry.Proofs.Source.SwitchReading

  A `switch` is read case by case and item by item: an item gives the test and the names of its
  pattern, its `where` clause added to the test, and the items of a case share its body.
  `ReadsItem`, `ReadsCase` and `reads_of_readSwitch` say what can come of that.

  An item that is a plain value is read as this value, and stands among the tests of the other
  items. So the branch for it has to find out whether it is a test (`asks_of_expressionPattern`).
-/
import Ferry.Proofs.Source.Matching
import Ferry.Proofs.Target.Branch

namespace Ferry.Source

open Adapter

/-! ## Items, cases and switches -/

inductive ReadsItem (tables : SideTables) (subject : Expr) (item : Node) : CaseItem → Prop where
  | blank (hpattern : item.child? "pattern" = none) : ReadsItem tables subject item .blank
  | refused {pattern : Node} {reason : Diagnostic} (hpattern : item.child? "pattern" = some pattern)
      (hread : Yields tables (pattern.site.pattern subject .switchCase true).run (.error reason))
      (span : Option Span) :
      ReadsItem tables subject item (.refused (.error reason span))
  | matched {pattern : Node} {found : PatternMatch} {clause : Option Expr}
      (hpattern : item.child? "pattern" = some pattern)
      (hread : Yields tables (pattern.site.pattern subject .switchCase true).run (.ok found))
      (hwhere : Option.Rel (fun n e => Yields tables n.site.expr e) (item.child? "where") clause) :
      ReadsItem tables subject item
        (.matched (itemTest subject found.condition (clause.map (substitute found.bindings))) found)

/-- What a case is read as, and what is bound before its body.  Items that bind differently bind
    nothing. -/
inductive ReadsCase (tables : SideTables) (subject : Expr) (n : Node) :
    SwitchCase × List PatternVariable → Prop where
  | alike {items : List CaseItem} {body : List Stmt} {span : Option Span}
      (hitems : List.Forall₂ (ReadsItem tables subject) (n.childrenOf .caseItem) items)
      (hbind : bindAlike (items.filterMap CaseItem.match?) = true) :
      ReadsCase tables subject n
        ({ patterns := casePatterns (n.text == "default") items
           body :=
            ((items.filterMap CaseItem.match?).head?.map PatternMatch.declarations).getD [] ++ body
           span },
          ((items.filterMap CaseItem.match?).head?.map PatternMatch.bindings).getD [])
  | clash {items : List CaseItem} {reason : Diagnostic} {at? span : Option Span}
      (hitems : List.Forall₂ (ReadsItem tables subject) (n.childrenOf .caseItem) items)
      (hbind : bindAlike (items.filterMap CaseItem.match?) = false) :
      ReadsCase tables subject n
        ({ patterns := casePatterns (n.text == "default") items
           body := [.errorStmt reason at?]
           span }, [])

section

variable {tables : SideTables} {subject : Expr} {n : Node}

theorem yields_errorStmt {code : Code} {message : String} {value : Stmt}
    (h : Yields tables (errorStmt n code message) value) :
    ∃ reason span, value = .errorStmt reason span := by
  obtain ⟨reason, -, h⟩ := yields_bind h
  exact ⟨reason, _, yields_pure h⟩

theorem reads_of_readCaseItem {item : CaseItem}
    (h : Yields tables (readCaseItem subject n.site) item) : ReadsItem tables subject n item := by
  rw [readCaseItem, child?_site, child?_site] at h
  cases hpattern : n.child? "pattern" with
  | none =>
    rw [hpattern] at h
    obtain rfl := yields_pure h
    exact .blank hpattern
  | some pattern =>
    rw [hpattern, Option.map_some] at h
    obtain ⟨outcome, houtcome, h⟩ := yields_bind h
    cases outcome with
    | error reason =>
      obtain ⟨span, -, h⟩ := yields_bind h
      obtain rfl := yields_pure h
      exact .refused hpattern houtcome (some span)
    | ok found =>
      obtain ⟨clause, hclause, h⟩ := yields_bind h
      obtain rfl := yields_pure h
      exact .matched hpattern houtcome (rel_of_yields_mapM_map hclause)

theorem reads_of_readSwitchCase {c : SwitchCase}
    (h : Yields tables (readSwitchCase subject n.site) c) :
    ∃ bound, ReadsCase tables subject n (c, bound) := by
  rw [readSwitchCase, children_site, ofKind_map_site] at h
  obtain ⟨items, hitems, h⟩ := yields_bind h
  have hreads : List.Forall₂ (ReadsItem tables subject) (n.childrenOf .caseItem) items :=
    (List.forall₂_map_left_iff.mp (yields_mapM hitems)).imp fun _ _ => reads_of_readCaseItem
  obtain ⟨span, -, h⟩ := yields_bind h
  have hdefault : n.site.text = n.text := by rw [Site.text, node_site]
  rw [hdefault] at h
  split at h
  next hbind =>
    obtain ⟨body, -, h⟩ := yields_bind h
    obtain rfl := yields_pure h
    exact ⟨_, .alike hreads hbind⟩
  next hbind =>
    -- Items that bind different names are an error in the body, and no names are bound.
    obtain ⟨clash, hclash, h⟩ := yields_bind h
    obtain ⟨reason, place, rfl⟩ := yields_errorStmt hclash
    obtain rfl := yields_pure h
    exact ⟨_, .clash hreads (Bool.eq_false_iff.mpr hbind)⟩

theorem exists_reads {nodes : List Node} {cases : List SwitchCase}
    (h : List.Forall₂ (fun n c => Yields tables (readSwitchCase subject n.site) c) nodes cases) :
    ∃ read, cases = read.map Prod.fst ∧ List.Forall₂ (ReadsCase tables subject) nodes read := by
  induction h with
  | nil => exact ⟨[], rfl, .nil⟩
  | cons hcase _ ih =>
    obtain ⟨bound, hreads⟩ := reads_of_readSwitchCase hcase
    obtain ⟨read, rfl, hrest⟩ := ih
    exact ⟨(_, bound) :: read, rfl, .cons hreads hrest⟩

theorem reads_of_readSwitch {cases : List SwitchCase} {target : Option SwitchTarget}
    {span : Option Span}
    (h : Yields tables (readSwitch n n.site.children) (.switchStmt subject cases target span)) :
    target = none ∧ ∃ read, cases = read.map Prod.fst ∧
      List.Forall₂ (ReadsCase tables subject) (n.childrenOf .switchCase) read := by
  rw [readSwitch, children_site, inRole?_map_site, ofKind_map_site] at h
  cases hnode : n.child? "subject" with
  | none =>
    rw [hnode] at h
    obtain ⟨reason, place, heq⟩ := yields_errorStmt h
    cases heq
  | some node =>
    rw [hnode] at h
    obtain ⟨value, hvalue, h⟩ := yields_bind h
    obtain ⟨read, hread, h⟩ := yields_bind h
    obtain ⟨place, -, h⟩ := yields_bind h
    obtain ⟨rfl, rfl, rfl, -⟩ := Stmt.switchStmt.inj (yields_pure h)
    have hcases := yields_mapM hread
    rw [List.forall₂_map_left_iff] at hcases
    exact ⟨rfl, exists_reads hcases⟩

/-! ## Values -/

/-- A value as a pattern is never refused, and is read as a test of its own. -/
theorem yields_expressionPattern {inner : Node} {outcome : Except Diagnostic PatternMatch}
    (hkind : n.kind = .expressionPattern) (hinner : n.children.head? = some inner)
    (h : Yields tables (n.site.pattern subject .switchCase true).run outcome) :
    ∃ e, Yields tables inner.site.expr e ∧ outcome = .ok (.ofTest e) := by
  rw [pattern_site] at h
  simp only [readPattern, hkind, List.head?_map, hinner, Option.map_some, ExceptT.run_bind] at h
  obtain ⟨read, hread, h⟩ := yields_bind h
  obtain ⟨e, he, rfl⟩ :=
    yields_map (show Yields tables (Except.ok <$> inner.site.expr) read from hread)
  exact ⟨e, he, yields_pure h⟩

theorem pattern?_of_expressionPattern {pattern inner : Node} {item : CaseItem}
    (hread : ReadsItem tables subject n item) (hpattern : n.child? "pattern" = some pattern)
    (hkind : pattern.kind = .expressionPattern) (hinner : pattern.children.head? = some inner)
    (hwhere : n.child? "where" = none) :
    ∃ e, Yields tables inner.site.expr e ∧ item.pattern? = some e := by
  cases hread with
  | blank hnone => cases hnone.symm.trans hpattern
  | refused hsome hread =>
    obtain rfl := Option.some.inj (hsome.symm.trans hpattern)
    obtain ⟨e, -, hok⟩ := yields_expressionPattern hkind hinner hread
    cases hok
  | matched hsome hread hclause =>
    obtain rfl := Option.some.inj (hsome.symm.trans hpattern)
    obtain ⟨e, he, hok⟩ := yields_expressionPattern hkind hinner hread
    obtain rfl := Except.ok.inj hok
    rw [hwhere] at hclause
    cases hclause
    exact ⟨e, he, rfl⟩

theorem forall₂_pattern? {nodes : List Node} {items : List CaseItem}
    (hitems : List.Forall₂ (ReadsItem tables subject) nodes items)
    (hopen : items.any CaseItem.isOpen = false) :
    List.Forall₂ (fun item e => ∃ read, ReadsItem tables subject item read ∧ read.pattern? = some e)
      nodes (items.filterMap CaseItem.pattern?) := by
  induction hitems with
  | nil => exact .nil
  | @cons node read nodes items hread _ ih =>
    rw [List.any_cons, Bool.or_eq_false_iff] at hopen
    obtain ⟨e, he⟩ : ∃ e, read.pattern? = some e := by
      match read, hopen.1 with
      | .refused e, _ => exact ⟨e, rfl⟩
      | .matched (some e) _, _ => exact ⟨e, rfl⟩
    rw [List.filterMap_cons_some he]
    exact .cons ⟨read, hread, he⟩ (ih hopen.2)

theorem exists_of_mem_items {nodes : List Node} {items : List CaseItem} {read : CaseItem}
    (hitems : List.Forall₂ (ReadsItem tables subject) nodes items) (hmem : read ∈ items) :
    ∃ node ∈ nodes, ReadsItem tables subject node read := by
  obtain ⟨i, hi, rfl⟩ := List.getElem_of_mem hmem
  have hlt : i < nodes.length := hitems.length_eq ▸ hi
  exact ⟨nodes[i], List.getElem_mem hlt, hitems.get hlt hi⟩

/-- That a case is not tested for: it is the default, or one of its items matches everything. -/
def IsOpen (tables : SideTables) (subject : Expr) (n : Node) : Prop :=
  n.text = "default" ∨ n.childrenOf .caseItem = [] ∨
    ∃ item ∈ n.childrenOf .caseItem, ∃ read, ReadsItem tables subject item read ∧ read.isOpen = true

/-- An open case keeps the items that were refused, any other one keeps all. -/
theorem patterns_of_readsCase {read : SwitchCase × List PatternVariable}
    (h : ReadsCase tables subject n read) :
    IsOpen tables subject n ∧ (∀ e ∈ read.1.patterns, e.isError = true) ∨
      List.Forall₂ (fun item e => ∃ read, ReadsItem tables subject item read ∧
        read.pattern? = some e) (n.childrenOf .caseItem) read.1.patterns := by
  obtain ⟨items, hitems, hpatterns⟩ : ∃ items,
      List.Forall₂ (ReadsItem tables subject) (n.childrenOf .caseItem) items ∧
        read.1.patterns = casePatterns (n.text == "default") items := by
    cases h with
    | alike hitems => exact ⟨_, hitems, rfl⟩
    | clash hitems => exact ⟨_, hitems, rfl⟩
  rw [hpatterns, casePatterns]
  split
  next hopen =>
    refine .inl ⟨?_, fun e he => (List.mem_filter.mp he).2⟩
    rw [Bool.or_eq_true, Bool.or_eq_true, beq_iff_eq, List.isEmpty_iff] at hopen
    -- By its word, for want of items, or through an item that matches everything.
    rcases hopen with (hdefault | rfl) | hany
    · exact .inl hdefault
    · exact .inr (.inl (List.forall₂_nil_right_iff.mp hitems))
    · obtain ⟨read, hmem, hread⟩ := List.any_eq_true.mp hany
      obtain ⟨item, hitem, hreads⟩ := exists_of_mem_items hitems hmem
      exact .inr (.inr ⟨item, hitem, read, hreads, hread⟩)
  next hopen =>
    rw [Bool.or_eq_true, not_or, Bool.not_eq_true, Bool.not_eq_true] at hopen
    exact .inr (forall₂_pattern? hitems hopen.2)

end

/-- The branch for a plain value asks whether the subject equals it, or lies in it if it is a range,
    unless the value looks like a test: then it asks whether the value is true.  This is so for
    every item with such a pattern and no `where`, among any others, if its case is tested for at
    all. -/
theorem asks_of_expressionPattern {tables : SideTables} {n : Node} {subject : Expr}
    {cases : List SwitchCase} {target : Option SwitchTarget} {span : Option Span}
    (hread : Yields tables (readSwitch n n.site.children) (.switchStmt subject cases target span)) :
    List.Forall₂ (fun case c =>
        IsOpen tables subject case ∧ (∀ e ∈ c.patterns, e.isError = true) ∨
        List.Forall₂ (fun item e => ∀ pattern inner, item.child? "pattern" = some pattern →
            pattern.kind = .expressionPattern → pattern.children.head? = some inner →
            item.child? "where" = none →
              Yields tables inner.site.expr e ∧
                Target.Asks subject (Switch.usesTests subject cases) e)
          (case.childrenOf .caseItem) c.patterns)
      (n.childrenOf .switchCase) cases ∧
    ∀ registry receiver isValue,
      Target.piece registry receiver isValue (.switchStmt subject cases target span) =
        .plain .other [.ofDocument (Target.whenDocument registry subject cases)] := by
  obtain ⟨rfl, read, rfl, hcases⟩ := reads_of_readSwitch hread
  refine ⟨?_, fun registry receiver isValue => Target.piece_switchStmt registry subject _ _ _ _⟩
  obtain ⟨hlength, hcases⟩ := List.forall₂_iff_zip.mp hcases
  refine List.forall₂_map_right_iff.mpr (List.forall₂_iff_zip.mpr ⟨hlength, fun {case c} hc => ?_⟩)
  refine (patterns_of_readsCase (hcases hc)).imp_right fun hitems => ?_
  obtain ⟨hlength, hitems⟩ := List.forall₂_iff_zip.mp hitems
  refine List.forall₂_iff_zip.mpr ⟨hlength, fun {item e} he => ?_⟩
  intro pattern inner hpattern hkind hinner hwhere
  obtain ⟨found, hfound, hpattern?⟩ := hitems he
  obtain ⟨value, hvalue, hsome⟩ := pattern?_of_expressionPattern hfound hpattern hkind hinner hwhere
  obtain rfl := Option.some.inj (hsome.symm.trans hpattern?)
  -- The case is one of those that decide whether there are tests.
  have hmem : c.1 ∈ read.map Prod.fst := List.mem_map_of_mem (List.of_mem_zip hc).2
  exact ⟨hvalue, Target.asks_of_mem hmem (List.of_mem_zip he).2⟩

/-- The statement `switch flag { case !done: default: }`. -/
def flagSwitch : Node :=
  .node { kind := .switchStmt, length := 36 }
    [.node { kind := .declRef, text := some "flag", role := some "subject", offset := 7,
             length := 4 } [],
      .node { kind := .switchCase, offset := 14, length := 11 }
        [.node { kind := .caseItem, offset := 19, length := 5 }
          [.node { kind := .expressionPattern, role := some "pattern", offset := 19, length := 5 }
            [.node { kind := .prefixOperator, text := some "!", offset := 19, length := 5 }
              [.node { kind := .declRef, text := some "done", role := some "operand", offset := 20,
                       length := 4 } []]]]],
      .node { kind := .switchCase, text := some "default", offset := 26, length := 8 } []]

def flagName : Expr :=
  .name "flag" false false { span := some ⟨7, 11⟩ }

def notDone : Expr :=
  .prefixOp "!" (.name "done" false false { span := some ⟨20, 24⟩ }) { span := some ⟨19, 24⟩ }

def flagCases : List SwitchCase :=
  [{ patterns := [notDone], body := [], span := some ⟨14, 25⟩ },
    { patterns := [], body := [], span := some ⟨26, 34⟩ }]

/-- A world in which `done` is true, so that `!done` is not. -/
def doneWorld : World :=
  { plainWorld with other := fun _ _ => some (.bool false) }

/-- If neither `flag` nor `!done` is true, the two are equal, and the first branch is not taken. -/
theorem asks_flagSwitch :
    let env : Environment := Environment.set (fun _ => none) "flag" (.bool false)
    Yields {} (readSwitch flagSwitch flagSwitch.site.children)
      (.switchStmt flagName flagCases none (some ⟨0, 36⟩)) ∧
    doneWorld.eval env flagName = doneWorld.eval env notDone ∧
    doneWorld.eval env ((Target.branchOf flagName
      (Switch.usesTests flagName flagCases) notDone).condition flagName) ≠
        some (.bool true) := by
  intro env
  have hread : Yields {} (readSwitch flagSwitch flagSwitch.site.children)
      (.switchStmt flagName flagCases none (some ⟨0, 36⟩)) :=
    ⟨{}, {}, Exchange.reaches_alone _⟩
  refine ⟨hread, rfl, fun hholds => ?_⟩
  obtain ⟨hcases, -⟩ := asks_of_expressionPattern hread
  cases hcases with
  | cons hfirst _ =>
    rcases hfirst with ⟨-, herror⟩ | hitems
    · exact Bool.false_ne_true (herror notDone List.mem_cons_self)
    · cases hitems with
      | cons hitem _ =>
        obtain ⟨-, -, hasks⟩ := hitem _ _ rfl rfl rfl rfl
        have htrue := (hasks rfl doneWorld env (.bool false) (.bool false) rfl rfl nofun).mp hholds
        rw [if_pos (by decide)] at htrue
        cases htrue

end Ferry.Source
