/-
  Ferry.Proofs.Source.PendingBinding

  Bindings on their way to declarations.  A group of bindings makes no statement; each binding waits
  among those that are pending until a declaration of its name takes it.  A node in a block moves
  bindings only so (`handles_item`): whatever is nested in it, in blocks, closures or accessors,
  puts them aside and leaves them as they were.  So every binding of a block is declared once or
  left as an error, and those around the block are not touched (`bindings_readBlock`).  In a group,
  a type carries back over names without a value (`types_readBindings`).
-/
import Ferry.Proofs.Source.ForetoldDeclaration

namespace Ferry.Source

open Adapter

theorem perm_find?_eraseP (p : Variable → Bool) (pending : Pending) :
    pending.Perm ((pending.find? p).toList ++ pending.eraseP p) := by
  induction pending with
  | nil => exact .refl _
  | cons first rest ih =>
    cases hp : p first with
    | true => simp [hp]
    | false =>
      rw [List.find?_cons_of_neg (by simp [hp]), List.eraseP_cons_of_neg (by simp [hp])]
      exact (ih.cons first).trans List.perm_middle.symm

/-- What becomes of a node in a block: its statements, the bindings it adds to those that wait, and
the one it takes out of them. -/
structure Handled where
  stmts : List Stmt
  added : List Variable := []
  taken : Option Variable := none

/-- How a node moves bindings in and out of those that wait.  A declaration takes the first one of
its name and keeps all that it has but for modifiers. -/
def Handles (tables : SideTables) (n : Node) (pending : Pending) (handled : Handled)
    (after : Pending) : Prop :=
  match n.kind with
  | .patternBindingDecl => handled.stmts = [] ∧ handled.taken = none ∧
    Yields tables (readBindings n (n.children.map Node.site)) handled.added ∧
    after = pending ++ handled.added
  | .varDecl => handled.added = [] ∧ handled.taken = pending.find? (·.name = n.text) ∧
    after = pending.eraseP (·.name = n.text) ∧ ∃ s, handled.stmts = [s] ∧
    ∀ binding ∈ handled.taken, ∃ isStatic isLet access,
      s = .declare { binding with isStatic, isLet, access }
  | _ => handled.added = [] ∧ handled.taken = none ∧ after = pending

/-- That nodes are handled one after the other. -/
inductive HandlesAll (tables : SideTables) :
    List Node → Pending → List Handled → Pending → Prop where
  | nil (pending : Pending) : HandlesAll tables [] pending [] pending
  | cons {n : Node} {rest : List Node} {pending between after : Pending} {first : Handled}
    {others : List Handled} (h : Handles tables n pending first between)
    (hrest : HandlesAll tables rest between others after) :
    HandlesAll tables (n :: rest) pending (first :: others) after

def IsUndirected (tables : SideTables) (n : Node) : Prop :=
  tables.directives.has n.head.offset .ignore = false ∧
    tables.directives.payload? n.head.offset .literal = none

variable {tables : SideTables} {n : Node} {pending after : Pending}

theorem Handles.perm {handled : Handled} (h : Handles tables n pending handled after) :
    (pending ++ handled.added).Perm (handled.taken.toList ++ after) := by
  rw [Handles.eq_def] at h
  split at h
  next =>
    obtain ⟨-, htaken, -, rfl⟩ := h
    simp [htaken]
  next =>
    obtain ⟨hadded, htaken, rfl, -⟩ := h
    simpa [hadded, htaken] using perm_find?_eraseP _ pending
  next =>
    obtain ⟨hadded, htaken, rfl⟩ := h
    simp [hadded, htaken]

/-- No binding is lost and none is made up. -/
theorem HandlesAll.perm {nodes : List Node} {handled : List Handled}
    (h : HandlesAll tables nodes pending handled after) :
    (pending ++ handled.flatMap Handled.added).Perm
      (handled.filterMap Handled.taken ++ after) := by
  induction h with
  | nil => simp
  | @cons _ _ _ _ _ first others hfirst _ ih =>
    have htaken : (first :: others).filterMap Handled.taken =
        first.taken.toList ++ others.filterMap Handled.taken := by
      cases htaken : first.taken <;> simp [htaken]
    rw [htaken, List.flatMap_cons, ← List.append_assoc, List.append_assoc first.taken.toList]
    refine (hfirst.perm.append_right _).trans ?_
    rw [List.append_assoc]
    exact ih.append_left _

theorem handles_other (hgroup : n.kind ≠ .patternBindingDecl) (hdecl : n.kind ≠ .varDecl)
    (stmts : List Stmt) : Handles tables n pending { stmts } pending := by
  rw [Handles.eq_def]
  split <;> first | contradiction | exact ⟨rfl, rfl, rfl⟩

theorem handles_readVarDecl (hkind : n.kind = .varDecl) {s : Stmt} {before after : AdapterState}
    (h : Runs tables (readVarDecl n (n.children.map Node.site)) before s after) :
    Handles tables n before.pending
      { stmts := [s], taken := before.pending.find? (·.name = n.text) } after.pending := by
  rw [Handles, hkind]
  refine ⟨rfl, rfl, ?_⟩
  cases varDeclRead_of_runs h with
  | fresh hnone hitem =>
    obtain ⟨hpending, -⟩ := foretold_readVariable (fun m _ => foretold tables m) n _ _ _ hitem
    rw [hpending, hnone]
    exact ⟨rfl, _, rfl, by simp⟩
  | paired hfound hpending =>
    refine ⟨hpending, _, rfl, fun binding hbinding => ?_⟩
    obtain rfl := Option.some.inj (hfound.symm.trans hbinding)
    exact ⟨_, _, _, rfl⟩
  | unpaired hsome hnone hpending =>
    refine ⟨?_, _, rfl, by simp [hnone]⟩
    rw [hpending, List.eraseP_of_forall_not (by simpa using hnone)]

theorem handles_readDeclaration {stmts : List Stmt} {before after : AdapterState}
    (h : Runs tables (readDeclaration n (n.children.map Node.site)) before stmts after) :
    ∃ handled, handled.stmts = stmts ∧ Handles tables n before.pending handled after.pending := by
  by_cases hgroup : n.kind = .patternBindingDecl
  · obtain ⟨start, hstart, hbuffer, rfl⟩ := runs_group hgroup h
    obtain ⟨bindings, middle, hbindings, hrest⟩ := runs_bind hbuffer
    obtain ⟨hmiddle, -⟩ := foretold_readBindings (fun m _ => foretold tables m) _ _ _ hbindings
    obtain ⟨_, _, hget, hset⟩ := runs_bind hrest
    obtain ⟨rfl, rfl⟩ := runs_get hget
    refine ⟨{ stmts := [], added := bindings }, rfl, ?_⟩
    rw [Handles, hgroup]
    exact ⟨rfl, rfl, ⟨_, _, hbindings⟩, by rw [runs_setPending hset, hmiddle, hstart]⟩
  by_cases hdecl : n.kind = .varDecl
  · obtain ⟨start, hstart, s, hread, rfl⟩ := runs_varDecl hdecl h
    exact ⟨_, rfl, hstart ▸ handles_readVarDecl hdecl hread⟩
  · obtain ⟨hpending, -⟩ :=
      foretold_plainDeclaration (fun m _ => foretold tables m) hgroup hdecl _ _ _ h
    exact ⟨{ stmts }, rfl, by rw [hpending]; exact handles_other hgroup hdecl stmts⟩

theorem handles_item {stmts : List Stmt} {before after : AdapterState}
    (hplain : IsUndirected tables n) (h : Runs tables n.site.item before stmts after) :
    ∃ handled, handled.stmts = stmts ∧ Handles tables n before.pending handled after.pending := by
  rw [item_site] at h
  obtain ⟨_, _, hread, hrest⟩ := runs_bind h
  obtain ⟨rfl, rfl⟩ := runs_read hread
  dsimp only at hrest
  rw [hplain.1, hplain.2] at hrest
  simp only [Bool.false_eq_true, ↓reduceIte] at hrest
  have hbelow : ForetoldBelow tables n := fun m _ => foretold tables m
  split at hrest
  next => exact handles_readDeclaration hrest
  next hkind =>
    obtain ⟨hpending, -⟩ := foretold_readStatement hbelow (foretold_readExpr hbelow)
      (foretold_readIf hbelow) _ _ _ hrest
    rw [hpending]
    refine ⟨{ stmts }, rfl, handles_other ?_ ?_ stmts⟩ <;> rintro heq <;>
      exact hkind (by rw [heq]; rfl)

theorem handlesAll_items {nodes : List Node} (hplain : ∀ n ∈ nodes, IsUndirected tables n)
    {read : List (List Stmt)} {before after : AdapterState}
    (h : Runs tables ((nodes.map Node.site).mapM Site.item) before read after) :
    ∃ handled, read.flatten = handled.flatMap Handled.stmts ∧
      HandlesAll tables nodes before.pending handled after.pending := by
  induction nodes generalizing before read with
  | nil =>
    obtain ⟨rfl, rfl⟩ := runs_pure h
    exact ⟨[], rfl, .nil _⟩
  | cons n rest ih =>
    obtain ⟨hn, hrest⟩ := List.forall_mem_cons.mp hplain
    rw [List.map_cons, List.mapM_cons] at h
    obtain ⟨first, between, hfirst, h⟩ := runs_bind h
    obtain ⟨others, last, hothers, h⟩ := runs_bind h
    obtain ⟨rfl, rfl⟩ := runs_pure h
    obtain ⟨one, rfl, hone⟩ := handles_item hn hfirst
    obtain ⟨more, hmore, hall⟩ := ih hrest hothers
    exact ⟨one :: more, by rw [List.flatten_cons, hmore]; rfl, .cons hone hall⟩

/-- A block leaves the bindings that are pending around it exactly as it found them.  Every binding
that it reads itself is taken by one declaration of its name, which keeps all that the binding has,
or is left as an error at the end; every declaration makes one statement; and a node that is no
declaration leaves the bindings around it as they are. -/
theorem bindings_readBlock {nodes : List Node} (hplain : ∀ n ∈ nodes, IsUndirected tables n)
    {stmts : List Stmt} {before after : AdapterState}
    (h : Runs tables (readBlock (nodes.map Node.site)) before stmts after) :
    after.pending = before.pending ∧
    ∃ handled left, HandlesAll tables nodes [] handled left ∧
      stmts = handled.flatMap Handled.stmts ++ left.map danglingBinding ∧
      (handled.flatMap Handled.added).Perm (handled.filterMap Handled.taken ++ left) ∧
      ∀ binding, ∃ message, danglingBinding binding = .errorStmt
        ((Diagnostic.ofCode .danglingBinding message).placed binding.span) binding.span := by
  obtain ⟨between, read, hread, rfl, hpending⟩ := runs_readBlock h
  obtain ⟨handled, hstmts, hhandled⟩ := handlesAll_items hplain hread
  exact ⟨hpending, handled, between.pending, hhandled, by rw [hstmts], hhandled.perm,
    fun _ => ⟨_, rfl⟩⟩

/-- Two bindings, the second of which is declared. -/
def halfDeclared : List Node :=
  [.node { kind := .patternBindingDecl } [.node { kind := .patternBinding, text := some "b" } [],
      .node { kind := .patternBinding, text := some "a" } []],
    .node { kind := .varDecl, text := some "a" } []]

/-- A binding that waits around the block stays there, though it has the name of one inside. -/
theorem bindings_halfDeclared :
    let outer : Variable := ⟨"a", some "Int", none, true, false, none, none, none, none, none⟩
    ∃ after : AdapterState, after.pending = [outer] ∧
      ∃ handled left, HandlesAll {} halfDeclared [] handled left ∧
        [.declare ⟨"a", none, none, true, false, none, none, none, none, some ⟨0, 0⟩⟩,
          danglingBinding ⟨"b", none, none, true, false, none, none, none, none, some ⟨0, 0⟩⟩] =
          handled.flatMap Handled.stmts ++ left.map danglingBinding := by
  intro outer
  have hplain : ∀ n ∈ halfDeclared, IsUndirected {} n := by
    simp [halfDeclared]
    exact ⟨⟨rfl, rfl⟩, rfl, rfl⟩
  have hruns := Exchange.reaches_alone
    (((readBlock (halfDeclared.map Node.site)).run {}).run { pending := [outer] })
  obtain ⟨hpending, handled, left, hhandled, hstmts, -⟩ := bindings_readBlock hplain hruns
  exact ⟨_, hpending, handled, left, hhandled, hstmts⟩

/-! ## Types in a group -/

/-- That a binding in front of others comes to a type: its own, or else, without a value, that of
the first one after it that has one, unless one with a value only stands between. -/
def ComesTo (binding : Variable) (later : List Variable) (ty : Option String) : Prop :=
  match binding.ty, binding.initializer with
  | some own, _ => ty = some own
  | none, some _ => ty = none
  | none, none => ∀ found, ty = some found ↔ ∃ between next rest,
    later = between ++ next :: rest ∧ next.ty = some found ∧
      ∀ other ∈ between, other.ty = none ∧ other.initializer = none

theorem carried_eq_some_iff (bindings : List Variable) (found : String) :
    (carryTypes bindings).2 = some found ↔ ∃ between next rest,
      bindings = between ++ next :: rest ∧ next.ty = some found ∧
        ∀ other ∈ between, other.ty = none ∧ other.initializer = none := by
  have hfind : (carryTypes bindings).2 =
      (bindings.find? fun item => item.ty.isSome || item.initializer.isSome).bind Variable.ty := by
    fun_induction carryTypes bindings <;> simp_all
  rw [hfind, Option.bind_eq_some_iff]
  constructor
  · rintro ⟨next, hnext, hty⟩
    obtain ⟨-, between, rest, rfl, hbetween⟩ := List.find?_eq_some_iff_append.mp hnext
    exact ⟨between, next, rest, rfl, hty, by simpa using hbetween⟩
  · rintro ⟨between, next, rest, rfl, hty, hbetween⟩
    refine ⟨next, List.find?_eq_some_iff_append.mpr ⟨by simp [hty], between, rest, rfl, ?_⟩, hty⟩
    simpa using hbetween

/-- What a binding comes to is what carries on to the left from its place. -/
theorem getElem?_carryTypes (bindings : List Variable) (i : Nat) :
    (carryTypes bindings).1[i]? =
      bindings[i]?.map fun binding => { binding with ty := (carryTypes (bindings.drop i)).2 } := by
  induction bindings generalizing i with
  | nil => rfl
  | cons first rest ih =>
    obtain ⟨name, ty, initializer, isLet⟩ := first
    cases i <;> cases ty <;> cases initializer <;> simp [carryTypes, ih]

theorem comesTo_carried (binding : Variable) (later : List Variable) :
    ComesTo binding later (carryTypes (binding :: later)).2 := by
  obtain ⟨name, ty, initializer, isLet⟩ := binding
  cases ty <;> cases initializer <;> simp [ComesTo, carryTypes, carried_eq_some_iff]

/-- A group of bindings is read with all that each of them has, but for types that carry over. -/
theorem types_readBindings {children : List Site}
    (h : Yields tables (readBindings n children) after) :
    ∃ bindings, List.Forall₂ (fun site => Yields tables (readVariable site.node site.children n))
        (ofKind children .patternBinding) bindings ∧
      ∀ i, ∃ ty, after[i]? = bindings[i]?.map (fun binding => { binding with ty }) ∧
        ∀ binding ∈ bindings[i]?, ComesTo binding (bindings.drop (i + 1)) ty := by
  obtain ⟨bindings, hread, h⟩ := yields_bind h
  obtain rfl := yields_pure h
  refine ⟨bindings, yields_mapM hread, fun i => ⟨_, getElem?_carryTypes bindings i, ?_⟩⟩
  intro binding hbinding
  obtain ⟨hi, rfl⟩ := List.getElem?_eq_some_iff.mp hbinding
  rw [List.drop_eq_getElem_cons hi]
  exact comesTo_carried _ _

def typedPair : Node :=
  .node { kind := .patternBindingDecl } [.node { kind := .patternBinding, text := some "a" } [],
    .node { kind := .patternBinding, text := some "b" }
      [.node { kind := .typeNode, text := some "Int", role := some "type" } []]]

theorem types_readBindings_typedPair : ∃ bindings : List Variable,
    ∃ first ∈ bindings[0]?, ComesTo first (bindings.drop 1) (some "Int") := by
  have h : Yields {} (readBindings typedPair (typedPair.children.map Node.site))
      (["a", "b"].map fun name =>
        ⟨name, some "Int", none, true, false, none, none, none, none, some ⟨0, 0⟩⟩) :=
    ⟨{}, {}, Exchange.reaches_alone _⟩
  obtain ⟨bindings, -, htypes⟩ := types_readBindings h
  obtain ⟨ty, hfirst, hcomes⟩ := htypes 0
  obtain ⟨first, hbinding, heq⟩ := Option.map_eq_some_iff.mp hfirst.symm
  obtain rfl : ty = some "Int" := congrArg Variable.ty heq
  exact ⟨bindings, first, hbinding, hcomes first hbinding⟩

end Ferry.Source
