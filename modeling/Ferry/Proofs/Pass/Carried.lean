/-
  Ferry.Proofs.Pass.Carried

  What passes leave as it is.  A plain demand asks for something of names, dictionaries, deferred
  blocks, extensions, functions, variables and enumerations only, and does not look below them.  The
  passes from the guards on make none of these but names of the target's library, so a file that
  meets a plain demand before them meets it after them (`carries_late`).  Naming the parameters of
  closures changes names and whose body a node is in, and the passes before it move statements to
  other places: a demand gets through them if it does not look at that (`carries_of_isNameless`,
  `carries_of_isFree`).  A loose demand may ask anything of statements; what the passes do to these
  is then to be seen pass by pass.
-/
import Ferry.Proofs.Pass.Idempotence
import Ferry.Proofs.Pass.Relabel

namespace Ferry

/-- Whether a demand may ask for something of a statement. -/
def Stmt.isWatched : Stmt → Bool
  | .deferBlock .. | .extensionDecl .. | .function .. | .declare .. | .enumDecl .. => true
  | _ => false

/-- That a demand does not look below a node or at lists, and of expressions only at names and
dictionaries. -/
structure Demand.IsLoose (d : Demand) : Prop where
  mild : d.IsMild
  shallow : d.IsShallow
  block : ∀ list, d.block list
  counterpart : ∀ {place called n isImplicit info},
    d.expr place called (.name n true isImplicit info) →
    d.expr place called (.name ((Pass.functionCounterpart? n).getD n) false isImplicit info)

/-- That a demand on no lists, and of expressions only on names, dictionaries and calls, is kept
when a transform changes the parts of a node. -/
structure Demand.IsKeptBy (d : Demand) (t : Transform) : Prop where
  tame : d.IsTame
  block : ∀ list, d.block list
  expr : ∀ {place called e}, d.expr place called e →
    d.expr place called (e.mapParts (t.change place.owner))
  stmt : ∀ {place s}, d.stmt place s → d.stmt place (s.mapParts (t.change place.owner))

theorem Demand.IsLoose.isKeptBy {d : Demand} (hd : d.IsLoose) (t : Transform) : d.IsKeptBy t :=
  ⟨hd.mild.tame, hd.block, hd.shallow.expr _, hd.shallow.stmt _⟩

/-- That a loose demand asks for something of watched statements only. -/
structure Demand.IsPlain (d : Demand) : Prop extends d.IsLoose where
  stmt : ∀ {place s}, s.isWatched = false → d.stmt place s

namespace Pass

variable {d : Demand}

theorem met_stmts (hblock : ∀ list, d.block list) {place : Place} {list : List Stmt}
    (h : ∀ s ∈ list, d.MetStmt place s) : d.Met place (.stmts list) :=
  Demand.met_stmts_iff.mpr ⟨h, hblock list⟩

theorem carries_of_stmt {f : Stmt → Stmt} (hd : d.IsKeptBy { stmt := fun _ s => [f s] })
    (hown : ∀ {place s}, d.stmt place s → d.stmt place (f s))
    (hparts : ∀ {place s}, d.MetParts place s.parts → d.MetParts place (f s).parts) :
    Transform.Carries { stmt := fun _ s => [f s] } d d := by
  refine .of_kept (fun _ => rfl) (fun _ => rfl) hd.expr hd.stmt (fun own parts => .expr own parts)
    ?_ (met_stmts hd.block) (fun _ _ => hd.block _)
  intro place s own parts made hmade
  obtain rfl := List.mem_singleton.mp hmade
  exact ⟨hown own, hparts parts⟩

theorem carries_of_expr {f : Bool → Expr → Expr} (hd : d.IsKeptBy { expr := f })
    (hf : ∀ {place called e}, d.Met place (.expr called e) →
      d.Met place (.expr called (f called e))) :
    Transform.Carries { expr := f } d d := by
  refine .of_kept (fun _ => rfl) (fun _ => rfl) hd.expr hd.stmt
    (fun own parts => hf (.expr own parts)) ?_ (met_stmts hd.block) (fun _ _ => hd.block _)
  intro place s own parts made hmade
  obtain rfl := List.mem_singleton.mp hmade
  exact ⟨own, parts⟩

/-! ## Passes that any plain demand gets through -/

theorem carries_removeParentheses_of (hd : d.IsKeptBy removeParentheses)
    (hunwrap : ∀ {place s}, d.stmt place s → d.stmt place (unwrapStmt s)) :
    removeParentheses.Carries d d := by
  refine .of_kept (fun _ => rfl) (fun _ => rfl) hd.expr hd.stmt ?_ ?_ (met_stmts hd.block)
    (fun _ _ => hd.block _)
  · intro place called e own parts
    have hparts := metParts_unwrapExpr hd.tame.steady parts
    cases e with
    | paren inner info =>
      have hinner := Demand.metParts_singleton.mp parts
      show d.Met place (.expr called (unwrapExpr (.paren inner info)))
      rw [unwrapExpr]
      -- What is inside takes the place of the parentheses, or they stay.
      split
      next => exact hd.tame.steady.met_iff.mp hinner
      next => exact .expr own parts
    | tuple | shuffle => exact .expr (hd.tame.free rfl rfl) hparts
    | _ => exact .expr own parts
  · intro place s own parts made hmade
    obtain rfl := List.mem_singleton.mp hmade
    exact ⟨hunwrap own, metParts_unwrapStmt hd.tame.steady parts⟩

theorem carries_removeParentheses (hd : d.IsPlain) : removeParentheses.Carries d d := by
  refine carries_removeParentheses_of (hd.isKeptBy _) fun {place s} own => ?_
  cases s with
  | ifStmt | whileLoop | switchStmt | returnStmt => exact hd.stmt rfl
  | _ => exact own

theorem carries_doubleNegativesInGuards (hd : d.IsPlain) : doubleNegativesInGuards.Carries d d := by
  refine carries_of_stmt (hd.isKeptBy _) (fun {place s} own => ?_)
    (metParts_cancelNegation hd.mild.tame)
  fun_cases cancelNegation s with
  | case1 => exact hd.stmt rfl
  | case2 => exact own

theorem carries_returnIfNil (hd : d.IsPlain) : returnIfNil.Carries d d := by
  refine carries_of_stmt (hd.isKeptBy _) (fun {place s} own => ?_)
    (metParts_returnForNil hd.mild.tame)
  fun_cases returnForNil s with
  | case1 => exact hd.stmt rfl
  | case2 | case3 => exact own

theorem met_styleCase (hd : d.IsTame) {registry : Registry} {place : Place}
    {called : Bool} {e : Expr}
    (h : d.Met place (.expr called e)) : d.Met place (.expr called (styleCase registry e)) := by
  obtain heq | ⟨base, n, isLibrary, style, style', info, rfl, heq⟩ := styleCase_cases registry e
  · rw [heq]
    exact h
  · rw [heq]
    exact .expr (hd.free rfl rfl) (Demand.met_expr_iff.mp h).2

theorem carries_capitalizeEnumCases (hd : d.IsLoose) (registry : Registry) :
    (capitalizeEnumCases registry).Carries d d :=
  carries_of_expr (hd.isKeptBy _) (met_styleCase hd.mild.tame)

theorem carries_isChecksForPayloadCases (hd : d.IsPlain) : isChecksForPayloadCases.Carries d d := by
  refine carries_of_stmt (hd.isKeptBy _) (fun {place s} own => ?_)
    (metParts_checkCases hd.mild.tame)
  fun_cases checkCases s with
  | case1 => exact hd.stmt rfl
  | case2 => exact own

theorem carries_switchesToExpressions_of (hd : d.IsKeptBy switchesToExpressions)
    (hstmt : ∀ {place s}, s.isWatched = false → d.stmt place s) :
    switchesToExpressions.Carries d d := by
  refine .of_kept (fun _ => rfl) (fun _ => rfl) hd.expr hd.stmt (fun own parts => .expr own parts)
    ?_ ?_ (fun _ _ => hd.block _)
  · intro place s own parts made hmade
    obtain rfl := List.mem_singleton.mp hmade
    refine ⟨?_, metParts_toValue (hstmt rfl) (fun _ => hd.block _) parts⟩
    show d.stmt place (toValue s)
    fun_cases toValue s with
    | case1 => exact hstmt rfl
    | case2 | case3 | case4 => exact own
  · intro place list h
    exact met_stmts hd.block (metStmt_joinDeclarations (fun _ => hstmt rfl) h)

theorem carries_switchesToExpressions (hd : d.IsPlain) : switchesToExpressions.Carries d d :=
  carries_switchesToExpressions_of (hd.isKeptBy _) hd.stmt

theorem dropBreak_subset (body : List Stmt) : dropBreak body ⊆ body := by
  unfold dropBreak
  split
  next => exact List.dropLast_subset _
  next => exact List.Subset.refl _

theorem metParts_dropBreaks (hblock : ∀ list, d.block list) {place : Place} {s : Stmt}
    (h : d.MetParts place s.parts) : d.MetParts place (dropBreaks s).parts := by
  fun_cases dropBreaks s with
  | case1 subject cases target span kept =>
    obtain ⟨hsubject, hcases, htarget⟩ := metParts_switch.mp h
    refine metParts_switch.mpr ⟨hsubject, fun c hc => ?_, htarget⟩
    obtain ⟨origin, horigin, rfl⟩ := List.mem_map.mp (List.mem_of_mem_filter hc)
    obtain ⟨hpatterns, hbody⟩ := metParts_case.mp (hcases origin horigin)
    refine metParts_case.mpr ⟨hpatterns, Demand.met_stmts_iff.mpr ⟨fun s hs => ?_, hblock _⟩⟩
    exact (Demand.met_stmts_iff.mp hbody).1 s (dropBreak_subset _ hs)
  | case2 => exact h

theorem carries_removeBreaksInSwitches (hd : d.IsPlain) : removeBreaksInSwitches.Carries d d := by
  refine carries_of_stmt (hd.isKeptBy _) (fun {place s} own => ?_) (metParts_dropBreaks hd.block)
  fun_cases dropBreaks s with
  | case1 => exact hd.stmt rfl
  | case2 => exact own

theorem parts_relabelCall (names : List String) (arguments : Expr) :
    (relabelCall names arguments).parts = arguments.parts := by
  have htuple : ∀ elements info, (Expr.tuple elements info).parts =
      (elements.map Argument.value).map Part.value := fun _ _ => by rw [List.map_map]; rfl
  have hshuffle : ∀ slots info, (Expr.shuffle slots info).parts =
      (slots.flatMap Slot.values).map Part.value := fun _ _ => (List.map_flatMap ..).symm
  fun_cases relabelCall names arguments with
  | case1 elements info hlength => rw [htuple, htuple, map_value_relabelArguments hlength]
  | case3 slots info hlength => rw [hshuffle, hshuffle, flatMap_values_relabelSlots]
  | _ => rfl

theorem met_relabelCall (hd : d.IsMild) {place : Place} {called : Bool} {names : List String}
    {arguments : Expr} (h : d.Met place (.expr called arguments)) :
    d.Met place (.expr called (relabelCall names arguments)) := by
  obtain ⟨own, parts⟩ := Demand.met_expr_iff.mp h
  refine .expr ?_ (parts_relabelCall names arguments ▸ parts)
  fun_cases relabelCall names arguments with
  | case5 => exact own
  | _ => exact hd.expr rfl

theorem met_nameArguments (hd : d.IsMild) (registry : Registry) {place : Place} {called : Bool}
    {e : Expr} (h : d.Met place (.expr called e)) :
    d.Met place (.expr called (nameArguments registry e)) := by
  fun_cases nameArguments registry e with
  | case1 callee arguments hasTrailing isPure info names hnames =>
    obtain ⟨hcallee, harguments⟩ := Demand.metParts_cons.mp (Demand.met_expr_iff.mp h).2
    refine .expr (hd.expr rfl) (Demand.metParts_cons.mpr ⟨hcallee, ?_⟩)
    exact Demand.metParts_singleton.mpr
      (met_relabelCall hd (Demand.metParts_singleton.mp harguments))
  | case2 | case3 => exact h

theorem carries_callLabelsToParameterNames (hd : d.IsLoose) (registry : Registry) :
    (callLabelsToParameterNames registry).Carries d d :=
  carries_of_expr (hd.isKeptBy _) (met_nameArguments hd.mild registry)

theorem met_markPure (hd : d.IsMild) (registry : Registry) {place : Place}
    {called : Bool} {e : Expr}
    (h : d.Met place (.expr called e)) : d.Met place (.expr called (markPure registry e)) := by
  fun_cases markPure registry e with
  | case1 => exact .expr (hd.expr rfl) (Demand.met_expr_iff.mp h).2
  | case2 => exact h

theorem carries_pureCalls (hd : d.IsLoose) (registry : Registry) :
    (pureCalls registry).Carries d d :=
  carries_of_expr (hd.isKeptBy _) (met_markPure hd.mild registry)

theorem carries_nothing (hd : d.IsLoose) : Transform.Carries {} d d :=
  carries_of_expr (hd.isKeptBy _) fun h => h

theorem met_replaceReference_of (hd : d.IsMild)
    (hcounterpart : ∀ {place called n isImplicit info},
      d.expr place called (.name n true isImplicit info) →
      d.expr place called (.name ((functionCounterpart? n).getD n) false isImplicit info))
    {place : Place} {called : Bool} {e : Expr} (h : d.Met place (.expr called e)) :
    d.Met place (.expr called (replaceReference called e)) := by
  obtain ⟨own, parts⟩ := Demand.met_expr_iff.mp h
  fun_cases replaceReference called e with
  | case3 base n style info name hcounterpart hcalled =>
    refine .expr (hd.expr rfl) (Demand.metParts_cons.mpr ⟨.expr (hd.expr rfl) ?_, ?_⟩)
    · exact Demand.metParts_value.mpr parts
    · exact Demand.metParts_singleton.mpr (.expr (hd.expr rfl) Demand.metParts_nil)
  | case5 n isImplicit info => exact .expr (hcounterpart own) parts
  | case6 => exact h
  | _ => exact .expr (hd.expr rfl) parts

theorem carries_standardLibrary (hd : d.IsLoose) : standardLibrary.Carries d d :=
  carries_of_expr (hd.isKeptBy _) (met_replaceReference_of hd.mild hd.counterpart)

/-! ## Closures -/

end Pass

/-- That a loose demand asks nothing of names and does not look at whose body a node is in. -/
structure Demand.IsAnonymous (d : Demand) : Prop extends d.IsLoose where
  name : ∀ {place called n isLibrary isImplicit info},
    d.expr place called (.name n isLibrary isImplicit info)
  bare_expr : ∀ {place called e} inBare, d.expr place called e →
    d.expr { place with inBare } called e
  bare_stmt : ∀ {place s} inBare, d.stmt place s → d.stmt { place with inBare } s

structure Demand.IsNameless (d : Demand) : Prop extends d.IsPlain, d.IsAnonymous

namespace Pass

variable {d : Demand}

theorem met_closure
    (hexpr : ∀ {place called e} inBare, d.expr place called e →
      d.expr { place with inBare } called e)
    (hstmt : ∀ {place s} inBare, d.stmt place s → d.stmt { place with inBare } s)
    {place : Place} {isBare : Bool} {fragment : Fragment}
    (h : d.Met (place.step (.closure isBare)) fragment) (isBare' : Bool) :
    d.Met (place.step (.closure isBare')) fragment := by
  refine h.transport (r := fun p q => q = { p with inBare := q.inBare }) ?_ ?_ ?_ (fun h => h) rfl
  · rintro p q step hq
    rw [hq]
    cases step <;> rfl
  · rintro p q called e hq own
    rw [hq]
    exact hexpr _ own
  · rintro p q s hq own
    rw [hq]
    exact hstmt _ own

theorem carries_anonymousRenaming {isOnly : Bool} (hd : d.IsKeptBy (anonymousRenaming isOnly))
    (hname : ∀ {place called n isLibrary isImplicit info},
      d.expr place called (.name n isLibrary isImplicit info)) :
    (anonymousRenaming isOnly).Carries d d := by
  refine .of_stmt d.stmt (fun _ => rfl) ?_ (fun _ h => h) ?_ (met_stmts hd.block)
    (fun _ _ => hd.block _)
  · intro place called e _ own parts
    have hown := hd.expr own
    generalize e.mapParts ((anonymousRenaming isOnly).change place.owner) = walked at hown parts ⊢
    refine .expr ?_ (parts_renameAnonymous isOnly walked ▸ parts)
    show d.expr place called (renameAnonymous isOnly walked)
    fun_cases renameAnonymous isOnly walked with
    | case1 | case2 => exact hname
    | case3 => exact hown
  · intro place s own parts made hmade
    obtain rfl := List.mem_singleton.mp hmade
    exact ⟨hd.stmt own, parts⟩

theorem carries_anonymousParameters_of (hd : d.IsKeptBy anonymousParameters)
    (hexpr : ∀ {place called e} inBare, d.expr place called e →
      d.expr { place with inBare } called e)
    (hstmt : ∀ {place s} inBare, d.stmt place s → d.stmt { place with inBare } s)
    (hrenaming : ∀ isOnly, (anonymousRenaming isOnly).Carries d d) :
    anonymousParameters.Carries d d := by
  refine carries_of_expr hd fun {place called e} h => ?_
  obtain ⟨own, parts⟩ := Demand.met_expr_iff.mp h
  obtain heq | ⟨body, info, parameters, isOnly, rfl, heq⟩ := nameParameters_cases e
  · rw [heq]
    exact h
  · rw [heq]
    have hbody := (hrenaming isOnly).met (Demand.metParts_singleton.mp parts)
    rw [Transform.onFragment_congr (fun _ _ _ => rfl) {} _ _ none] at hbody
    refine .expr (hd.tame.free rfl rfl) (Demand.metParts_singleton.mpr ?_)
    exact met_closure hexpr hstmt hbody _

theorem carries_anonymousParameters (hd : d.IsAnonymous) : anonymousParameters.Carries d d :=
  carries_anonymousParameters_of (hd.isKeptBy _) hd.bare_expr hd.bare_stmt
    fun _ => carries_anonymousRenaming (hd.isKeptBy _) hd.name

/-! ## Members -/

end Pass

/-- That a plain demand asks the same of a node wherever it stands, and nothing of functions and
variables. -/
structure Demand.IsFree (d : Demand) : Prop extends d.IsPlain where
  name : ∀ {place called n isLibrary isImplicit info},
    d.expr place called (.name n isLibrary isImplicit info)
  function : ∀ {place head parameters body span}, d.stmt place (.function head parameters body span)
  declare : ∀ {place item}, d.stmt place (.declare item)
  anywhere_expr : ∀ {place other called e}, d.expr place called e → d.expr other called e
  anywhere_stmt : ∀ {place other s}, d.stmt place s → d.stmt other s

namespace Demand.IsFree

variable {d : Demand}

theorem isLevel (hd : d.IsFree) : d.IsLevel :=
  ⟨⟨hd.anywhere_stmt, hd.anywhere_stmt⟩, hd.block⟩

theorem isNameless (hd : d.IsFree) : d.IsNameless :=
  { hd.toIsPlain with
    name := hd.name
    bare_expr := fun _ => hd.anywhere_expr
    bare_stmt := fun _ => hd.anywhere_stmt }

end Demand.IsFree

namespace Pass

/-- A demand on statements of a kind that is neither a function nor a variable. -/
theorem isFree_of_stmt {p : Stmt → Prop} (hshallow : ∀ φ s, p s → p (s.mapParts φ))
    (hunwatched : ∀ s, s.isWatched = false → p s)
    (hfunction : ∀ head parameters body span, p (.function head parameters body span))
    (hdeclare : ∀ item, p (.declare item)) : Demand.IsFree { stmt := fun _ s => p s } where
  mild := isMild_of_stmt
  shallow := ⟨fun _ _ => trivial, fun φ h => hshallow φ _ h⟩
  stmt h := hunwatched _ h
  block _ := trivial
  counterpart _ := trivial
  name := trivial
  function := hfunction _ _ _ _
  declare := hdeclare _
  anywhere_expr _ := trivial
  anywhere_stmt h := h

variable {d : Demand}

theorem carries_defersToFinally_of (hd : d.IsKeptBy defersToFinally) (hlevel : d.IsLevel)
    (hguard : ∀ {place body cleanup span}, d.stmt place (.doBlock body cleanup span)) :
    defersToFinally.Carries d d := by
  refine .of_kept (fun _ => rfl) (fun _ => rfl) hd.expr hd.stmt (fun own parts => .expr own parts)
    ?_ (fun {place list} hlist => ?_) (fun _ _ => hd.block _)
  · intro place s own parts made hmade
    obtain rfl := List.mem_singleton.mp hmade
    exact ⟨own, parts⟩
  · exact met_stmts hd.block (metStmt_wrapDefers hlevel hguard (fun s hs _ => (hlist s hs).1)
      fun s hs => (hlist s hs).2)

theorem carries_defersToFinally (hd : d.IsFree) : defersToFinally.Carries d d :=
  carries_defersToFinally_of (hd.isKeptBy _) hd.isLevel (hd.stmt rfl)

theorem carries_removeExtensions_of (hd : d.IsKeptBy removeExtensions) (hlevel : d.IsLevel)
    (hreceiver : ∀ {place extended s}, d.stmt place s → d.stmt place (withReceiver extended s)) :
    removeExtensions.Carries d d := by
  refine .of_kept (fun _ => rfl) (fun _ => rfl) hd.expr hd.stmt (fun own parts => .expr own parts)
    ?_ (met_stmts hd.block) (fun _ _ => hd.block _)
  intro place s own parts
  exact metStmt_spreadExtension hlevel hreceiver (fun _ => own) parts

theorem carries_removeExtensions (hd : d.IsFree) : removeExtensions.Carries d d := by
  refine carries_removeExtensions_of (hd.isKeptBy _) hd.isLevel fun {place extended s} own => ?_
  fun_cases withReceiver extended s with
  | case1 => exact hd.function
  | case2 => exact hd.declare
  | case3 => exact own

theorem carries_returningSelf {d' : Demand} {name : String}
    (hskip : ∀ {place called e}, d.Met place (.expr called e) → d'.Met place (.expr called e))
    (hown : ∀ {place s}, d.stmt place s →
      d'.stmt place (returnSelf name (s.mapParts ((returningSelf name).change place.owner))))
    (hparts : ∀ {place s}, d'.MetParts place s.parts → d'.MetParts place (returnSelf name s).parts)
    (hblock : ∀ list, d'.block list) : (returningSelf name).Carries d d' := by
  refine .of_stmt d'.stmt (fun _ => rfl) (fun henters => absurd henters Bool.false_ne_true)
    (fun _ h => hskip h) ?_ (met_stmts hblock) (fun _ _ => hblock _)
  intro place s own parts made hmade
  obtain rfl := List.mem_singleton.mp hmade
  exact ⟨hown own, hparts parts⟩

theorem carries_returningSelf_of (hd : d.IsLoose)
    (hreturn : ∀ {place value span}, d.stmt place (.returnStmt value span)) (name : String) :
    (returningSelf name).Carries d d := by
  refine carries_returningSelf (fun h => h) (fun {place s} own => ?_)
    (metParts_returnSelf hd.mild) hd.block
  have hown := hd.shallow.stmt ((returningSelf name).change place.owner) own
  generalize s.mapParts ((returningSelf name).change place.owner) = walked at hown ⊢
  fun_cases returnSelf name walked with
  | case1 | case3 => exact hreturn
  | _ => exact hown

theorem carries_optionalInitsToFactories_of (hd : d.IsKeptBy optionalInitsToFactories)
    (hreturning : ∀ name, (returningSelf name).Carries d d)
    (hfactory : ∀ {place s}, d.stmt place s → d.stmt place (toFactory place.owner s)) :
    optionalInitsToFactories.Carries d d := by
  refine .of_kept (fun _ => rfl) (fun _ => rfl) hd.expr hd.stmt (fun own parts => .expr own parts)
    ?_ (met_stmts hd.block) (fun _ _ => hd.block _)
  intro place s own parts made hmade
  obtain rfl := List.mem_singleton.mp hmade
  refine ⟨hfactory own, metParts_toFactory (fun {owner body} hbody => ?_) parts⟩
  have hmade := (hreturning owner).met hbody
  rw [Transform.onFragment_congr (fun _ _ _ => rfl) {} _ _ none] at hmade
  exact hmade

theorem carries_optionalInitsToFactories (hd : d.IsFree) :
    optionalInitsToFactories.Carries d d := by
  refine carries_optionalInitsToFactories_of (hd.isKeptBy _)
    (carries_returningSelf_of hd.toIsLoose (hd.stmt rfl)) fun {place s} own => ?_
  fun_cases toFactory place.owner s with
  | case1 => exact hd.function
  | _ => exact own

theorem carries_staticMembersToCompanion (hd : d.IsFree) :
    staticMembersToCompanion.Carries d d := by
  refine carries_of_stmt (hd.isKeptBy _) (fun {place s} own => ?_)
    (metParts_hoistStmt hd.isLevel (hd.stmt rfl))
  fun_cases hoistStmt s with
  | case1 | case2 => exact hd.stmt rfl
  | case3 head kind elements members span =>
    have hown := hd.shallow.stmt { Change.none with stmts := fun _ _ => hoistStatics members } own
    have helements : elements.map (fun element =>
        { element with rawValue := element.rawValue.map fun e => e }) = elements :=
      List.map_id'' (fun element => by cases element; simp) elements
    rw [Stmt.mapParts] at hown
    exact helements ▸ hown
  | case4 => exact own

/-! ## Runs of passes -/

theorem carries_late (hd : d.IsPlain) (registry : Registry) :
    ∀ pass ∈ PassId.transforming.drop 6, (pass.transform registry).Carries d d := by
  show ∀ pass ∈ [PassId.doubleNegativesInGuards, .returnIfNil, .capitalizeEnumCases,
    .isChecksForPayloadCases, .switchesToExpressions, .removeBreaksInSwitches,
    .callLabelsToParameterNames, .pureCalls, .impureSwitchSubjects, .mutableValueTypes,
    .standardLibrary], _
  simp only [List.forall_mem_cons]
  exact ⟨carries_doubleNegativesInGuards hd, carries_returnIfNil hd,
    carries_capitalizeEnumCases hd.toIsLoose registry, carries_isChecksForPayloadCases hd,
    carries_switchesToExpressions hd, carries_removeBreaksInSwitches hd,
    carries_callLabelsToParameterNames hd.toIsLoose registry,
    carries_pureCalls hd.toIsLoose registry,
    carries_nothing hd.toIsLoose, carries_nothing hd.toIsLoose,
    carries_standardLibrary hd.toIsLoose,
    fun _ h => absurd h List.not_mem_nil⟩

theorem carries_of_isNameless (hd : d.IsNameless) (registry : Registry) :
    ∀ pass ∈ PassId.transforming.drop 5, (pass.transform registry).Carries d d :=
  List.forall_mem_cons.mpr
    ⟨carries_anonymousParameters hd.toIsAnonymous, carries_late hd.toIsPlain registry⟩

theorem carries_of_isFree (hd : d.IsFree) (registry : Registry) :
    ∀ pass ∈ PassId.transforming, (pass.transform registry).Carries d d := by
  show ∀ pass ∈ [PassId.removeParentheses, .defersToFinally, .removeExtensions,
    .optionalInitsToFactories, .staticMembersToCompanion] ++ PassId.transforming.drop 5, _
  refine List.forall_mem_append.mpr ⟨?_, carries_of_isNameless hd.isNameless registry⟩
  simp only [List.forall_mem_cons]
  exact ⟨carries_removeParentheses hd.toIsPlain, carries_defersToFinally hd,
    carries_removeExtensions hd, carries_optionalInitsToFactories hd,
    carries_staticMembersToCompanion hd,
    fun _ h => absurd h List.not_mem_nil⟩

end Pass

theorem Pipeline.metFile_changed {d : Demand} {registry : Registry} {passes : List PassId}
    (hpasses : ∀ pass ∈ passes, (pass.transform registry).Carries d d) {file : SourceFile}
    (h : d.MetFile file) : d.MetFile (changed registry passes file) :=
  changed_induction (fun pass hpass _ => (hpasses pass hpass).metFile) h

/-- What a file meets after some passes, it meets after all of them if the other passes carry it. -/
theorem Pipeline.metFile_of_take {d : Demand} {registry : Registry} (count : Nat)
    (hpasses : ∀ pass ∈ PassId.transforming.drop count, (pass.transform registry).Carries d d)
    {file : SourceFile} (h : d.MetFile (changed registry (PassId.transforming.take count) file)) :
    d.MetFile (changed registry PassId.transforming file) := by
  rw [← List.take_append_drop count PassId.transforming, changed_append]
  exact metFile_changed hpasses h

end Ferry
