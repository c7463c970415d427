/-
  Ferry.Proofs.Pass.Factory

  What becomes of failable initializers.  One in the declaration of a type that assigns to no
  property of `self` is a factory after all passes, whose body returns what it makes and neither
  assigns it to `self` nor calls another initializer; one that is still there had assigned to a
  property.  The members of an extension are in the declaration of no type once the extension is
  gone, and so their initializers stay as they are (`initializers_finished`).
-/
import Ferry.Proofs.Pass.Outliving

namespace Ferry

/-! ## Uses of `self` -/

/-- How an expression uses `self`. -/
inductive SelfUse where
  /-- It is `self`. -/
  | reference
  /-- It is `self.init`. -/
  | initializer
  /-- It calls `self.init`. -/
  | making
deriving DecidableEq

/-- How an expression uses `self`, parentheses aside. -/
def Expr.selfUse? : Expr → Option SelfUse
  | .paren inner _ => inner.selfUse?
  | .name n _ _ _ => if n = "self" then some .reference else none
  | .member base n _ _ _ =>
    if n = "init" ∧ base.selfUse? = some .reference then some .initializer else none
  | .call callee _ _ _ _ => if callee.selfUse? = some .initializer then some .making else none
  | _ => none

def Stmt.isSimple : Stmt → Bool
  | .assign .. | .returnStmt .. | .expression .. => true
  | _ => false

namespace Pass

theorem isSelf_iff {e : Expr} : isSelf e = true ↔ e.selfUse? = some .reference := by
  rw [isSelf, Expr.referencedName?]
  fun_induction Expr.unparenthesized e with
  | case1 inner info ih => exact ih
  | case2 e he =>
    cases e with
    | paren inner info => exact absurd rfl (he inner info)
    | _ => simp [Expr.selfUse?]

theorem selfUse?_unparenthesized (e : Expr) : e.unparenthesized.selfUse? = e.selfUse? := by
  fun_induction Expr.unparenthesized e with
  | case1 inner info ih => exact ih
  | case2 => rfl

def isSelfMember (e : Expr) : Bool :=
  match e.unparenthesized with
  | .member base _ _ _ _ => isSelf base
  | _ => false

/-- Whether an expression is a call of `self.init` that stands in no parentheses. -/
def isSelfCall : Expr → Bool
  | .call callee _ _ _ _ => isSelfInit callee
  | _ => false

/-- That a transform changes nothing about how expressions use `self`. -/
structure KeepsSelf (t : Transform) : Prop where
  enters : ∀ e, t.enters e = true
  expr : ∀ called e, (t.expr called e).selfUse? = e.selfUse?

theorem KeepsSelf.onExpr {t : Transform} (h : KeepsSelf t) (owner : Option String) (called : Bool)
    (e : Expr) : (t.onExpr owner called e).selfUse? = e.selfUse? := by
  have hwalk : ∀ called e, (t.onExpr owner called e).selfUse? =
      (e.mapParts (t.change owner)).selfUse? := fun called e => by
    rw [Transform.onExpr_eq_mapParts, if_pos (h.enters e), h.expr]
  -- The use is decided along the callee and the base of a member, which are walked first.
  fun_induction Expr.selfUse? e generalizing called with
  | case1 inner info ih => exact (hwalk called _).trans (ih false)
  | case2 => exact (hwalk called _).trans (if_pos rfl)
  | case3 n isLibrary isImplicit info hn => exact (hwalk called _).trans (if_neg hn)
  | case4 base n isLibrary style info hinit ih | case5 base n isLibrary style info hinit ih =>
    have hbase : ((t.change owner).value base).selfUse? = base.selfUse? := ih false
    simp [hwalk, Expr.mapParts, Expr.selfUse?, hbase, hinit]
  | case6 callee arguments hasTrailing isPure info hinit ih
  | case7 callee arguments hasTrailing isPure info hinit ih =>
    have hcallee : ((t.change owner).expr .value true callee).selfUse? = callee.selfUse? := ih true
    simp [hwalk, Expr.mapParts, Expr.selfUse?, hcallee, hinit]
  | case8 e hparen hname hmember hcall =>
    cases e with
    | paren => exact absurd rfl (hparen _ _)
    | name => exact absurd rfl (hname _ _ _ _)
    | member => exact absurd rfl (hmember _ _ _ _ _)
    | call => exact absurd rfl (hcall _ _ _ _ _)
    | _ => exact hwalk called _

/-- That a transform leaves members and calls as they are, too. -/
structure KeepsMembers (t : Transform) : Prop extends KeepsSelf t where
  isSelfMember : ∀ called e, isSelfMember (t.expr called e) = isSelfMember e
  member : ∀ called base n isLibrary style info,
    t.expr called (.member base n isLibrary style info) = .member base n isLibrary style info
  call : ∀ called callee arguments hasTrailing isPure info,
    t.expr called (.call callee arguments hasTrailing isPure info) =
      .call callee arguments hasTrailing isPure info

namespace KeepsMembers

variable {t : Transform}

theorem isSelf_onExpr (h : KeepsMembers t) (owner : Option String) (called : Bool) (e : Expr) :
    isSelf (t.onExpr owner called e) = isSelf e := by
  rw [Bool.eq_iff_iff, isSelf_iff, isSelf_iff, h.onExpr]

theorem isSelfMember_onExpr (h : KeepsMembers t) (owner : Option String)
    (called : Bool) (e : Expr) :
    Pass.isSelfMember (t.onExpr owner called e) = Pass.isSelfMember e := by
  have hwalk : ∀ called e, Pass.isSelfMember (t.onExpr owner called e) =
      Pass.isSelfMember (e.mapParts (t.change owner)) := fun called e => by
    rw [Transform.onExpr_eq_mapParts, if_pos (h.enters e), h.isSelfMember]
  fun_induction Expr.unparenthesized e generalizing called with
  | case1 inner info ih => exact (hwalk called _).trans (ih false)
  | case2 e he =>
    cases e with
    | paren inner info => exact absurd rfl (he inner info)
    | member base n isLibrary style info =>
      exact (hwalk called _).trans (h.isSelf_onExpr owner false base)
    | _ => exact hwalk called _

theorem isSelfCall_onExpr (h : KeepsMembers t) {owner : Option String} {e : Expr}
    (he : isSelfCall e = true) : isSelfCall (t.onExpr owner false e) = true := by
  unfold isSelfCall isSelfInit at he
  split at he
  next callee arguments hasTrailing isPure info =>
    split at he
    next base n isLibrary style info' =>
      have hbase := h.isSelf_onExpr owner false base
      rw [Transform.onExpr, Transform.visit, if_pos (h.enters _), h.call, Transform.onExpr,
        Transform.visit, if_pos (h.enters _), h.member]
      simp only [isSelfCall, isSelfInit, hbase]
      exact he
    next => exact absurd he Bool.false_ne_true
  next => exact absurd he Bool.false_ne_true

end KeepsMembers

/-- The passes up to the one for factories change no expressions but by dropping parentheses. -/
theorem keepsMembers_transform (registry : Registry) :
    ∀ pass ∈ PassId.transforming.take 4, KeepsMembers (pass.transform registry) := by
  have hid : ∀ {t : Transform}, (∀ e, t.enters e = true) → (∀ called e, t.expr called e = e) →
      KeepsMembers t := fun henters hexpr =>
    ⟨⟨henters, fun _ _ => by rw [hexpr]⟩, fun _ _ => by rw [hexpr], fun _ _ _ _ _ _ => hexpr _ _,
      fun _ _ _ _ _ _ => hexpr _ _⟩
  rw [PassId.forall_mem_early_iff]
  refine ⟨⟨⟨fun _ => rfl, fun _ e => ?_⟩, fun _ e => ?_, fun _ _ _ _ _ _ => rfl, fun _ _ _ _ _ _ =>
    rfl⟩, hid (fun _ => rfl) fun _ _ => rfl, hid (fun _ => rfl) fun _ _ => rfl,
    hid (fun _ => rfl) fun _ _ => rfl⟩
  · show (unwrapExpr e).selfUse? = e.selfUse?
    fun_cases unwrapExpr e <;> rfl
  · show isSelfMember (unwrapExpr e) = isSelfMember e
    fun_cases unwrapExpr e <;> rfl

/-- No counterpart is an initializer, and no initializer has one. -/
theorem ne_init_of_memberCounterpart {n : String} {c : Counterpart}
    (h : memberCounterpart? n = some c) :
    n ≠ "init" ∧ c ≠ .renamed "init" ∧ c ≠ .method "init" := by
  unfold memberCounterpart? at h
  split at h <;> simp at h <;> subst h <;> simp

theorem getD_functionCounterpart_eq_self_iff {n : String} :
    (functionCounterpart? n).getD n = "self" ↔ n = "self" := by
  unfold functionCounterpart?
  split <;> simp

theorem keepsSelf_transform (registry : Registry) :
    ∀ pass ∈ PassId.transforming.drop 4, KeepsSelf (pass.transform registry) := by
  rw [PassId.forall_mem_late_iff]
  refine ⟨⟨fun _ => rfl, fun _ _ => rfl⟩, ⟨fun _ => rfl, fun _ e => ?_⟩,
    ⟨fun _ => rfl, fun _ _ => rfl⟩, ⟨fun _ => rfl, fun _ _ => rfl⟩, ⟨fun _ => rfl, fun _ e => ?_⟩,
    ⟨fun _ => rfl, fun _ _ => rfl⟩,
    ⟨fun _ => rfl, fun _ _ => rfl⟩, ⟨fun _ => rfl, fun _ _ => rfl⟩, ⟨fun _ => rfl, fun _ e => ?_⟩,
    ⟨fun _ => rfl, fun _ e => ?_⟩, ⟨fun _ => rfl, fun _ _ => rfl⟩, ⟨fun _ => rfl, fun _ _ => rfl⟩,
    ⟨fun _ => rfl, fun called e => ?_⟩⟩
  -- Five of the passes change expressions: none makes or takes away a use of `self`.
  · obtain heq | ⟨body, info, parameters, isOnly, rfl, heq⟩ := nameParameters_cases e
    · exact congrArg Expr.selfUse? heq
    · exact (congrArg Expr.selfUse? heq).trans rfl
  · obtain heq | ⟨base, n, isLibrary, style, style', info, rfl, heq⟩ := styleCase_cases registry e
    · exact congrArg Expr.selfUse? heq
    · exact (congrArg Expr.selfUse? heq).trans rfl
  · show (nameArguments registry e).selfUse? = e.selfUse?
    fun_cases nameArguments registry e <;> rfl
  · show (markPure registry e).selfUse? = e.selfUse?
    fun_cases markPure registry e <;> rfl
  · show (replaceReference called e).selfUse? = e.selfUse?
    fun_cases replaceReference called e with
    | case1 base n style info name hcounterpart | case2 base n style info name hcounterpart
    | case3 base n style info name hcounterpart =>
      have hname := ne_init_of_memberCounterpart hcounterpart
      simp_all [Expr.selfUse?]
    | case5 => simp [Expr.selfUse?, getD_functionCounterpart_eq_self_iff]
    | _ => rfl

/-! ## Bodies of initializers -/

/-- Nothing is assigned to a property of `self`. -/
def unassigning : Demand where
  stmt _ s := ∀ lhs rhs span, s = .assign lhs rhs span → isSelfMember lhs = false

/-- Outside expressions a factory assigns nothing to `self`. With `calls`, `self.init` is called in
statements of its own only, and in a factory not at all. -/
def selfless (calls isFactory : Bool) : Demand where
  stmt place s := place.inExpr = false → match s with
    | .assign lhs rhs _ => (calls = true → rhs.selfUse? ≠ some .making) ∧
      (isFactory = true → lhs.selfUse? ≠ some .reference)
    | .returnStmt (some e) _ => calls = true → e.selfUse? ≠ some .making
    | .expression e _ => calls = true → e.selfUse? = some .making →
      isFactory = false ∧ isSelfCall e = true
    | _ => True

theorem isOuter_selfless (calls isFactory : Bool) : (selfless calls isFactory).IsOuter where
  expr _ _ _ := trivial
  stmt hplace h := absurd (hplace.symm.trans h) Bool.true_eq_false.mp
  level := ⟨Iff.rfl, fun _ => trivial⟩

theorem isKeptBy_unassigning {t : Transform}
    (hmember : ∀ owner e, isSelfMember (t.onExpr owner false e) = isSelfMember e) :
    unassigning.IsKeptBy t where
  tame := isMild_of_stmt.tame
  block _ := trivial
  expr _ := trivial
  stmt {place s} own := by
    cases s with
    | assign lhs rhs span =>
      rintro _ _ _ ⟨⟩
      exact (hmember place.owner lhs).trans (own lhs rhs span rfl)
    | _ => exact fun _ _ _ => Stmt.noConfusion

theorem isKeptBy_selfless {t : Transform} {calls isFactory : Bool}
    (hself : ∀ owner e, (t.onExpr owner false e).selfUse? = e.selfUse?)
    (hcall : isFactory = false → ∀ {owner e}, isSelfCall e = true →
      isSelfCall (t.onExpr owner false e) = true) : (selfless calls isFactory).IsKeptBy t where
  tame := isMild_of_stmt.tame
  block _ := trivial
  expr _ := trivial
  stmt {place s} own hplace := by
    have hown := own hplace
    cases s with
    | assign lhs rhs span =>
      exact ⟨(hself place.owner rhs).symm ▸ hown.1, (hself place.owner lhs).symm ▸ hown.2⟩
    | returnStmt value span =>
      cases value with
      | none => trivial
      | some e => exact fun hcalls hmaking => hown hcalls ((hself place.owner e).symm.trans hmaking)
    | expression e span =>
      intro hcalls hmaking
      obtain ⟨hfactory, hdirect⟩ := hown hcalls ((hself place.owner e).symm.trans hmaking)
      exact ⟨hfactory, hcall hfactory hdirect⟩
    | _ => trivial

theorem ofStmts_eq_nil_of_unassigning {place : Place} {body : List Stmt}
    (h : unassigning.Met place (.stmts body)) : propertyAssignments.ofStmts body = [] := by
  have hdemand : (propertyAssignments.demand fun _ => False).Met place (.stmts body) := by
    refine h.transport (r := Eq) (fun _ hr => hr ▸ rfl) (fun _ _ _ => List.not_mem_nil) ?_
      (fun _ => trivial) rfl
    intro place _ s _ own
    refine ⟨fun x hx => ?_, fun _ => List.not_mem_nil⟩
    cases s with
    | assign lhs rhs span =>
      have hlhs := own lhs rhs span rfl
      unfold isSelfMember at hlhs
      simp only [propertyAssignments] at hx
      grind
    | _ => exact List.not_mem_nil hx
  exact List.eq_nil_iff_forall_not_mem.mpr (Survey.forall_mem_ofFragment hdemand)

/-- A demand on simple statements gets through the passes up to the one for factories. -/
theorem carries_toFactories {d : Demand} (registry : Registry) (hlevel : d.IsLevel)
    (hother : ∀ {place s}, s.isSimple = false → d.stmt place s)
    (hkept : ∀ pass ∈ PassId.transforming.take 4, d.IsKeptBy (pass.transform registry))
    (hunwrapped : ∀ {place value span}, d.stmt place (.returnStmt value span) →
      d.stmt place (.returnStmt (value.map Expr.unparenthesized) span))
    (hreturning : ∀ name, (returningSelf name).Carries d d) :
    ∀ pass ∈ PassId.transforming.take 4, (pass.transform registry).Carries d d := by
  rw [PassId.forall_mem_early_iff] at hkept ⊢
  obtain ⟨hparentheses, hdefers, hextensions, hinits⟩ := hkept
  refine ⟨carries_removeParentheses_of hparentheses fun {place s} own => ?_,
    carries_defersToFinally_of hdefers hlevel (hother rfl),
    carries_removeExtensions_of hextensions hlevel fun {place extended s} own => ?_,
    carries_optionalInitsToFactories_of hinits hreturning fun {place s} own => ?_⟩
  -- A statement that is not simple is free; the others change only where values are returned.
  · cases s with
    | ifStmt | whileLoop | switchStmt => exact hother rfl
    | returnStmt => exact hunwrapped own
    | _ => exact own
  · cases s with
    | function | declare => exact hother rfl
    | _ => exact own
  · fun_cases toFactory place.owner s with
    | case1 => exact hother rfl
    | _ => exact own

theorem carries_unassigning (registry : Registry) :
    ∀ pass ∈ PassId.transforming.take 4, (pass.transform registry).Carries unassigning
    unassigning := by
  refine carries_toFactories registry ⟨Iff.rfl, fun _ => trivial⟩
    (fun {place s} hs lhs rhs span heq => by subst heq; exact absurd hs Bool.true_eq_false.mp)
    (fun pass hpass => isKeptBy_unassigning fun owner e =>
      (keepsMembers_transform registry pass hpass).isSelfMember_onExpr owner false e)
    (fun _ _ _ _ => Stmt.noConfusion) fun name => ?_
  refine carries_returningSelf (fun h => h) (fun {place s} own => ?_)
    (metParts_returnSelf isMild_of_stmt) fun _ => trivial
  have hkept := (isKeptBy_unassigning fun owner e =>
    congrArg isSelfMember (change_returningSelf_value name owner e)).stmt own
  generalize s.mapParts ((returningSelf name).change place.owner) = walked at hkept ⊢
  fun_cases returnSelf name walked with
  | case1 | case3 => exact fun _ _ _ => Stmt.noConfusion
  | _ => exact hkept

theorem carries_returningSelf_selfless (name : String) (calls isFactory isFactory' : Bool) :
    (returningSelf name).Carries (selfless calls isFactory) (selfless calls isFactory') := by
  refine carries_returningSelf (fun _ => (isOuter_selfless ..).met_expr) (fun {place s} own => ?_)
    (metParts_returnSelf isMild_of_stmt) fun _ => trivial
  have hvalue : ∀ owner e, (returningSelf name).onExpr owner false e = e :=
    change_returningSelf_value name
  have hkept := (isKeptBy_selfless (fun owner e => congrArg Expr.selfUse? (hvalue owner e))
    (fun _ owner e he => (congrArg isSelfCall (hvalue owner e)).trans he)).stmt own
  generalize s.mapParts ((returningSelf name).change place.owner) = walked at hkept ⊢
  intro hplace
  have hown := hkept hplace
  fun_cases returnSelf name walked with
  | case1 => exact hown.1
  | case2 lhs rhs span hself => exact ⟨hown.1, fun _ h => hself (isSelf_iff.mpr h)⟩
  | case3 => simp [Expr.selfUse?]
  -- In a factory a call of `self.init` is returned, so none is left as a statement.
  | case4 callee arguments hasTrailing isPure info span hinit =>
    exact fun hcalls hmaking => absurd (hown hcalls hmaking).2 hinit
  | case5 _ hassign hcall =>
    cases walked with
    | assign lhs rhs span => exact absurd rfl (hassign lhs rhs span)
    | expression e span =>
      intro hcalls hmaking
      have hdirect := (hown hcalls hmaking).2
      cases e with
      | call => exact absurd rfl (hcall _ _ _ _ _ _)
      | _ => exact absurd hdirect Bool.false_ne_true
    | returnStmt value span => cases value <;> exact hown
    | _ => trivial

theorem carries_selfless_early (registry : Registry) (calls : Bool) :
    ∀ pass ∈ PassId.transforming.take 4,
      (pass.transform registry).Carries (selfless calls false) (selfless calls false) := by
  refine carries_toFactories registry (isOuter_selfless calls false).level ?_
    (fun pass hpass => ?_) ?_ fun name => carries_returningSelf_selfless name calls false false
  · intro place s hs _
    cases s with
    | assign | returnStmt | expression => exact absurd hs Bool.true_eq_false.mp
    | _ => trivial
  · have hkeeps := keepsMembers_transform registry pass hpass
    exact isKeptBy_selfless (hkeeps.onExpr · false) fun _ _ _ => hkeeps.isSelfCall_onExpr
  · intro place value span own hplace
    cases value with
    | none => trivial
    | some e =>
      exact fun hcalls hmaking =>
        own hplace hcalls ((selfUse?_unparenthesized e).symm.trans hmaking)

theorem selfless_yielded {calls : Bool} {place : Place} {s : Stmt}
    (h : (selfless calls true).stmt place s) : (selfless calls true).stmt place (yielded s) := by
  intro hplace
  have hown := h hplace
  fun_cases yielded s with
  | case1 => exact fun hcalls hmaking => absurd hmaking (hown hcalls)
  | case2 => exact fun hcalls hmaking => absurd hmaking (hown.1 hcalls)
  | case3 => exact hown

theorem carries_selfless_late (registry : Registry) (calls : Bool) :
    ∀ pass ∈ PassId.transforming.drop 4,
      (pass.transform registry).Carries (selfless calls true) (selfless calls true) := by
  have htame : (selfless calls true).IsTame := isMild_of_stmt.tame
  have hblock : ∀ list, (selfless calls true).block list := fun _ => trivial
  have hkept : ∀ pass ∈ PassId.transforming.drop 4, (selfless calls true).IsKeptBy
      (pass.transform registry) :=
    fun pass hpass => isKeptBy_selfless ((keepsSelf_transform registry pass hpass).onExpr · false)
      fun h => absurd h Bool.true_eq_false.mp
  -- For a pass on expressions the demand asks nothing more than that it is kept.
  have hexpr : ∀ {f}, (selfless calls true).IsKeptBy { expr := f } →
      Transform.Carries { expr := f } (selfless calls true) (selfless calls true) := fun hkept =>
    carries_of_expr hkept fun _ => (isOuter_selfless calls true).met_expr
  rw [PassId.forall_mem_late_iff] at hkept ⊢
  obtain ⟨hstatics, hanonymous, hguards, hnil, hcases, hchecks, hswitches, hbreaks, hlabels, hpure,
    himpure, hmutable, hlibrary⟩ := hkept
  refine ⟨carries_of_stmt hstatics (fun {place s} own => ?_)
      (metParts_hoistStmt (isOuter_selfless calls true).level fun _ => trivial), hexpr hanonymous,
    carries_of_stmt hguards (fun {place s} own => ?_) (metParts_cancelNegation htame),
    carries_of_stmt hnil (fun {place s} own => ?_) (metParts_returnForNil htame), hexpr hcases,
    carries_of_stmt hchecks (fun {place s} own => ?_) (metParts_checkCases htame), ?_,
    carries_of_stmt hbreaks (fun {place s} own => ?_) (metParts_dropBreaks hblock), hexpr hlabels,
    hexpr hpure, hexpr himpure, hexpr hmutable, hexpr hlibrary⟩
  · cases s <;> exact own
  · fun_cases cancelNegation s with
    | case1 => exact fun _ => trivial
    | case2 => exact own
  · fun_cases returnForNil s with
    | case1 => exact fun _ => by simp [Expr.selfUse?]
    | case2 | case3 => exact own
  · cases s <;> exact own
  -- A switch that becomes a value returns what its cases made.
  · refine .of_kept (fun _ => rfl) (fun _ => rfl) hswitches.expr hswitches.stmt
      (fun own parts => .expr own parts) (fun {place s} own parts made hmade => ?_) ?_
      (fun _ _ => trivial)
    · obtain rfl := List.mem_singleton.mp hmade
      refine ⟨?_, metParts_toValue_of selfless_yielded (fun _ => trivial) parts⟩
      show (selfless calls true).stmt place (toValue s)
      fun_cases toValue s with
      | case1 => exact fun _ => trivial
      | case2 | case3 | case4 => exact own
    · exact fun h => met_stmts hblock (metStmt_joinDeclarations (fun _ _ => trivial) h)
  · cases s <;> exact own

/-! ## Functions by their outline -/

/-- A function without its receiver, its default values and its body. -/
abbrev Outline : Type := FunctionHead × List Parameter × Option Span

def outline (head : FunctionHead) (parameters : List Parameter) (span : Option Span) : Outline :=
  ({ head with receiver := none }, parameters.map fun parameter =>
    { parameter with default := none }, span)

def Outline.factory (owner : String) (o : Outline) : Outline :=
  ({ o.1 with name := "invoke", kind := .function, isStatic := true,
              returns := some (owner ++ "?") }, o.2)

/-- That a statement, maybe one outside expressions, in the declaration of a type or of none, is a
function of an outline whose body has a property. -/
def IsFunction (isOuter : Bool) (owner : Option String) (o : Outline) (B : List Stmt → Prop)
    (place : Place) : Stmt → Prop
  | .function head parameters (some body) span =>
    (isOuter = true → place.inExpr = false) ∧ place.owner = owner ∧ outline head parameters span =
      o ∧ B body
  | _ => False

section

variable {isOuter : Bool} {owner : Option String} {o : Outline} {B B' : List Stmt → Prop}
    {place : Place} {s : Stmt}

theorem IsFunction.eq (h : IsFunction isOuter owner o B place s) :
    ∃ head parameters body span, s = .function head parameters (some body) span := by
  unfold IsFunction at h
  split at h
  next => exact ⟨_, _, _, _, rfl⟩
  next => exact h.elim

theorem IsFunction.mono (hB : place.owner = owner → ∀ body, B body → B' body)
    (h : IsFunction isOuter owner o B place s) : IsFunction isOuter owner o B' place s := by
  obtain ⟨head, parameters, body, span, rfl⟩ := h.eq
  exact ⟨h.1, h.2.1, h.2.2.1, hB h.2.1 body h.2.2.2⟩

theorem isFunction_mapParts {φ : Change} :
    IsFunction isOuter owner o B place (s.mapParts φ) ↔
      IsFunction isOuter owner o (fun body => B (φ.body body)) place s := by
  have houtline : ∀ head parameters span, outline head (parameters.map fun parameter =>
      { parameter with default := parameter.default.map φ.value }) span =
        outline head parameters span := by
    intro head parameters span
    simp only [outline, List.map_map, Function.comp_def]
  cases s with
  | function head parameters body span =>
    cases body with
    | none => exact Iff.rfl
    | some body =>
      show _ ∧ _ ∧ outline head (parameters.map _) span = o ∧ _ ↔ _
      rw [houtline]
      exact Iff.rfl
  | _ => exact Iff.rfl

theorem IsFunction.walked {t : Transform} (hbody : ∀ body, B body → B' (t.onStmts owner body))
    (h : IsFunction isOuter owner o B place s) :
    IsFunction isOuter owner o B' place (s.mapParts (t.change place.owner)) :=
  isFunction_mapParts.mpr (h.mono fun howner body hB => howner ▸ hbody body hB)

theorem isFunction_withReceiver (extended : String) :
    IsFunction isOuter owner o B place (withReceiver extended s) ↔ IsFunction isOuter owner
    o B place s := by
  cases s with
  | function head parameters body span => cases body <;> exact Iff.rfl
  | _ => exact Iff.rfl

theorem isFunction_hoistStmt :
    IsFunction isOuter owner o B place (hoistStmt s) ↔ IsFunction isOuter owner o B place s := by
  cases s <;> exact Iff.rfl

theorem isLevel_isFunction : (absent (IsFunction isOuter owner o B)).IsLevel := by
  refine ⟨fun {place s} => not_congr ?_, fun _ => trivial⟩
  fun_cases IsFunction isOuter owner o B place s <;> exact Iff.rfl

theorem isOfDeclarations_isFunction (owner : Option String) (o : Outline) (B : List Stmt → Prop) :
    (absent (IsFunction true owner o B)).IsOfDeclarations where
  expr _ _ _ := trivial
  stmt hplace h := by
    obtain ⟨head, parameters, body, span, rfl⟩ := h.eq
    exact Bool.false_ne_true ((h.1 rfl).symm.trans hplace)
  level := isLevel_isFunction
  other hs h := by
    obtain ⟨head, parameters, body, span, rfl⟩ := h.eq
    exact Bool.false_ne_true hs.symm
  receiver := mt (isFunction_withReceiver _).mpr
  hoist := mt isFunction_hoistStmt.mpr

theorem isKeptBy_isFunction {t : Transform} (hbody : ∀ body, B (t.onStmts owner body) → B body) :
    (absent (IsFunction isOuter owner o B)).IsKeptBy t where
  tame := isMild_of_stmt.tame
  block _ := trivial
  expr _ := trivial
  stmt := mt fun h => (isFunction_mapParts.mp h).mono fun howner body hB => hbody body (howner ▸ hB)

end

/-! ## All passes -/

/-- That in the body of an initializer something is assigned to a property. -/
def Assigns (owner : String) (body : List Stmt) : Prop :=
  ¬unassigning.Met { owner := some owner } (.stmts body)

/-- That a factory can be made of an initializer with a body. -/
def IsEligible (calls : Bool) (owner : String) (body : List Stmt) : Prop :=
  ¬Assigns owner body ∧ (selfless calls false).Met { owner := some owner } (.stmts body)

/-- That the body of a factory makes nothing but what it returns. -/
def IsSettled (calls : Bool) (owner : String) (body : List Stmt) : Prop :=
  (selfless calls true).Met { owner := some owner } (.stmts body)

/-- Nothing more is asked of a body as long as calls are left aside. -/
theorem isEligible_of_not_assigns {owner : String} {body : List Stmt} (h : ¬Assigns owner body) :
    IsEligible false owner body := by
  refine ⟨h, (Demand.met_trivial { owner := some owner } (.stmts body)).transport (r := Eq)
    (fun _ hr => hr ▸ rfl) (fun _ _ => trivial) (fun {_ _ s} _ _ _ => ?_) (fun _ => trivial) rfl⟩
  cases s with
  | returnStmt value => cases value <;> simp
  | _ => simp

theorem changed_transforming (registry : Registry) (file : SourceFile) :
    Pipeline.changed registry PassId.transforming file =
      Pipeline.changed registry (PassId.transforming.drop 4)
        (optionalInitsToFactories.onFile
          (Pipeline.changed registry (PassId.transforming.take 3) file)) := by
  have hpasses : PassId.transforming = PassId.transforming.take 3 ++
      ([.optionalInitsToFactories] ++ PassId.transforming.drop 4) := rfl
  refine (congrArg (Pipeline.changed registry · file) hpasses).trans ?_
  rw [Pipeline.changed_append, Pipeline.changed_append]
  rfl

section

variable (registry : Registry) {file : SourceFile} {calls isOuter : Bool} {owner : String}
  {o : Outline}

theorem assigns_of_onStmts {pass : PassId} (hpass : pass ∈ PassId.transforming.take 4)
    (body : List Stmt)
    (h : Assigns owner ((pass.transform registry).onStmts (some owner) body)) :
    Assigns owner body :=
  mt (carries_unassigning registry pass hpass).met h

theorem isEligible_onStmts {pass : PassId} (hpass : pass ∈ PassId.transforming.take 4)
    (body : List Stmt) (h : IsEligible calls owner body) :
    IsEligible calls owner ((pass.transform registry).onStmts (some owner) body) :=
  ⟨mt (assigns_of_onStmts registry hpass body) h.1,
   (carries_selfless_early registry calls pass hpass).met h.2⟩

theorem isFunction_toFactory (hkind : o.1.kind = .initializer true) {place : Place} {s : Stmt}
    (h : IsFunction true (some owner) o (IsEligible calls owner) place s) :
    IsFunction true (some owner) (o.factory owner) (IsSettled calls owner) place
    (toFactory place.owner s) := by
  obtain ⟨head, parameters, body, span, rfl⟩ := h.eq
  obtain ⟨hplace, howner, rfl, hassigns, hselfless⟩ := h
  have hhead : head.kind = .initializer true := hkind
  have hbody := (carries_returningSelf_selfless owner calls false true).met hselfless
  rw [Transform.onFragment_congr (fun _ _ _ => rfl) {} _ _ none] at hbody
  simp only [howner, toFactory, hhead, ofStmts_eq_nil_of_unassigning (not_not.mp hassigns),
    List.isEmpty_nil, if_true]
  exact ⟨hplace, howner, rfl, hbody⟩

theorem isFunction_of_toFactory (hkind : o.1.kind = .initializer true) {place : Place} {s : Stmt}
    (h : IsFunction isOuter (some owner) o (fun _ => True) place (toFactory place.owner s)) :
    IsFunction isOuter (some owner) o (Assigns owner) place s := by
  by_cases hconvertible : isConvertible place.owner s = true
  · -- What is converted is no initializer any more.
    unfold isConvertible at hconvertible
    split at hconvertible
    next head parameters body span =>
      simp only [Bool.and_eq_true, Option.isSome_iff_exists, beq_iff_eq] at hconvertible
      obtain ⟨⟨⟨name, howner⟩, hhead⟩, hassigns⟩ := hconvertible
      simp only [howner, toFactory, hhead, hassigns, if_true] at h
      exact absurd ((congrArg (·.1.kind) h.2.2.1).trans hkind) FunctionKind.noConfusion
    next => exact absurd hconvertible Bool.false_ne_true
  · rw [toFactory_of_not_convertible (Bool.not_eq_true _ ▸ hconvertible)] at h
    obtain ⟨head, parameters, body, span, rfl⟩ := h.eq
    obtain ⟨hplace, howner, rfl, -⟩ := h
    have hhead : head.kind = .initializer true := hkind
    refine ⟨hplace, howner, rfl, fun hbody => hconvertible ?_⟩
    simp [isConvertible, howner, hhead, ofStmts_eq_nil_of_unassigning hbody]

variable (isOuter owner o) in
theorem isKeptBy_assigns : ∀ pass ∈ PassId.transforming.take 4,
    (absent (IsFunction isOuter (some owner) o (Assigns owner))).IsKeptBy
    (pass.transform registry) :=
  fun _ hpass => isKeptBy_isFunction (assigns_of_onStmts registry hpass)

theorem carries_assigns : ∀ pass ∈ PassId.transforming.take 3, (pass.transform registry).Carries
    (absent (IsFunction isOuter (some owner) o (Assigns owner)))
    (absent (IsFunction isOuter (some owner) o (Assigns owner))) := by
  have hkept := isKeptBy_assigns registry isOuter owner o
  rw [PassId.forall_mem_early_iff] at hkept
  obtain ⟨hparentheses, hdefers, hextensions, -⟩ := hkept
  change ∀ pass ∈ [PassId.removeParentheses, .defersToFinally, .removeExtensions], _
  simp only [List.forall_mem_cons]
  refine ⟨carries_removeParentheses_of hparentheses fun {place s} own => ?_,
    carries_defersToFinally_of hdefers isLevel_isFunction id,
    carries_removeExtensions_of hextensions isLevel_isFunction (mt (isFunction_withReceiver _).mp),
    nofun⟩
  cases s <;> exact own

theorem isNameless_isFunction :
    (absent (IsFunction isOuter (some owner) o fun _ => True)).IsNameless where
  mild := isMild_of_stmt
  shallow := ⟨fun _ _ => trivial, fun _ => mt isFunction_mapParts.mp⟩
  block _ := trivial
  counterpart _ := trivial
  stmt hs h := by
    obtain ⟨head, parameters, body, span, rfl⟩ := h.eq
    exact Bool.false_ne_true hs.symm
  name := trivial
  bare_expr _ _ := trivial
  bare_stmt _ h := h

theorem carries_optionalInitsToFactories_assigns (hkind : o.1.kind = .initializer true) :
    optionalInitsToFactories.Carries (absent (IsFunction isOuter (some owner) o (Assigns owner)))
      (absent (IsFunction isOuter (some owner) o fun _ => True)) := by
  have hkept := isKeptBy_assigns .empty isOuter owner o .optionalInitsToFactories (by decide)
  have hd : (absent (IsFunction isOuter (some owner) o fun _ => True)).IsNameless :=
    isNameless_isFunction
  refine .of_kept (fun _ => rfl) (fun _ => rfl) hkept.expr hkept.stmt
    (fun own parts => .expr own parts)
    (fun {place s} own parts made hmade => ?_) (met_stmts hd.block) (fun _ _ => trivial)
  obtain rfl := List.mem_singleton.mp hmade
  refine ⟨mt (isFunction_of_toFactory hkind) own,
    metParts_toFactory (fun {name body} hbody => ?_) parts⟩
  have hmade := (carries_returningSelf_of hd.toIsLoose (hd.stmt rfl) name).met hbody
  rw [Transform.onFragment_congr (fun _ _ _ => rfl) {} _ _ none] at hmade
  exact hmade

/-- An initializer that is there in the end assigned to a property. -/
theorem metFile_initializer (hkind : o.1.kind = .initializer true)
    (h : (absent (IsFunction isOuter (some owner) o (Assigns owner))).MetFile file) :
    (absent (IsFunction isOuter (some owner) o fun _ => True)).MetFile
      (Pipeline.changed registry PassId.transforming file) := by
  have hd : (absent (IsFunction isOuter (some owner) o fun _ => True)).IsNameless :=
    isNameless_isFunction
  have hstatics : staticMembersToCompanion.Carries _ _ :=
    carries_of_stmt (hd.isKeptBy _) (mt isFunction_hoistStmt.mp)
      (metParts_hoistStmt isLevel_isFunction (hd.stmt rfl))
  have hlate : ∀ pass ∈ PassId.transforming.drop 4, (pass.transform registry).Carries _ _ :=
    List.forall_mem_cons.mpr ⟨hstatics, carries_of_isNameless hd registry⟩
  rw [changed_transforming]
  exact Pipeline.metFile_changed hlate ((carries_optionalInitsToFactories_assigns hkind).metFile
    (Pipeline.metFile_changed (carries_assigns registry) h))

theorem metFile_of_factory (hkind : o.1.kind = .initializer true)
    (h : (absent (IsFunction true (some owner) (o.factory owner) (IsSettled calls owner))).MetFile
      (Pipeline.changed registry PassId.transforming file)) :
    (absent (IsFunction true (some owner) o (IsEligible calls owner))).MetFile file := by
  have hd := isOfDeclarations_isFunction (some owner) o (IsEligible calls owner)
  have hd' := isOfDeclarations_isFunction (some owner) (o.factory owner) (IsSettled calls owner)
  rw [changed_transforming] at h
  -- Backwards through the passes: the late ones keep a factory as it is,
  have hlate := Pipeline.metFile_of_changed hd'.level.block
    (reflects_late hd' registry fun pass hpass =>
      ⟨fun _ => trivial, mt (IsFunction.walked fun body =>
      (carries_selfless_late registry calls pass hpass).met)⟩) h
  -- the pass on initializers makes one of what is eligible,
  have hreturning : ∀ name, (returningSelf name).Reflects _ _ _ := fun name =>
    reflects_returningSelf hd'.isSparse ⟨fun _ => trivial, mt (IsFunction.walked fun body =>
      (carries_returningSelf_selfless name calls true true).met)⟩ fun _ _ => trivial
  have heligible : ∀ {place pass}, pass ∈ PassId.transforming.take 4 → ∀ {s},
      ¬IsFunction true (some owner) o (IsEligible calls owner) place
        (s.mapParts ((pass.transform registry).change place.owner)) →
      ¬IsFunction true (some owner) o (IsEligible calls owner) place s :=
    fun hpass => mt (IsFunction.walked (isEligible_onStmts registry hpass))
  have hfactories : optionalInitsToFactories.Reflects
      (absent (IsFunction true (some owner) o (IsEligible calls owner)))
      (absent (IsFunction true (some owner) o (IsEligible calls owner))) _ :=
    reflects_optionalInitsToFactories hd'.level.block hreturning (fun _ => trivial)
      (fun _ => trivial)
      (heligible (by decide : PassId.optionalInitsToFactories ∈ _))
        (mt (isFunction_toFactory hkind))
  -- and the early ones keep what is eligible.
  have hearly := hfactories.metFile hd.level.block hd'.level.block hlate
  exact Pipeline.metFile_of_changed hd.level.block (reflects_early hd.isSparse registry
    fun pass hpass =>
    ⟨fun _ => trivial, heligible (List.take_subset_take_left _ (by decide) hpass)⟩) hearly

theorem metFile_of_outside
    (h : (absent (IsFunction true none o fun _ => True)).MetFile
      (Pipeline.changed registry PassId.transforming file)) :
    (absent (IsFunction true none o fun _ => True)).MetFile file := by
  have hd := isOfDeclarations_isFunction none o fun _ => True
  have hshows : ∀ t : Transform, t.Shows (absent (IsFunction true none o fun _ => True)) :=
    fun t => ⟨fun _ => trivial, mt (IsFunction.walked fun _ => id)⟩
  refine Pipeline.metFile_of_changed hd.level.block (reflects_transform hd registry
    (fun _ _ => hshows _) (fun _ => hshows _) fun {place s} => mt fun hs => ?_) h
  obtain ⟨head, parameters, body, span, rfl⟩ := hs.eq
  rw [hs.2.1]
  exact hs

end

end Pass

/-- That a file declares a function of an outline, in a type or outside all types, and maybe outside
all expressions, whose body has a property. -/
def SourceFile.Declares (file : SourceFile) (isOuter : Bool) (owner : Option String)
    (o : Pass.Outline) (B : List Stmt → Prop) : Prop :=
  ∃ place s, file.Has place s ∧ Pass.IsFunction isOuter owner o B place s

namespace Pass

/-- What becomes of failable initializers. In a type each one that assigns to no property becomes a
factory, in which nothing is assigned to `self` and, if it was eligible, `self.init` is not called;
and one that is left, in closures too, has assigned to a property. Outside types, as in extensions,
they are all left. -/
theorem initializers_finished (registry : Registry) (file : SourceFile) (o : Outline)
    (hkind : o.1.kind = .initializer true) :
    let final := Stage.lastFile file (Pipeline.transform [] registry file)
    (∀ owner, file.Declares true (some owner) o (fun body => ¬Assigns owner body) →
      final.Declares true (some owner) (o.factory owner) (IsSettled false owner)) ∧
    (∀ owner, file.Declares true (some owner) o (IsEligible true owner) →
      final.Declares true (some owner) (o.factory owner) (IsSettled true owner)) ∧
    (∀ isOuter owner, final.Declares isOuter (some owner) o (fun _ => True) →
      file.Declares isOuter (some owner) o (Assigns owner)) ∧
    (file.Declares true none o (fun _ => True) → final.Declares true none o fun _ => True) := by
  intro final
  have hfinal : final = Pipeline.changed registry PassId.transforming file := by
    show Stage.lastFile file (Pipeline.transform [] registry file) = _
    rw [Pipeline.transform_eq, Pipeline.lastFile_transformFrom]
  rw [hfinal]
  have hfactory : ∀ {calls owner}, file.Declares true (some owner) o (IsEligible calls owner) →
      (Pipeline.changed registry PassId.transforming file).Declares true (some owner)
        (o.factory owner) (IsSettled calls owner) := fun h =>
    not_metFile_absent_iff.mp (mt (metFile_of_factory registry hkind)
      (not_metFile_absent_iff.mpr h))
  refine ⟨fun owner ⟨place, s, hs, h⟩ => ?_, fun _ => hfactory, fun isOuter owner h =>
    ?_, fun h => ?_⟩
  · exact hfactory ⟨place, s, hs, h.mono fun _ _ => isEligible_of_not_assigns⟩
  · exact not_metFile_absent_iff.mp (mt (metFile_initializer registry hkind)
      (not_metFile_absent_iff.mpr h))
  · exact not_metFile_absent_iff.mp (mt (metFile_of_outside registry)
      (not_metFile_absent_iff.mpr h))

/-- A class with a failable initializer, and one more in an extension. -/
def pointFile : SourceFile where
  path := "point"
  declarations :=
    [.classDecl { name := "Point" } false
      [.function { name := "init", kind := .initializer true } [] (some
        [.expression (.call (.member (.name "self" false false {}) "init" false none {})
          (.tuple [] {}) false false {}) none]) none] none,
    .extensionDecl "Point" [] [.function { name := "init", kind := .initializer true } []
      (some [.assign (.name "self" false false {})
        (.call (.typeName "Point" {}) (.tuple [] {}) false false {}) none]) none] none]

/-- The first becomes a factory, the second does not. -/
theorem initializers_finished_pointFile :
    let o : Outline := ({ name := "init", kind := .initializer true }, [], none)
    let final := Stage.lastFile pointFile (Pipeline.transform [] .empty pointFile)
    final.Declares true (some "Point") (o.factory "Point") (IsSettled true "Point") ∧
      final.Declares true none o fun _ => True := by
  intro o final
  obtain ⟨-, hclass, -, hextension⟩ := initializers_finished .empty pointFile o rfl
  refine ⟨hclass "Point" ⟨_, _, .inStmt (.head _) (.head _) (.here (.head _)), fun _ =>
      rfl, rfl, rfl, ?_, ?_⟩,
    hextension ⟨_, _, .inStmt (.tail _ (.head _)) (.head _) (.here (.head _)), fun _ =>
      rfl, rfl, rfl, trivial⟩⟩
  · simp [Assigns, Demand.met_stmts_iff, Demand.met_expr_iff, Demand.MetStmt,
      Demand.MetParts, Stmt.parts, Expr.parts, Part.value, unassigning]
  · exact Demand.met_stmts_iff.mpr ⟨List.forall_mem_singleton.mpr ⟨fun _ _ _ => ⟨rfl, by decide⟩,
      Demand.metParts_singleton.mpr (isOuter_selfless true false).met_expr⟩, trivial⟩

end Pass

end Ferry
