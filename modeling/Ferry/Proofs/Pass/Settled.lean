/-
  Ferry.Proofs.Pass.Settled

  Passes over statements and members that leave nothing to do.  For each a demand says what its
  results are like: nothing in parentheses that need not be, no block deferred, no extension, no
  static member outside a companion, no failable initializer that could be a factory.  The pass
  makes such results out of any file and leaves them alone, so a second run changes nothing
  (`Transform.onFile_onFile`).
-/
import Ferry.Proofs.Pass.Parts
import Ferry.Proofs.Traverse.Reach

namespace Ferry

namespace Pass

theorem isMild_of_stmt {stmt : Place → Stmt → Prop} {block : List Stmt → Prop} :
    Demand.IsMild { stmt, block } where
  steady := ⟨Iff.rfl⟩
  expr _ := trivial

/-- A pass that changes one statement into one, and puts nothing anew into its parts. -/
theorem onFile_onFile_of_stmt {f : Stmt → Stmt} (hf : ∀ s, f (f s) = f s)
    (hparts : ∀ {d : Demand} {place : Place}, d.IsMild → ∀ {s}, d.MetParts place s.parts →
      d.MetParts place (f s).parts) (file : SourceFile) :
    let t : Transform := { stmt := fun _ s => [f s] }
    t.onFile (t.onFile file) = t.onFile file := by
  intro t
  let d : Demand := { stmt := fun _ s => f s = s }
  have hmild : d.IsMild := isMild_of_stmt
  have hcarries : t.Carries {} d := by
    refine .of_nodes (.expr trivial) ?_
    intro place s parts made hmade
    obtain rfl := List.mem_singleton.mp hmade
    exact ⟨hf s, hparts hmild parts⟩
  have hsettles : t.Settles d :=
    ⟨fun _ => rfl, fun h => congrArg (fun s => [s]) h, fun _ _ => rfl⟩
  exact Transform.onFile_onFile hcarries hsettles file

/-- A pass that changes one expression into one with the same parts. -/
theorem onFile_onFile_of_expr {f : Expr → Expr} (hf : ∀ e, f (f e) = f e)
    (hparts : ∀ e, (f e).parts = e.parts) (file : SourceFile) :
    let t : Transform := { expr := fun _ e => f e }
    t.onFile (t.onFile file) = t.onFile file := by
  intro t
  let d : Demand := { expr := fun _ _ e => f e = e }
  have hcarries : t.Carries {} d := by
    refine .of_nodes ?_ ?_
    · intro place called e parts
      refine .expr (hf e) ?_
      rw [hparts]
      exact parts
    · intro place s parts made hmade
      obtain rfl := List.mem_singleton.mp hmade
      exact ⟨trivial, parts⟩
  have hsettles : t.Settles d := ⟨fun h => h, fun _ => rfl, fun _ _ => rfl⟩
  exact Transform.onFile_onFile hcarries hsettles file

/-! ## Parentheses -/

theorem unwrapExpr_tuple (elements : List Argument) (info : Info) :
    unwrapExpr (unwrapExpr (.tuple elements info)) = unwrapExpr (.tuple elements info) := by
  simp only [unwrapExpr, List.map_map]
  refine congrArg (Expr.tuple · info) (List.map_congr_left fun argument _ => ?_)
  simp only [Function.comp_apply, Expr.unparenthesized_unparenthesized]

theorem unwrapExpr_shuffle (slots : List Slot) (info : Info) :
    unwrapExpr (unwrapExpr (.shuffle slots info)) = unwrapExpr (.shuffle slots info) := by
  simp only [unwrapExpr, List.map_map]
  refine congrArg (Expr.shuffle · info) (List.map_congr_left fun slot _ => ?_)
  rw [Function.comp_apply, Slot.mapValues_mapValues]
  exact Slot.mapValues_congr fun e _ => e.unparenthesized_unparenthesized

theorem unwrapStmt_unwrapStmt (s : Stmt) : unwrapStmt (unwrapStmt s) = unwrapStmt s := by
  have hcondition : unwrapCondition ∘ unwrapCondition = unwrapCondition := by
    funext condition
    cases condition with
    | test e => exact congrArg Condition.test e.unparenthesized_unparenthesized
    | binding item => rfl
  cases s with
  | ifStmt conditions body otherwise isGuard span =>
    simp only [unwrapStmt, List.map_map, hcondition]
  | returnStmt value span =>
    cases value <;> simp [unwrapStmt, Expr.unparenthesized_unparenthesized]
  | _ => simp only [unwrapStmt, Expr.unparenthesized_unparenthesized]

/-- Nothing is in parentheses that need not be. -/
def unwrapped : Demand where
  expr _ _ e := unwrapExpr e = e
  stmt _ s := unwrapStmt s = s

theorem isSteady_unwrapped : unwrapped.IsSteady := ⟨Iff.rfl⟩

theorem met_unwrapExpr {place : Place} {called : Bool} {e : Expr}
    (h : unwrapped.MetParts place e.parts) : unwrapped.Met place (.expr called (unwrapExpr e)) := by
  have hparts := metParts_unwrapExpr isSteady_unwrapped h
  cases e with
  | paren inner info =>
    have hinner := Demand.metParts_singleton.mp h
    rw [unwrapExpr] at hparts ⊢
    split at hparts
    -- The inner expression takes the place of the outer one, and it was settled as a part.
    next hatomic =>
      rw [if_pos hatomic]
      exact isSteady_unwrapped.met_iff.mp hinner
    next hatomic =>
      rw [if_neg hatomic]
      exact .expr (if_neg hatomic) hparts
  | tuple elements info => exact .expr (unwrapExpr_tuple elements info) hparts
  | shuffle slots info => exact .expr (unwrapExpr_shuffle slots info) hparts
  | _ => exact .expr rfl hparts

theorem carries_unwrapped : removeParentheses.Carries {} unwrapped := by
  refine .of_nodes met_unwrapExpr ?_
  intro place s parts made hmade
  obtain rfl := List.mem_singleton.mp hmade
  exact ⟨unwrapStmt_unwrapStmt s, metParts_unwrapStmt isSteady_unwrapped parts⟩

theorem onFile_onFile_removeParentheses (file : SourceFile) :
    removeParentheses.onFile (removeParentheses.onFile file) = removeParentheses.onFile file := by
  have hsettles : removeParentheses.Settles unwrapped :=
    ⟨fun h => h, fun h => congrArg (fun s => [s]) h, fun _ _ => rfl⟩
  exact Transform.onFile_onFile carries_unwrapped hsettles file

/-! ## Lists of statements -/

def undeferred : Demand where
  stmt _ s := ∀ body span, s ≠ .deferBlock body span

theorem isLevel_undeferred : undeferred.IsLevel := ⟨Iff.rfl, fun _ => trivial⟩

theorem wrapDefers_of_undeferred {list : List Stmt}
    (h : ∀ s ∈ list, ∀ body span, s ≠ Stmt.deferBlock body span) : wrapDefers list = list := by
  fun_induction wrapDefers list with
  | case1 => rfl
  | case2 body span | case3 body span => exact absurd rfl (h _ List.mem_cons_self body span)
  | case4 s rest _ ih => rw [ih fun s hs => h s (List.mem_cons_of_mem _ hs)]

theorem carries_undeferred : defersToFinally.Carries {} undeferred := by
  refine .of_block (fun _ => rfl) (fun _ => rfl) (fun _ _ => rfl) (fun _ _ => rfl)
    Demand.isShallow_trivial (fun _ => trivial) ?_ (fun _ _ => trivial)
  intro place list hlist
  refine Demand.met_stmts_iff.mpr ⟨?_, trivial⟩
  exact metStmt_wrapDefers isLevel_undeferred (fun _ _ => Stmt.noConfusion) (fun s _ hs => hs)
    fun s hs => (hlist s hs).2

theorem onFile_onFile_defersToFinally (file : SourceFile) :
    defersToFinally.onFile (defersToFinally.onFile file) = defersToFinally.onFile file := by
  have hsettles : defersToFinally.Settles undeferred :=
    ⟨fun _ => rfl, fun _ => rfl, fun h _ => wrapDefers_of_undeferred h⟩
  exact Transform.onFile_onFile carries_undeferred hsettles file

def unextended : Demand where
  stmt _ s := ∀ extended inherits members span, s ≠ .extensionDecl extended inherits members span

theorem isLevel_unextended : unextended.IsLevel := ⟨Iff.rfl, fun _ => trivial⟩

theorem unextended_withReceiver {place : Place} {extended : String} {s : Stmt}
    (h : unextended.stmt place s) : unextended.stmt place (withReceiver extended s) := by
  fun_cases withReceiver extended s with
  | case1 | case2 => exact fun _ _ _ _ => Stmt.noConfusion
  | case3 => exact h

theorem spreadExtension_of_unextended {place : Place} {s : Stmt} (h : unextended.stmt place s) :
    spreadExtension s = [s] := by
  fun_cases spreadExtension s with
  | case1 extended inherits members span => exact absurd rfl (h extended inherits members span)
  | case2 => rfl

theorem carries_unextended : removeExtensions.Carries {} unextended := by
  refine .of_nodes (.expr trivial) ?_
  intro place s parts
  exact metStmt_spreadExtension isLevel_unextended unextended_withReceiver (fun hs => hs) parts

theorem onFile_onFile_removeExtensions (file : SourceFile) :
    removeExtensions.onFile (removeExtensions.onFile file) = removeExtensions.onFile file := by
  have hsettles : removeExtensions.Settles unextended :=
    ⟨fun _ => rfl, spreadExtension_of_unextended, fun _ _ => rfl⟩
  exact Transform.onFile_onFile carries_unextended hsettles file

def typeMembers : Stmt → List Stmt
  | .classDecl _ _ members _ | .structDecl _ members _ | .enumDecl _ _ _ members _ => members
  | _ => []

/-- No type has static members outside its companion. -/
def hoisted : Demand where
  stmt _ s := ∀ member ∈ typeMembers s, member.isStatic = false

theorem isLevel_hoisted : hoisted.IsLevel := ⟨Iff.rfl, fun _ => trivial⟩

theorem isStatic_of_mem_hoistStatics {members : List Stmt} {s : Stmt}
    (h : s ∈ hoistStatics members) : s.isStatic = false := by
  obtain ⟨-, hs⟩ | ⟨kept, span, rfl, -⟩ := mem_hoistStatics h
  · exact hs
  · rfl

theorem hoisted_hoistStmt (place : Place) (s : Stmt) : hoisted.stmt place (hoistStmt s) := by
  fun_cases hoistStmt s with
  | case1 | case2 | case3 => exact fun member => isStatic_of_mem_hoistStatics
  | case4 s hclass hstruct henum =>
    cases s with
    | classDecl head isFinal members span => exact absurd rfl (hclass head isFinal members span)
    | structDecl head members span => exact absurd rfl (hstruct head members span)
    | enumDecl head kind elements members span =>
      exact absurd rfl (henum head kind elements members span)
    | _ => exact fun member hmember => absurd hmember List.not_mem_nil

theorem hoistStatics_of_not_static {members : List Stmt}
    (h : ∀ member ∈ members, member.isStatic = false) : hoistStatics members = members := by
  have hstatics : members.filter Stmt.isStatic = [] :=
    List.filter_eq_nil_iff.mpr fun member hmember => by simp [h member hmember]
  have hrest : members.filter (!·.isStatic) = members :=
    List.filter_eq_self.mpr fun member hmember => by rw [h member hmember]; rfl
  unfold hoistStatics
  dsimp only
  rw [hstatics, hrest]
  rfl

theorem hoistStmt_of_hoisted {place : Place} {s : Stmt} (h : hoisted.stmt place s) :
    hoistStmt s = s := by
  fun_cases hoistStmt s with
  | case1 head isFinal members span =>
    exact congrArg (Stmt.classDecl head isFinal · span) (hoistStatics_of_not_static h)
  | case2 head members span =>
    exact congrArg (Stmt.structDecl head · span) (hoistStatics_of_not_static h)
  | case3 head kind elements members span =>
    exact congrArg (Stmt.enumDecl head kind elements · span) (hoistStatics_of_not_static h)
  | case4 => rfl

theorem carries_hoisted : staticMembersToCompanion.Carries {} hoisted := by
  refine .of_nodes (.expr trivial) ?_
  intro place s parts made hmade
  obtain rfl := List.mem_singleton.mp hmade
  refine ⟨hoisted_hoistStmt place s, metParts_hoistStmt isLevel_hoisted ?_ parts⟩
  exact fun member hmember => absurd hmember List.not_mem_nil

theorem onFile_onFile_staticMembersToCompanion (file : SourceFile) :
    staticMembersToCompanion.onFile (staticMembersToCompanion.onFile file) =
      staticMembersToCompanion.onFile file := by
  have hsettles : staticMembersToCompanion.Settles hoisted :=
    ⟨fun _ => rfl, fun h => congrArg (fun s => [s]) (hoistStmt_of_hoisted h), fun _ _ => rfl⟩
  exact Transform.onFile_onFile carries_hoisted hsettles file

/-! ## Initializers -/

/-- Whether a statement is a failable initializer that can be turned into a factory. -/
def isConvertible (owner : Option String) : Stmt → Bool
  | .function head _ (some body) _ =>
    owner.isSome && head.kind == .initializer true && (propertyAssignments.ofStmts body).isEmpty
  | _ => false

/-- No failable initializer is left that can be turned into a factory. -/
def converted : Demand where
  stmt place s := isConvertible place.owner s = false

theorem isMild_converted : converted.IsMild := isMild_of_stmt

theorem toFactory_of_not_convertible {owner : Option String} {s : Stmt}
    (h : isConvertible owner s = false) : toFactory owner s = s := by
  fun_cases toFactory owner s with
  | case1 head parameters body span owner hkind hassigns =>
    simp [isConvertible, hkind, hassigns] at h
  | _ => rfl

theorem isConvertible_toFactory (owner : Option String) (s : Stmt) :
    isConvertible owner (toFactory owner s) = false := by
  fun_cases toFactory owner s with
  | case1 => simp [isConvertible]
  | case2 head parameters body span owner hkind hassigns => simp [isConvertible, hassigns]
  | case3 owner head parameters body span hother =>
    cases owner with
    | none => rfl
    | some owner => simp [isConvertible, mt (hother owner rfl) not_false]
  | case4 owner s hs =>
    fun_cases isConvertible owner s with
    | case1 head parameters body span => exact absurd rfl (hs head parameters body span)
    | case2 => rfl

theorem ofExpr_propertyAssignments_of_isSelf {e : Expr} (h : isSelf e = true) :
    propertyAssignments.ofExpr e = [] := by
  rw [isSelf, Expr.referencedName?] at h
  fun_induction Expr.unparenthesized e with
  | case1 inner info ih => exact (List.append_nil _).trans (ih h)
  | case2 e he =>
    cases e with
    | name => rfl
    | _ => simp at h

theorem ofExpr_propertyAssignments_of_isSelfInit {callee : Expr} (h : isSelfInit callee = true) :
    propertyAssignments.ofExpr callee = [] := by
  unfold isSelfInit at h
  split at h
  next base n isLibrary style info =>
    have hbase : isSelf base = true := (Bool.and_eq_true_iff.mp h).2
    exact (List.append_nil _).trans (ofExpr_propertyAssignments_of_isSelf hbase)
  next => exact absurd h Bool.false_ne_true

/-- That nothing is assigned to a property, at a statement or below it. -/
def AssignsNothing (s : Stmt) : Prop :=
  propertyAssignments.before s = [] ∧ ∀ part ∈ s.parts, propertyAssignments.ofFragment part.2 = []

theorem ofStmts_propertyAssignments_eq_nil_iff {list : List Stmt} :
    propertyAssignments.ofStmts list = [] ↔ ∀ s ∈ list, AssignsNothing s := by
  rw [Survey.ofStmts_eq_nil_iff]
  exact forall₂_congr fun s _ => and_congr_right fun _ => and_iff_left rfl

theorem assignsNothing_assign_of_isSelf {lhs rhs : Expr} {span : Option Span}
    (h : isSelf lhs = true) :
    AssignsNothing (.assign lhs rhs span) ↔ propertyAssignments.ofExpr rhs = [] := by
  have hbefore : propertyAssignments.before (.assign lhs rhs span) = [] := by
    have hname := h
    rw [isSelf, Expr.referencedName?] at hname
    split at hname
    next heq => simp only [propertyAssignments, heq]
    next => exact absurd hname Bool.false_ne_true
  simp [AssignsNothing, Stmt.parts, hbefore, ofExpr_propertyAssignments_of_isSelf h]

section

variable (name : String)

theorem change_returningSelf_value (owner : Option String) (e : Expr) :
    ((returningSelf name).change owner).value e = e := by
  show (returningSelf name).onExpr owner false e = e
  rw [Transform.onExpr_eq_mapParts]
  rfl

theorem assignsNothing_returnSelf (s : Stmt) :
    AssignsNothing (returnSelf name s) ↔ AssignsNothing s := by
  fun_cases returnSelf name s with
  | case1 lhs rhs span hself =>
    rw [assignsNothing_assign_of_isSelf hself]
    refine (and_iff_right rfl).trans ?_
    simp [Stmt.parts]
  | case3 callee arguments hasTrailing isPure info span hself =>
    have hcallee := ofExpr_propertyAssignments_of_isSelfInit hself
    refine and_congr_right fun _ => ?_
    simp only [Stmt.parts, Option.toList_some, List.map_singleton, List.forall_mem_singleton,
      Survey.ofFragment_value]
    show _ ++ _ ++ [] = [] ↔ _ ++ _ ++ [] = []
    rw [hcallee]
    rfl
  | _ => exact Iff.rfl

theorem ofFragment_returningSelf (owner : Option String) (place : Place) (fragment : Fragment) :
    propertyAssignments.ofFragment ((returningSelf name).onFragment owner fragment) = [] ↔
      propertyAssignments.ofFragment fragment = [] := by
  induction place, fragment using Fragment.induction generalizing owner with
  | expr place called e ih =>
    rw [Transform.onFragment, Transform.onExpr_eq_mapParts]
    exact Iff.rfl
  | stmts place list ih =>
    -- An assignment to a property is left as it is; only values and bodies can be walked.
    have hstmt : ∀ s ∈ list,
        AssignsNothing (s.mapParts ((returningSelf name).change owner)) ↔ AssignsNothing s := by
      intro s hs
      refine and_congr ?_ ?_
      · cases s with
        | assign lhs rhs span =>
          rw [Stmt.mapParts, change_returningSelf_value, change_returningSelf_value]
        | _ => exact Iff.rfl
      · rw [Stmt.parts_mapParts, List.forall_mem_map]
        refine forall₂_congr fun part hpart => ?_
        rw [Transform.onPart_change]
        exact ih s hs part hpart _
    rw [Transform.onFragment, Transform.onStmts_eq, Survey.ofFragment_stmts,
      Survey.ofFragment_stmts, ofStmts_propertyAssignments_eq_nil_iff,
      ofStmts_propertyAssignments_eq_nil_iff]
    refine List.forall_mem_flatMap.trans (forall₂_congr fun s hs => ?_)
    refine List.forall_mem_singleton.trans ?_
    rw [assignsNothing_returnSelf, Transform.onStmt_eq]
    exact hstmt s hs

theorem isConvertible_returnSelf (owner : Option String) (s : Stmt) :
    isConvertible owner (returnSelf name s) = isConvertible owner s := by
  fun_cases returnSelf name s <;> rfl

theorem isConvertible_mapParts (owner within : Option String) (s : Stmt) :
    isConvertible owner (s.mapParts ((returningSelf name).change within)) =
      isConvertible owner s := by
  cases s with
  | function head parameters body span =>
    cases body with
    | none => rfl
    | some body =>
      have hbody : propertyAssignments.ofStmts ((returningSelf name).onStmts within body) = [] ↔
          propertyAssignments.ofStmts body = [] :=
        ofFragment_returningSelf name within {} (.stmts body)
      refine congrArg (fun isEmpty => owner.isSome && head.kind == .initializer true && isEmpty) ?_
      rw [Bool.eq_iff_iff, List.isEmpty_iff, List.isEmpty_iff]
      exact hbody
  | _ => rfl

theorem carries_returningSelf_converted : (returningSelf name).Carries converted converted := by
  refine .of_stmt converted.stmt (fun _ => rfl) (fun henters => absurd henters Bool.false_ne_true)
    (fun _ h => h) ?_ (fun h => Demand.met_stmts_iff.mpr ⟨h, trivial⟩) (fun _ _ => trivial)
  intro place s own parts made hmade
  obtain rfl := List.mem_singleton.mp hmade
  refine ⟨?_, metParts_returnSelf isMild_converted parts⟩
  show isConvertible place.owner (returnSelf name _) = false
  rw [isConvertible_returnSelf, isConvertible_mapParts]
  exact own

end

theorem onFile_onFile_optionalInitsToFactories (file : SourceFile) :
    optionalInitsToFactories.onFile (optionalInitsToFactories.onFile file) =
      optionalInitsToFactories.onFile file := by
  have hcarries : optionalInitsToFactories.Carries {} converted := by
    refine .of_nodes (.expr trivial) ?_
    intro place s parts made hmade
    obtain rfl := List.mem_singleton.mp hmade
    refine ⟨isConvertible_toFactory place.owner s, metParts_toFactory ?_ parts⟩
    intro owner body hbody
    have hmade := (carries_returningSelf_converted owner).met hbody
    rw [Transform.onFragment_congr (fun _ _ _ => rfl) {} _ _ none] at hmade
    exact hmade
  have hsettles : optionalInitsToFactories.Settles converted :=
    ⟨fun _ => rfl, fun h => congrArg (fun s => [s]) (toFactory_of_not_convertible h),
      fun _ _ => rfl⟩
  exact Transform.onFile_onFile hcarries hsettles file

end Pass

end Ferry
