/-
  Ferry.Proofs.Pass.Parts

  What the passes do to the parts of a node.  Most of them move parts about, put one in the place of
  the expression around it or set up a node with the parts of another; what holds all over the parts
  of a node still holds all over the parts of what is made of it.
-/
import Ferry.Pass.ClosureParameter
import Ferry.Pass.Defer
import Ferry.Pass.EnumCase
import Ferry.Pass.Guard
import Ferry.Pass.Member
import Ferry.Pass.Parentheses
import Ferry.Pass.SwitchValue
import Ferry.Proofs.Traverse.Demand

namespace Ferry

variable {d : Demand} {place : Place}

namespace Demand

theorem metParts_append {parts more : List Part} :
    d.MetParts place (parts ++ more) ↔ d.MetParts place parts ∧ d.MetParts place more :=
  List.forall_mem_append

theorem metParts_cons {part : Part} {parts : List Part} :
    d.MetParts place (part :: parts) ↔ d.Met (place.step part.1) part.2 ∧ d.MetParts place parts :=
  List.forall_mem_cons

theorem metParts_nil : d.MetParts place [] := fun _ h => absurd h List.not_mem_nil

theorem metParts_singleton {part : Part} :
    d.MetParts place [part] ↔ d.Met (place.step part.1) part.2 := by
  rw [metParts_cons, and_iff_left metParts_nil]

theorem metParts_map {α : Type} {f : α → Part} {list : List α} :
    d.MetParts place (list.map f) ↔ ∀ a ∈ list, d.Met (place.step (f a).1) (f a).2 :=
  List.forall_mem_map

theorem metParts_flatMap {α : Type} {f : α → List Part} {list : List α} :
    d.MetParts place (list.flatMap f) ↔ ∀ a ∈ list, d.MetParts place (f a) :=
  List.forall_mem_flatMap

theorem IsSteady.met_unparenthesized (hd : d.IsSteady) {called called' : Bool} {e : Expr}
    (h : d.Met place (.expr called e)) : d.Met place (.expr called' e.unparenthesized) := by
  fun_induction Expr.unparenthesized e generalizing called with
  | case1 inner info ih =>
    have hoperand := metParts_singleton.mp (met_expr_iff.mp h).2
    have hinner : d.Met place (.expr called inner) := hd.met_iff.mp hoperand
    exact ih hinner
  | case2 e he =>
    have hoperand : d.Met (place.step .value) (.expr called e) := hd.met_iff.mpr h
    exact hd.met_iff.mp hoperand

end Demand

def Expr.isWatched : Expr → Bool
  | .name .. | .dictionary .. => true
  | _ => false

/-- That a demand asks for something of no expressions but names and dictionaries. -/
structure Demand.IsMild (d : Demand) : Prop where
  steady : d.IsSteady
  expr : ∀ {place called e}, e.isWatched = false → d.expr place called e

def Expr.isCall : Expr → Bool
  | .call .. => true
  | _ => false

/-- That a demand may ask for something of calls, too. -/
structure Demand.IsTame (d : Demand) : Prop where
  steady : d.IsSteady
  free : ∀ {place called e}, e.isWatched = false → e.isCall = false → d.expr place called e

theorem Demand.IsMild.tame (hd : d.IsMild) : d.IsTame := ⟨hd.steady, fun h _ => hd.expr h⟩

/-- That a demand asks the same of a statement in a body as among the statements around it, and
nothing of lists. -/
structure Demand.IsLevel (d : Demand) : Prop where
  stmt_iff : ∀ {place s}, d.stmt (place.step .body) s ↔ d.stmt place s
  block : ∀ list, d.block list

namespace Pass

/-! ## Parentheses -/

theorem metParts_unwrapExpr (hd : d.IsSteady) {e : Expr} (h : d.MetParts place e.parts) :
    d.MetParts place (unwrapExpr e).parts := by
  cases e with
  | paren inner info =>
    rw [unwrapExpr]
    split
    next =>
      exact Demand.metParts_value.mp (Demand.met_expr_iff.mp (Demand.metParts_singleton.mp h)).2
    next => exact h
  | tuple elements info =>
    simp only [unwrapExpr, Expr.parts, List.map_map, Demand.metParts_map] at h ⊢
    exact fun argument hargument => hd.met_unparenthesized (h argument hargument)
  | shuffle slots info =>
    simp only [unwrapExpr, Expr.parts, List.flatMap_map, Demand.metParts_flatMap,
      Slot.values_mapValues, List.map_map, Demand.metParts_map] at h ⊢
    exact fun slot hslot e he => hd.met_unparenthesized (h slot hslot e he)
  | _ => exact h

theorem metParts_unwrapCondition (hd : d.IsSteady) {condition : Condition}
    (h : d.MetParts place condition.parts) :
    d.MetParts place (unwrapCondition condition).parts := by
  cases condition with
  | test e =>
    exact Demand.metParts_singleton.mpr (hd.met_unparenthesized (Demand.metParts_singleton.mp h))
  | binding item => exact h

theorem metParts_unwrapStmt (hd : d.IsSteady) {s : Stmt} (h : d.MetParts place s.parts) :
    d.MetParts place (unwrapStmt s).parts := by
  cases s with
  | ifStmt conditions body otherwise isGuard span =>
    obtain ⟨hconditions, hbodies⟩ := Demand.metParts_append.mp h
    refine Demand.metParts_append.mpr ⟨?_, hbodies⟩
    rw [Demand.metParts_flatMap] at hconditions ⊢
    exact List.forall_mem_map.mpr fun condition hcondition =>
      metParts_unwrapCondition hd (hconditions condition hcondition)
  | whileLoop condition body span =>
    obtain ⟨hcondition, hbody⟩ := Demand.metParts_cons.mp h
    exact Demand.metParts_cons.mpr ⟨hd.met_unparenthesized hcondition, hbody⟩
  | switchStmt subject cases target span =>
    obtain ⟨hsubject, hrest⟩ := Demand.metParts_cons.mp h
    exact Demand.metParts_cons.mpr ⟨hd.met_unparenthesized hsubject, hrest⟩
  | returnStmt value span =>
    simp only [unwrapStmt, Stmt.parts, Option.toList_map, List.map_map, Demand.metParts_map] at h ⊢
    exact fun e he => hd.met_unparenthesized (h e he)
  | _ => exact h

/-! ## Guards -/

theorem met_withoutNegation (hd : d.IsTame) {called : Bool} {e : Expr}
    (h : d.Met place (.expr called e)) : d.Met place (.expr called (withoutNegation e).1) := by
  obtain ⟨-, hparts⟩ := Demand.met_expr_iff.mp h
  fun_cases withoutNegation e with
  | case1 operand info => exact hd.steady.met_iff.mp (Demand.metParts_singleton.mp hparts)
  | case3 lhs rhs info => exact .expr (hd.free rfl rfl) hparts
  | _ => exact h

theorem metParts_cancelNegation (hd : d.IsTame) {s : Stmt} (h : d.MetParts place s.parts) :
    d.MetParts place (cancelNegation s).parts := by
  fun_cases cancelNegation s with
  | case1 e body otherwise span condition isNegated hcondition =>
    obtain ⟨htest, hbodies⟩ := Demand.metParts_cons.mp h
    refine Demand.metParts_cons.mpr ⟨?_, hbodies⟩
    have hinner : d.Met (place.step .value) (.expr false e.unparenthesized) :=
      hd.steady.met_unparenthesized htest
    have hstripped := met_withoutNegation hd hinner
    rw [hcondition] at hstripped
    exact hstripped
  | case2 => exact h

theorem met_comparedWithNil (hd : d.IsSteady) {called : Bool} {condition checked : Expr}
    (hchecked : comparedWithNil? condition = some checked)
    (h : d.Met place (.expr called condition)) :
    d.Met (place.step .value) (.expr false checked) := by
  have hinner : d.Met place (.expr called condition.unparenthesized) := hd.met_unparenthesized h
  have hsides := (Demand.met_expr_iff.mp hinner).2
  unfold comparedWithNil? at hchecked
  split at hchecked
  next lhs op rhs info hbinary =>
    rw [hbinary] at hsides
    obtain ⟨hlhs, hrhs⟩ := Demand.metParts_cons.mp hsides
    split_ifs at hchecked
    split at hchecked
    next => exact Option.some.inj hchecked ▸ hlhs
    next => exact Option.some.inj hchecked ▸ Demand.metParts_singleton.mp hrhs
    next => exact absurd hchecked (Option.some_ne_none _).symm
  next => exact absurd hchecked (Option.some_ne_none _).symm

theorem metParts_returnForNil (hd : d.IsTame) {s : Stmt} (h : d.MetParts place s.parts) :
    d.MetParts place (returnForNil s).parts := by
  fun_cases returnForNil s with
  | case1 condition inner span checked hchecked =>
    have hcondition := (Demand.metParts_cons.mp h).1
    refine Demand.metParts_singleton.mpr (.expr (hd.free rfl rfl) ?_)
    refine Demand.metParts_cons.mpr ⟨met_comparedWithNil hd.steady hchecked hcondition, ?_⟩
    exact Demand.metParts_singleton.mpr (.expr (hd.free rfl rfl) Demand.metParts_nil)
  | _ => exact h

/-! ## Switches -/

theorem metParts_switch {subject : Expr} {cases : List SwitchCase} {target : Option SwitchTarget}
    {span : Option Span} :
    d.MetParts place (Stmt.switchStmt subject cases target span).parts ↔
      d.Met (place.step .value) (.expr false subject) ∧ (∀ c ∈ cases, d.MetParts place c.parts) ∧
        ∀ item ∈ target, d.MetParts place item.parts := by
  simp only [Stmt.parts, Demand.metParts_cons, Demand.metParts_append, Demand.metParts_flatMap,
    Option.mem_toList, Option.mem_def]
  exact and_congr_right fun _ => and_comm

theorem metParts_case {c : SwitchCase} :
    d.MetParts place c.parts ↔
      (∀ e ∈ c.patterns, d.Met (place.step .value) (.expr false e)) ∧
        d.Met (place.step .body) (.stmts c.body) := by
  rw [SwitchCase.parts, Demand.metParts_append, Demand.metParts_map, Demand.metParts_singleton]
  rfl

theorem met_checkCase (hd : d.IsTame) {subject e : Expr}
    (hsubject : d.Met (place.step .value) (.expr false subject))
    (h : d.Met (place.step .value) (.expr false e)) :
    d.Met (place.step .value) (.expr false (checkCase subject e)) := by
  fun_cases checkCase subject e with
  | case1 base n isLibrary info =>
    refine .expr (hd.free rfl rfl) (Demand.metParts_cons.mpr ⟨hsubject, ?_⟩)
    exact Demand.metParts_singleton.mpr h
  | case2 => exact h

theorem metParts_checkCases (hd : d.IsTame) {s : Stmt} (h : d.MetParts place s.parts) :
    d.MetParts place (checkCases s).parts := by
  fun_cases checkCases s with
  | case1 subject cases target span =>
    obtain ⟨hsubject, hcases, htarget⟩ := metParts_switch.mp h
    refine metParts_switch.mpr ⟨hsubject, List.forall_mem_map.mpr fun c hc => ?_, htarget⟩
    obtain ⟨hpatterns, hbody⟩ := metParts_case.mp (hcases c hc)
    refine metParts_case.mpr ⟨List.forall_mem_map.mpr fun e he => ?_, hbody⟩
    exact met_checkCase hd hsubject (hpatterns e he)
  | case2 => exact h

theorem metParts_yielded {s : Stmt} (h : d.MetParts place s.parts) :
    d.MetParts place (yielded s).parts := by
  fun_cases yielded s with
  | case2 lhs rhs span => exact (Demand.metParts_cons.mp h).2
  | _ => exact h

theorem mem_yieldLast {c : SwitchCase} {s : Stmt} (h : s ∈ (yieldLast c).body) :
    s ∈ c.body ∨ ∃ last ∈ c.body, s = yielded last := by
  obtain h | h := List.mem_append.mp h
  · exact .inl (List.dropLast_subset _ h)
  · obtain ⟨last, hlast, rfl⟩ := Option.map_eq_some_iff.mp (Option.mem_toList.mp h)
    exact .inr ⟨last, List.mem_of_getLast? hlast, rfl⟩

theorem metParts_caseTarget {c : SwitchCase} {target : SwitchTarget}
    (htarget : caseTarget? c = some target) (h : d.MetParts place c.parts) :
    d.MetParts place target.parts := by
  unfold caseTarget? at htarget
  split at htarget
  next =>
    obtain rfl := Option.some.inj htarget
    exact Demand.metParts_nil
  next lhs rhs span hlast =>
    obtain rfl := Option.some.inj htarget
    have hbody := (Demand.met_stmts_iff.mp (metParts_case.mp h).2).1
    have hassign := Demand.metParts_body.mp (hbody _ (List.mem_of_getLast? hlast)).2
    exact Demand.metParts_singleton.mpr (Demand.metParts_cons.mp hassign).1
  next => exact absurd htarget (Option.some_ne_none _).symm

theorem metParts_toValue_of (hyielded : ∀ {place s}, d.stmt place s → d.stmt place (yielded s))
    (hblock : ∀ {c : SwitchCase}, d.block c.body → d.block (yieldLast c).body) {s : Stmt}
    (h : d.MetParts place s.parts) : d.MetParts place (toValue s).parts := by
  fun_cases toValue s with
  | case1 subject first rest span target htarget hall =>
    obtain ⟨hsubject, hcases, -⟩ := metParts_switch.mp h
    refine metParts_switch.mpr ⟨hsubject, List.forall_mem_map.mpr fun c hc => ?_, ?_⟩
    · obtain ⟨hpatterns, hbody⟩ := metParts_case.mp (hcases c hc)
      obtain ⟨hstmts, hown⟩ := Demand.met_stmts_iff.mp hbody
      refine metParts_case.mpr ⟨hpatterns, Demand.met_stmts_iff.mpr ⟨fun s hs => ?_, hblock hown⟩⟩
      obtain hs | ⟨last, hlast, rfl⟩ := mem_yieldLast hs
      · exact hstmts s hs
      · exact ⟨hyielded (hstmts last hlast).1, metParts_yielded (hstmts last hlast).2⟩
    · rintro item hitem
      obtain rfl := Option.some.inj hitem
      exact metParts_caseTarget htarget (hcases first List.mem_cons_self)
  | _ => exact h

/-- Where nothing is asked of expressions that are run, any value may be handed over. -/
theorem metParts_toValue (hexpression : ∀ {place e span}, d.stmt place (.expression e span))
    (hblock : ∀ {c : SwitchCase}, d.block c.body → d.block (yieldLast c).body) {s : Stmt}
    (h : d.MetParts place s.parts) : d.MetParts place (toValue s).parts := by
  refine metParts_toValue_of (fun {place s} own => ?_) hblock h
  fun_cases yielded s with
  | case3 => exact own
  | _ => exact hexpression

theorem metParts_asInitializer {item : Variable} {s : Stmt} (hitem : d.MetParts place item.parts)
    (h : d.MetParts place s.parts) : d.MetParts place (asInitializer item s).parts := by
  fun_cases asInitializer item s with
  | case1 subject cases target span =>
    obtain ⟨hsubject, hcases, -⟩ := metParts_switch.mp h
    refine metParts_switch.mpr ⟨hsubject, hcases, ?_⟩
    rintro declared hdeclared
    obtain rfl := Option.some.inj hdeclared
    exact hitem
  | case2 => exact h

theorem eq_switchStmt_of_joins {item : Variable} {next : Stmt} (h : joins item next = true) :
    ∃ subject cases lhs span, next = .switchStmt subject cases (some (.assigned lhs)) span := by
  unfold joins assignedName? at h
  split at h
  next subject cases lhs span => exact ⟨subject, cases, lhs, span, rfl⟩
  next => exact absurd h Bool.false_ne_true

theorem asInitializer_of_joins {item : Variable} {next : Stmt} (h : joins item next = true) :
    ∃ subject cases span,
      asInitializer item next = .switchStmt subject cases (some (.declared item)) span := by
  obtain ⟨subject, cases, lhs, span, rfl⟩ := eq_switchStmt_of_joins h
  exact ⟨subject, cases, span, rfl⟩

theorem metStmt_joinDeclarations
    (hswitch : ∀ {place subject cases lhs item span},
      d.stmt place (.switchStmt subject cases (some (.assigned lhs)) span) →
        d.stmt place (.switchStmt subject cases (some (.declared item)) span)) {list : List Stmt}
    (h : ∀ s ∈ list, d.MetStmt place s) : ∀ s ∈ joinDeclarations list, d.MetStmt place s := by
  fun_induction joinDeclarations list with
  | case1 item next rest hjoins ih =>
    obtain ⟨hdeclare, hlist⟩ := List.forall_mem_cons.mp h
    obtain ⟨hnext, hrest⟩ := List.forall_mem_cons.mp hlist
    refine List.forall_mem_cons.mpr ⟨⟨?_, metParts_asInitializer hdeclare.2 hnext.2⟩, ih hrest⟩
    obtain ⟨subject, cases, lhs, span, rfl⟩ := eq_switchStmt_of_joins hjoins
    exact hswitch hnext.1
  | case2 item next rest hjoins ih =>
    obtain ⟨hdeclare, hlist⟩ := List.forall_mem_cons.mp h
    exact List.forall_mem_cons.mpr ⟨hdeclare, ih hlist⟩
  | case3 s rest hs ih =>
    obtain ⟨hown, hrest⟩ := List.forall_mem_cons.mp h
    exact List.forall_mem_cons.mpr ⟨hown, ih hrest⟩
  | case4 => exact h

/-! ## Lists of statements -/

theorem metStmt_body (hd : d.IsLevel) {s : Stmt} :
    d.MetStmt (place.step .body) s ↔ d.MetStmt place s := by
  rw [Demand.MetStmt, Demand.MetStmt, hd.stmt_iff, Demand.metParts_body]

theorem met_body (hd : d.IsLevel) {list : List Stmt} :
    d.Met (place.step .body) (.stmts list) ↔ ∀ s ∈ list, d.MetStmt place s := by
  rw [Demand.met_stmts_iff, and_iff_left (hd.block list)]
  exact forall₂_congr fun s _ => metStmt_body hd

/-- Guarding what follows each `defer` leaves no `defer` behind, so nothing is asked of those. -/
theorem metStmt_wrapDefers (hd : d.IsLevel)
    (hguard : ∀ {place body cleanup span}, d.stmt place (.doBlock body cleanup span))
    {list : List Stmt}
    (hown : ∀ s ∈ list, (∀ body span, s ≠ .deferBlock body span) → d.stmt place s)
    (hparts : ∀ s ∈ list, d.MetParts place s.parts) :
    ∀ s ∈ wrapDefers list, d.MetStmt place s := by
  fun_induction wrapDefers list with
  | case1 => exact fun s hs => absurd hs List.not_mem_nil
  | case2 body span rest hrest =>
    -- Nothing follows: the body of the `defer` takes its place.
    exact (met_body hd).mp (Demand.metParts_singleton.mp (hparts _ List.mem_cons_self))
  | case3 body span rest hrest ih =>
    have hwrapped := ih (fun s hs => hown s (List.mem_cons_of_mem _ hs))
      (fun s hs => hparts s (List.mem_cons_of_mem _ hs))
    -- What follows is guarded, and the body of the `defer` is its cleanup.
    have hcleanup := hparts _ List.mem_cons_self
    intro s hs
    obtain rfl := List.mem_singleton.mp hs
    exact ⟨hguard, Demand.metParts_cons.mpr ⟨(met_body hd).mpr hwrapped, hcleanup⟩⟩
  | case4 s rest hs ih =>
    have hwrapped := ih (fun s hs => hown s (List.mem_cons_of_mem _ hs))
      (fun s hs => hparts s (List.mem_cons_of_mem _ hs))
    exact List.forall_mem_cons.mpr
      ⟨⟨hown s List.mem_cons_self hs, hparts s List.mem_cons_self⟩, hwrapped⟩

theorem parts_withReceiver (extended : String) (s : Stmt) :
    (withReceiver extended s).parts = s.parts := by
  cases s <;> rfl

theorem metStmt_spreadExtension (hd : d.IsLevel)
    (hreceiver : ∀ {place extended s}, d.stmt place s → d.stmt place (withReceiver extended s))
    {s : Stmt} (hown : (∀ extended inherits members span,
      s ≠ .extensionDecl extended inherits members span) → d.stmt place s)
    (hparts : d.MetParts place s.parts) : ∀ made ∈ spreadExtension s, d.MetStmt place made := by
  fun_cases spreadExtension s with
  | case1 extended inherits members span =>
    have hmembers := (met_body hd).mp (Demand.metParts_singleton.mp hparts)
    refine List.forall_mem_map.mpr fun member hmember => ?_
    obtain ⟨hmemberOwn, hmemberParts⟩ := hmembers member hmember
    refine ⟨hreceiver hmemberOwn, ?_⟩
    rw [parts_withReceiver]
    exact hmemberParts
  | case2 s hs =>
    intro made hmade
    rw [List.mem_singleton.mp hmade]
    exact ⟨hown hs, hparts⟩

/-- Static members stand in the companion, which is the first one or made for them. -/
theorem mem_hoistStatics {members : List Stmt} {s : Stmt} (h : s ∈ hoistStatics members) :
    (s ∈ members ∧ s.isStatic = false) ∨
      ∃ kept span, s = .companion (kept ++ members.filter Stmt.isStatic) span ∧
        (kept = [] ∨ .companion kept span ∈ members) := by
  have hmem : ∀ {s}, s ∈ members.filter (!·.isStatic) → s ∈ members ∧ s.isStatic = false := by
    intro s hs
    obtain ⟨hs, hstatic⟩ := List.mem_filter.mp hs
    exact ⟨hs, by simpa using hstatic⟩
  unfold hoistStatics at h
  dsimp only at h
  split_ifs at h
  · exact .inl (hmem h)
  -- The companion that is there takes the static members.
  · have hextend : ∀ {rest : List Stmt}, s ∈ extendCompanion (members.filter Stmt.isStatic) rest →
        s ∈ rest ∨ ∃ kept span, s = .companion (kept ++ members.filter Stmt.isStatic) span ∧
          .companion kept span ∈ rest := by
      intro rest hs
      fun_induction extendCompanion (members.filter Stmt.isStatic) rest with
      | case1 => exact .inl hs
      | case2 kept span rest =>
        obtain rfl | hs := List.mem_cons.mp hs
        · exact .inr ⟨kept, span, rfl, List.mem_cons_self⟩
        · exact .inl (List.mem_cons_of_mem _ hs)
      | case3 other rest hother ih =>
        obtain rfl | hs := List.mem_cons.mp hs
        · exact .inl List.mem_cons_self
        · obtain hs | ⟨kept, span, heq, hkept⟩ := ih hs
          · exact .inl (List.mem_cons_of_mem _ hs)
          · exact .inr ⟨kept, span, heq, List.mem_cons_of_mem _ hkept⟩
    obtain hs | ⟨kept, span, heq, hkept⟩ := hextend h
    · exact .inl (hmem hs)
    · exact .inr ⟨kept, span, heq, .inr (hmem hkept).1⟩
  -- There is none, so one is made.
  · obtain rfl | hs := List.mem_cons.mp h
    · exact .inr ⟨[], none, rfl, .inl rfl⟩
    · exact .inl (hmem hs)

theorem metStmt_hoistStatics (hd : d.IsLevel)
    (hcompanion : ∀ {place members span}, d.stmt place (.companion members span))
    {members : List Stmt} (h : ∀ s ∈ members, d.MetStmt place s) :
    ∀ s ∈ hoistStatics members, d.MetStmt place s := by
  intro s hs
  obtain ⟨hs, -⟩ | ⟨kept, span, rfl, hkept⟩ := mem_hoistStatics hs
  · exact h s hs
  · refine ⟨hcompanion, Demand.metParts_singleton.mpr ((met_body hd).mpr ?_)⟩
    refine List.forall_mem_append.mpr ⟨?_, fun s hs => h s (List.mem_of_mem_filter hs)⟩
    obtain rfl | hkept := hkept
    · exact fun s hs => absurd hs List.not_mem_nil
    · exact (met_body hd).mp (Demand.metParts_singleton.mp (h _ hkept).2)

theorem met_members (hd : d.IsLevel) {owner : String} {list : List Stmt} :
    d.Met (place.step (.members owner)) (.stmts list) ↔
      ∀ s ∈ list, d.MetStmt (place.step (.members owner)) s := by
  rw [Demand.met_stmts_iff, and_iff_left (hd.block list)]

theorem metParts_hoistStmt (hd : d.IsLevel)
    (hcompanion : ∀ {place members span}, d.stmt place (.companion members span)) {s : Stmt}
    (h : d.MetParts place s.parts) : d.MetParts place (hoistStmt s).parts := by
  have hmembers : ∀ {owner : String} {members : List Stmt},
      d.Met (place.step (.members owner)) (.stmts members) →
        d.Met (place.step (.members owner)) (.stmts (hoistStatics members)) :=
    fun h => (met_members hd).mpr (metStmt_hoistStatics hd hcompanion ((met_members hd).mp h))
  fun_cases hoistStmt s with
  | case1 head isFinal members span =>
    exact Demand.metParts_singleton.mpr (hmembers (Demand.metParts_singleton.mp h))
  | case2 head members span =>
    exact Demand.metParts_singleton.mpr (hmembers (Demand.metParts_singleton.mp h))
  | case3 head kind elements members span =>
    obtain ⟨helements, h⟩ := Demand.metParts_append.mp h
    refine Demand.metParts_append.mpr ⟨helements, ?_⟩
    exact Demand.metParts_singleton.mpr (hmembers (Demand.metParts_singleton.mp h))
  | case4 => exact h

/-! ## Closures and cases -/

theorem nameParameters_cases (e : Expr) :
    nameParameters e = e ∨ ∃ body info parameters isOnly, e = .closure [] body info ∧
      nameParameters e =
        .closure parameters ((anonymousRenaming isOnly).onStmts none body) info := by
  fun_cases nameParameters e with
  | case1 => exact .inl rfl
  | case2 body info highest hhighest parameters =>
    exact .inr ⟨body, info, parameters, _, rfl, rfl⟩
  | case3 => exact .inl rfl

theorem styleCase_cases (registry : Registry) (e : Expr) :
    styleCase registry e = e ∨ ∃ base n isLibrary style style' info,
      e = .member base n isLibrary style info ∧
        styleCase registry e = .member base n isLibrary style' info := by
  fun_cases styleCase registry e with
  | case1 base n isLibrary info => exact .inr ⟨base, n, isLibrary, none, _, info, rfl, rfl⟩
  | case2 => exact .inl rfl
  | case3 => exact .inl rfl
  | case4 => exact .inl rfl

/-! ## Initializers -/

theorem metParts_returnSelf_of (hd : d.IsTame) {owner : String}
    (hcall : ∀ {place callee arguments hasTrailing isPure info span}, isSelfInit callee = true →
      d.expr place false (.call callee arguments hasTrailing isPure info) →
      d.expr place false (.call (.typeName owner { span }) arguments hasTrailing isPure info))
    {s : Stmt}
    (h : d.MetParts place s.parts) : d.MetParts place (returnSelf owner s).parts := by
  fun_cases returnSelf owner s with
  | case1 lhs rhs span hself => exact (Demand.metParts_cons.mp h).2
  | case3 callee arguments hasTrailing isPure info span hself =>
    obtain ⟨hown, hparts⟩ := Demand.met_expr_iff.mp (Demand.metParts_singleton.mp h)
    obtain ⟨-, harguments⟩ := Demand.metParts_cons.mp hparts
    refine Demand.metParts_singleton.mpr (.expr (hcall hself hown) ?_)
    exact Demand.metParts_cons.mpr ⟨.expr (hd.free rfl rfl) Demand.metParts_nil, harguments⟩
  | _ => exact h

theorem metParts_returnSelf (hd : d.IsMild) {owner : String} {s : Stmt}
    (h : d.MetParts place s.parts) : d.MetParts place (returnSelf owner s).parts :=
  metParts_returnSelf_of hd.tame (fun _ _ => hd.expr rfl) h

/-- The body of a factory is the body of the initializer, with what it makes returned. -/
theorem metParts_toFactory
    (hbody : ∀ {owner : String} {body : List Stmt}, d.Met (place.step .body) (.stmts body) →
      d.Met (place.step .body) (.stmts ((returningSelf owner).onStmts none body)))
    {owner : Option String} {s : Stmt} (h : d.MetParts place s.parts) :
    d.MetParts place (toFactory owner s).parts := by
  fun_cases toFactory owner s with
  | case1 head parameters body span owner hkind hassigns =>
    obtain ⟨hparameters, h⟩ := Demand.metParts_append.mp h
    refine Demand.metParts_append.mpr ⟨hparameters, ?_⟩
    exact Demand.metParts_singleton.mpr (hbody (Demand.metParts_singleton.mp h))
  | _ => exact h

end Pass

end Ferry
