/-
  Ferry.Proofs.Pass.AnonymousParameter

  New names for anonymous parameters.  The names that a closure refers to in its own body are
  renamed one by one (`names_anonymousParameters`).  Two of them fall together exactly where an
  anonymous parameter gets the name that something else has already (`Captures`), or where the one
  name `it` is given to several parameters, as happens to keys of a dictionary that have no values.
-/
import Ferry.Proofs.Pass.Idempotence
import Ferry.Proofs.Traverse.Trace

namespace Ferry.Pass

/-- What the names referred to in a body show, but for closures inside it. -/
def ownSurvey {α : Type} (f : String → List α) (paired : Bool) : Survey α where
  enters e := !isClosure e
  expr
    | .name n _ _ _ => f n
    | _ => []
  paired

def ownNames : Survey String := ownSurvey ([·]) false

def renamed (r : String → String) : Expr → Expr
  | .name n isLibrary isImplicit info => .name (r n) isLibrary isImplicit info
  | e => e

section

variable {α : Type} {f : String → List α} {paired : Bool}

theorem ofExpr_of_isClosure {e : Expr} (h : isClosure e = true) :
    (ownSurvey f paired).ofExpr e = [] := by
  cases e with
  | closure parameters body info => rfl
  | _ => cases h

/-- A walk that changes names one by one and leaves closures closures. -/
theorem ofFragment_ownSurvey {t : Transform} {r : String → String} {g : α → α}
    (hstmt : ∀ owner s, t.stmt owner s = [s]) (hblock : ∀ list, t.block list = list)
    (hdescends : ∀ s, t.descends s = true)
    (hclosure : ∀ called e, isClosure (t.expr called e) = isClosure e)
    (hnode : ∀ called e, isClosure e = false → t.enters e = true ∧ t.expr called e = renamed r e)
    (hfound : ∀ n, f (r n) = (f n).map g) (place : Place) (fragment : Fragment) :
    (ownSurvey f paired).ofFragment (t.onFragment place.owner fragment) =
      ((ownSurvey f paired).ofFragment fragment).map g := by
  have hparts : ∀ {place : Place} {parts : List Part}, (∀ part ∈ parts,
      (ownSurvey f paired).ofFragment (t.onFragment (place.step part.1).owner part.2) =
        ((ownSurvey f paired).ofFragment part.2).map g) →
      (ownSurvey f paired).ofPartList (parts.map (t.change place.owner).onPart) =
        ((ownSurvey f paired).ofPartList parts).map g := by
    intro place parts h
    rw [Survey.ofPartList, Survey.ofPartList, List.flatMap_map, List.map_flatMap]
    refine List.flatMap_congr fun part hpart => ?_
    rw [Transform.onPart_change, ← Place.owner_step]
    exact h part hpart
  induction place, fragment using Fragment.induction with
  | expr place called e ih =>
    have hmapped := isClosure_mapParts (t.change place.owner) e
    rw [Transform.onFragment, Survey.ofFragment_expr, Survey.ofFragment_expr,
      Transform.onExpr_eq_mapParts]
    cases he : isClosure e with
    | true =>
      rw [ofExpr_of_isClosure he]
      split <;> exact ofExpr_of_isClosure (by simp [hclosure, hmapped, he])
    | false =>
      rw [if_pos (hnode called e he).1, (hnode called _ (hmapped.trans he)).2]
      have hexpr : (ownSurvey f paired).expr (renamed r (e.mapParts (t.change place.owner))) =
          ((ownSurvey f paired).expr e).map g := by
        cases e <;> first | rfl | exact hfound _
      have hall := hparts ih
      rw [← Expr.parts_mapParts] at hall
      cases e with
      | closure parameters body info => cases he
      | dictionary keys values info =>
        have hvalues : ∀ {es : List Expr}, (∀ e ∈ es, e ∈ keys ++ values) →
            (ownSurvey f paired).ofExprs (es.map (t.change place.owner).value) =
              ((ownSurvey f paired).ofExprs es).map (List.map g) := by
          intro es hes
          rw [Survey.ofExprs_eq_map, Survey.ofExprs_eq_map, List.map_map, List.map_map]
          refine List.map_congr_left fun e he => ih (.value e) ?_
          simpa [Expr.parts] using hes e he
        -- Paired or not, what is found in keys and values is renamed where it stands.
        show (ownSurvey f paired).ofExpr (.dictionary (keys.map _) (values.map _) info) = _
        simp only [Survey.ofExpr, hvalues (List.subset_append_left _ _),
          hvalues (List.subset_append_right _ _)]
        cases paired <;>
          simp [Survey.visit, ownSurvey, isClosure, List.map_zipWith, List.zipWith_map]
      | _ =>
        refine (Survey.ofExpr_eq (by simp [renamed, Expr.mapParts]) rfl).trans ?_
        refine .trans ?_ (congrArg (List.map g) (Survey.ofExpr_eq (by simp) rfl).symm)
        refine .trans (congrArg₂ (· ++ ·) hall hexpr) List.map_append.symm
  | stmts place list ih =>
    rw [Transform.onFragment, Transform.onStmts_eq, hblock, Survey.ofFragment_stmts,
      Survey.ofFragment_stmts, Survey.ofStmts_flatMap, Survey.ofStmts_eq, List.map_flatMap]
    refine List.flatMap_congr fun s hs => ?_
    rw [hstmt, Transform.onStmt_eq, if_pos (hdescends s), Survey.ofStmts_eq,
      List.flatMap_singleton, Stmt.parts_mapParts, hparts (ih s hs)]
    simp [ownSurvey]

theorem ofStmts_anonymousParameters (owner : Option String) (body : List Stmt) :
    (ownSurvey f paired).ofStmts (anonymousParameters.onStmts owner body) =
      (ownSurvey f paired).ofStmts body := by
  have hid := List.map_id ((ownSurvey f paired).ofStmts body)
  rw [← hid]
  refine ofFragment_ownSurvey (r := id) (fun _ _ => rfl) (fun _ => rfl) (fun _ => rfl)
    (fun called e => ?_) (fun called e he => ?_) (fun n => (List.map_id (f n)).symm) { owner }
    (.stmts body)
  · obtain h | ⟨body, info, parameters, isOnly, rfl, h⟩ := nameParameters_cases e <;>
      exact (congrArg isClosure h).trans rfl
  · refine ⟨rfl, (nameParameters_of_not_closure he).trans ?_⟩
    cases e <;> rfl

end

def newName (isOnly : Bool) (n : String) : String :=
  match anonymousIndex? n with
  | some k => if isOnly then "it" else "arg" ++ toString k
  | none => n

theorem ofStmts_anonymousRenaming (isOnly : Bool) (body : List Stmt) :
    ownNames.ofStmts ((anonymousRenaming isOnly).onStmts none body) =
      (ownNames.ofStmts body).map (newName isOnly) := by
  refine ofFragment_ownSurvey (fun _ _ => rfl) (fun _ => rfl) (fun _ => rfl)
    (fun _ => isClosure_renameAnonymous isOnly) (fun called e he => ?_) (fun _ => rfl) {}
    (.stmts body)
  refine ⟨by simp [anonymousRenaming, he], ?_⟩
  cases e with
  | name n isLibrary isImplicit info =>
    show renameAnonymous isOnly (.name n isLibrary isImplicit info) = .name (newName isOnly n) _ _ _
    rw [renameAnonymous, newName]
    cases anonymousIndex? n <;> rfl
  | _ => rfl

/-! ## Capture -/

/-- That an anonymous parameter gets the name of something else. -/
def Captures (isOnly : Bool) (n other : String) : Prop :=
  (anonymousIndex? n).isSome ∧ anonymousIndex? other = none ∧ newName isOnly n = other

/-- That the index of an anonymous parameter is written without leading zeros. -/
def IsCanonical (n : String) : Prop :=
  ∀ k, anonymousIndex? n = some k → n = "$" ++ toString k

theorem newName_eq_iff {isOnly : Bool} {n other : String} (hn : IsCanonical n)
    (hother : IsCanonical other) :
    newName isOnly n = newName isOnly other ↔
      n = other ∨ Captures isOnly n other ∨ Captures isOnly other n ∨
        (isOnly = true ∧ (anonymousIndex? n).isSome ∧ (anonymousIndex? other).isSome) := by
  cases hi : anonymousIndex? n with
  | none =>
    cases hj : anonymousIndex? other with
    | none => simp [newName, Captures, hi, hj]
    | some j =>
      have : n ≠ other := by rintro rfl; simp_all
      simp [newName, Captures, hi, hj, eq_comm, this]
  | some i =>
    cases hj : anonymousIndex? other with
    | none =>
      have : n ≠ other := by rintro rfl; simp_all
      simp [newName, Captures, hi, hj, this]
    | some j =>
      cases isOnly with
      | true => simp [newName, hi, hj]
      | false =>
        -- Written without leading zeros, two names are equal exactly if their indices are.
        have hsame : n = other ↔ toString i = toString j := by simp [hn i hi, hother j hj]
        simp [newName, Captures, hi, hj, hsame]

/-- A closure without parameters gets as many as the highest index says, and the names in its own
body are renamed one by one.  Names that differ stay apart unless one captures the other, or both
are called `it`. -/
theorem names_anonymousParameters (owner : Option String) (called : Bool) (body : List Stmt)
    (info : Info) : ∃ parameters body',
      anonymousParameters.onExpr owner called (.closure [] body info) =
        .closure parameters body' info ∧
      match (anonymousSurvey.ofStmts body).max? with
      | none => parameters = [] ∧ ownNames.ofStmts body' = ownNames.ofStmts body
      | some highest =>
        parameters = (if highest = 0 then []
          else (List.range (highest + 1)).map fun k => { name := "arg" ++ toString k }) ∧
        ownNames.ofStmts body' = (ownNames.ofStmts body).map (newName (highest == 0)) ∧
        ∀ n other, IsCanonical n → IsCanonical other →
          (newName (highest == 0) n = newName (highest == 0) other ↔ n = other ∨
            Captures (highest == 0) n other ∨ Captures (highest == 0) other n ∨
            ((highest == 0) = true ∧ (anonymousIndex? n).isSome ∧
              (anonymousIndex? other).isSome)) := by
  have hwalk : anonymousParameters.onExpr owner called (.closure [] body info) =
      nameParameters (.closure [] (anonymousParameters.onStmts owner body) info) := rfl
  -- Closures inside are renamed before, which changes nothing that the scan sees.
  have hscan : anonymousSurvey.ofStmts (anonymousParameters.onStmts owner body) =
      anonymousSurvey.ofStmts body := ofStmts_anonymousParameters owner body
  rw [hwalk, nameParameters, hscan]
  cases (anonymousSurvey.ofStmts body).max? with
  | none => exact ⟨_, _, rfl, rfl, ofStmts_anonymousParameters owner body⟩
  | some highest =>
    refine ⟨_, _, rfl, rfl, ?_, fun n other => newName_eq_iff⟩
    rw [ofStmts_anonymousRenaming, ownNames, ofStmts_anonymousParameters]

/-- In the body `$0 + it` the parameter takes the name of the other reference. -/
theorem names_captured : IsCanonical "$0" ∧ IsCanonical "it" ∧ Captures true "$0" "it" ∧
    newName true "$0" = newName true "it" ∧
    ∃ body', anonymousParameters.onExpr none false (.closure [] [.expression (.binary
        (.name "$0" false false {}) "+" (.name "it" false false {}) {}) none] {}) =
      .closure [] body' {} ∧ ownNames.ofStmts body' = ["it", "it"] := by
  obtain ⟨parameters, body', heq, hparameters, hnames, hfall⟩ :=
    names_anonymousParameters none false [.expression (.binary (.name "$0" false false {}) "+"
      (.name "it" false false {}) {}) none] {}
  have hzero : IsCanonical "$0" := by rintro k ⟨⟩; decide
  have hit : IsCanonical "it" := by rintro k ⟨⟩
  have hcaptures : Captures true "$0" "it" := ⟨by decide, by decide, by decide⟩
  exact ⟨hzero, hit, hcaptures, (hfall "$0" "it" hzero hit).mpr (.inr (.inl hcaptures)), body',
    by rw [heq, hparameters]; rfl, hnames.trans (by decide)⟩

end Ferry.Pass
