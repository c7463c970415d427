/-
  Ferry.Proofs.Traverse.Demand

  What is asked of every node of a tree, and what a transform does to it.  A demand is on one
  expression, one statement or one list of statements, seen at its place; a tree meets it when every
  node does.  A transform that makes what meets a demand out of a node whose parts meet it already
  makes a file that meets it (`Transform.Carries.metFile`).  One that finds nothing to do at any
  node leaves the file as it is (`Transform.onFile_of_settled`).
-/
import Ferry.Proofs.Traverse.Change

namespace Ferry

/-- What is asked of expressions, of statements and of lists of statements. -/
structure Demand where
  expr : Place → (called : Bool) → Expr → Prop := fun _ _ _ => True
  stmt : Place → Stmt → Prop := fun _ _ => True
  block : List Stmt → Prop := fun _ => True

namespace Demand

/-- Every node of the fragment does what is asked of it. -/
inductive Met (d : Demand) : Place → Fragment → Prop where
  | expr {place : Place} {called : Bool} {e : Expr} (own : d.expr place called e)
      (parts : ∀ part ∈ e.parts, d.Met (place.step part.1) part.2) : d.Met place (.expr called e)
  | stmts {place : Place} {list : List Stmt} (own : ∀ s ∈ list, d.stmt place s)
      (block : d.block list) (parts : ∀ s ∈ list, ∀ part ∈ s.parts,
        d.Met (place.step part.1) part.2) :
      d.Met place (.stmts list)

abbrev MetParts (d : Demand) (place : Place) (parts : List Part) : Prop :=
  ∀ part ∈ parts, d.Met (place.step part.1) part.2

def MetStmt (d : Demand) (place : Place) (s : Stmt) : Prop :=
  d.stmt place s ∧ d.MetParts place s.parts

/-- All of a file does what is asked of it. Every declaration is a list of its own. -/
def MetFile (d : Demand) (file : SourceFile) : Prop :=
  (∀ s ∈ file.declarations, d.Met {} (.stmts [s])) ∧ d.Met {} (.stmts file.statements)

variable {d : Demand} {place : Place}

theorem met_expr_iff {called : Bool} {e : Expr} :
    d.Met place (.expr called e) ↔ d.expr place called e ∧ d.MetParts place e.parts := by
  constructor
  · rintro (⟨own, parts⟩ | _)
    exact ⟨own, parts⟩
  · rintro ⟨own, parts⟩
    exact .expr own parts

theorem met_stmts_iff {list : List Stmt} :
    d.Met place (.stmts list) ↔ (∀ s ∈ list, d.MetStmt place s) ∧ d.block list := by
  constructor
  · rintro (_ | ⟨own, block, parts⟩)
    exact ⟨fun s hs => ⟨own s hs, parts s hs⟩, block⟩
  · rintro ⟨hlist, block⟩
    exact .stmts (fun s hs => (hlist s hs).1) block fun s hs => (hlist s hs).2

/-- A demand that asks at one place no more than another demand at a place related to it. -/
theorem Met.transport {d' : Demand} {r : Place → Place → Prop}
    (hstep : ∀ {p q : Place} (step : Step), r p q → r (p.step step) (q.step step))
    (hexpr : ∀ {p q : Place} {called : Bool} {e : Expr}, r p q → d.expr p called e →
      d'.expr q called e)
    (hstmt : ∀ {p q : Place} {s : Stmt}, r p q → d.stmt p s → d'.stmt q s)
    (hblock : ∀ {list : List Stmt}, d.block list → d'.block list)
    {fragment : Fragment} (h : d.Met place fragment) {other : Place} (hr : r place other) :
    d'.Met other fragment := by
  induction h generalizing other with
  | expr own _ ih => exact .expr (hexpr hr own) fun part hpart => ih part hpart (hstep part.1 hr)
  | stmts own block _ ih =>
    exact .stmts (fun s hs => hstmt hr (own s hs)) (hblock block)
      fun s hs part hpart => ih s hs part hpart (hstep part.1 hr)

theorem MetFile.mono {d' : Demand}
    (expr : ∀ {place called e}, d.expr place called e → d'.expr place called e)
    (stmt : ∀ {place s}, d.stmt place s → d'.stmt place s)
    (block : ∀ {list}, d.block list → d'.block list) {file : SourceFile} (h : d.MetFile file) :
    d'.MetFile file := by
  have hmet : ∀ {place fragment}, d.Met place fragment → d'.Met place fragment := fun h =>
    h.transport (r := Eq) (fun _ hr => hr ▸ rfl) (fun hr own => hr ▸ expr own)
      (fun hr own => hr ▸ stmt own) block rfl
  exact ⟨fun s hs => hmet (h.1 s hs), hmet h.2⟩

theorem met_trivial (place : Place) (fragment : Fragment) : Met {} place fragment := by
  induction place, fragment using Fragment.induction with
  | expr place called e ih => exact .expr trivial ih
  | stmts place list ih => exact .stmts (fun _ _ => trivial) trivial ih

theorem metFile_trivial (file : SourceFile) : MetFile {} file :=
  ⟨fun _ _ => met_trivial _ _, met_trivial _ _⟩

/-- That the demand on a node does not look at its parts. -/
structure IsShallow (d : Demand) : Prop where
  expr : ∀ {place called e} (φ : Change), d.expr place called e → d.expr place called (e.mapParts φ)
  stmt : ∀ {place s} (φ : Change), d.stmt place s → d.stmt place (s.mapParts φ)

theorem isShallow_trivial : IsShallow {} := ⟨fun _ _ => trivial, fun _ _ => trivial⟩

/-- That the demand on an expression is the same for an operand as for the whole. -/
structure IsSteady (d : Demand) : Prop where
  expr_iff : ∀ {place called called' e},
    d.expr (place.step .value) called e ↔ d.expr place called' e

theorem metParts_value {e : Expr} :
    d.MetParts (place.step .value) e.parts ↔ d.MetParts place e.parts := by
  refine forall₂_congr fun part hpart => ?_
  obtain hstep | ⟨parameters, body, info, -, rfl⟩ := Expr.step_of_mem_parts hpart
  · rw [hstep]
    rfl
  · rfl

/-- An operand may take the place of the expression around it. -/
theorem IsSteady.met_iff (hd : d.IsSteady) {called called' : Bool} {e : Expr} :
    d.Met (place.step .value) (.expr called e) ↔ d.Met place (.expr called' e) := by
  rw [met_expr_iff, met_expr_iff, metParts_value, hd.expr_iff]

theorem metParts_body {parts : List Part} :
    d.MetParts (place.step .body) parts ↔ d.MetParts place parts := by
  refine forall₂_congr fun part _ => ?_
  rw [Place.step_body_step]

end Demand

/-! ## What a transform carries -/

namespace Transform

/-- That what a transform makes of a node that meets a demand, once its parts meet another, meets
the other. -/
structure Carries (t : Transform) (d d' : Demand) : Prop where
  expr : ∀ {place called e}, t.enters e = true → d.expr place called e →
    d'.MetParts place (e.mapParts (t.change place.owner)).parts →
    d'.Met place (.expr called (t.expr called (e.mapParts (t.change place.owner))))
  skip : ∀ {place called e}, t.enters e = false → d.Met place (.expr called e) →
    d'.Met place (.expr called e)
  stmts : ∀ {place list}, d.Met place (.stmts list) →
    (∀ s ∈ list, t.descends s = true →
      d'.MetParts place (s.mapParts (t.change place.owner)).parts) →
    d'.Met place (.stmts (t.onStmts place.owner list))
  single : ∀ {s list}, s ∈ list → d'.block list → d'.block [s]

namespace Carries

variable {t : Transform} {d d' : Demand}

/-- A transform that walks every statement is looked at one statement at a time, and then at what it
makes of the list. -/
theorem of_stmt (made : Place → Stmt → Prop) (hdescends : ∀ s, t.descends s = true)
    (expr : ∀ {place called e}, t.enters e = true → d.expr place called e →
      d'.MetParts place (e.mapParts (t.change place.owner)).parts →
      d'.Met place (.expr called (t.expr called (e.mapParts (t.change place.owner)))))
    (skip : ∀ {place called e}, t.enters e = false → d.Met place (.expr called e) →
      d'.Met place (.expr called e))
    (stmt : ∀ {place s}, d.stmt place s →
      d'.MetParts place (s.mapParts (t.change place.owner)).parts →
      ∀ s' ∈ t.stmt place.owner (s.mapParts (t.change place.owner)),
        made place s' ∧ d'.MetParts place s'.parts)
    (block : ∀ {place list}, (∀ s ∈ list, made place s ∧ d'.MetParts place s.parts) →
      d'.Met place (.stmts (t.block list)))
    (single : ∀ {s list}, s ∈ list → d'.block list → d'.block [s]) : t.Carries d d' where
  expr := expr
  skip := skip
  stmts hmet hparts := by
    rw [onStmts_eq]
    refine block fun s' hs' => ?_
    obtain ⟨s, hs, hs'⟩ := List.mem_flatMap.mp hs'
    rw [onStmt_eq, if_pos (hdescends s)] at hs'
    have hown := ((Demand.met_stmts_iff.mp hmet).1 s hs).1
    exact stmt hown (hparts s hs (hdescends s)) s' hs'
  single := single

/-- A transform that walks everything, and a demand that is kept when the parts of a node are
changed. -/
theorem of_kept (henters : ∀ e, t.enters e = true) (hdescends : ∀ s, t.descends s = true)
    (kept_expr : ∀ {place called e}, d.expr place called e →
      d.expr place called (e.mapParts (t.change place.owner)))
    (kept_stmt : ∀ {place s}, d.stmt place s → d.stmt place (s.mapParts (t.change place.owner)))
    (expr : ∀ {place called e}, d.expr place called e → d'.MetParts place e.parts →
      d'.Met place (.expr called (t.expr called e)))
    (stmt : ∀ {place s}, d.stmt place s → d'.MetParts place s.parts →
      ∀ made ∈ t.stmt place.owner s, d'.MetStmt place made)
    (block : ∀ {place list}, (∀ s ∈ list, d'.MetStmt place s) →
      d'.Met place (.stmts (t.block list)))
    (single : ∀ {s list}, s ∈ list → d'.block list → d'.block [s]) : t.Carries d d' := by
  refine of_stmt d'.stmt hdescends (fun _ own parts => expr (kept_expr own) parts) ?_
    (fun own parts => stmt (kept_stmt own) parts) block single
  intro place called e hskip _
  exact absurd (henters e) (by rw [hskip]; exact Bool.false_ne_true)

theorem of_shallow (henters : ∀ e, t.enters e = true) (hdescends : ∀ s, t.descends s = true)
    (hd : d.IsShallow)
    (expr : ∀ {place called e}, d.expr place called e → d'.MetParts place e.parts →
      d'.Met place (.expr called (t.expr called e)))
    (stmt : ∀ {place s}, d.stmt place s → d'.MetParts place s.parts →
      ∀ made ∈ t.stmt place.owner s, d'.MetStmt place made)
    (block : ∀ {place list}, (∀ s ∈ list, d'.MetStmt place s) →
      d'.Met place (.stmts (t.block list)))
    (single : ∀ {s list}, s ∈ list → d'.block list → d'.block [s]) : t.Carries d d' :=
  of_kept henters hdescends (hd.expr _) (hd.stmt _) expr stmt block single

theorem of_nodes {onExpr onStmt ofExpr ofStmt} :
    let d : Demand := { expr := ofExpr, stmt := ofStmt }
    (∀ {place called e}, d.MetParts place e.parts → d.Met place (.expr called (onExpr called e))) →
    (∀ {place s}, d.MetParts place s.parts → ∀ made ∈ onStmt place.owner s, d.MetStmt place made) →
    Carries { expr := onExpr, stmt := onStmt } {} d :=
  fun expr stmt => of_shallow (fun _ => rfl) (fun _ => rfl) Demand.isShallow_trivial (fun _ => expr)
    (fun _ => stmt) (fun h => Demand.met_stmts_iff.mpr ⟨h, trivial⟩) fun _ _ => trivial

theorem of_block (henters : ∀ e, t.enters e = true) (hdescends : ∀ s, t.descends s = true)
    (hexpr : ∀ called e, t.expr called e = e) (hstmt : ∀ owner s, t.stmt owner s = [s])
    (hd : d.IsShallow) (expr : ∀ {place called e}, d.expr place called e → d'.expr place called e)
    (block : ∀ {place list}, (∀ s ∈ list, d.stmt place s ∧ d'.MetParts place s.parts) →
      d'.Met place (.stmts (t.block list)))
    (single : ∀ {s list}, s ∈ list → d'.block list → d'.block [s]) : t.Carries d d' := by
  refine of_stmt d.stmt hdescends ?_ ?_ ?_ block single
  · intro place called e _ own parts
    rw [hexpr]
    exact .expr (expr (hd.expr _ own)) parts
  · intro place called e hskip _
    exact absurd (henters e) (by rw [hskip]; exact Bool.false_ne_true)
  · intro place s own parts s' hs'
    rw [hstmt] at hs'
    obtain rfl := List.mem_singleton.mp hs'
    exact ⟨hd.stmt _ own, parts⟩

theorem met (h : t.Carries d d') {place : Place} {fragment : Fragment}
    (hmet : d.Met place fragment) : d'.Met place (t.onFragment place.owner fragment) := by
  induction hmet with
  | @expr place called e own parts ih =>
    rw [onFragment, onExpr_eq_mapParts]
    split
    next henters =>
      refine h.expr henters own fun part hpart => ?_
      rw [Expr.parts_mapParts] at hpart
      obtain ⟨origin, horigin, rfl⟩ := List.mem_map.mp hpart
      rw [onPart_change, ← Place.owner_step]
      exact ih origin horigin
    next henters => exact h.skip (by simpa using henters) (.expr own parts)
  | @stmts place list own block parts ih =>
    refine h.stmts (.stmts own block parts) fun s hs _ part hpart => ?_
    rw [Stmt.parts_mapParts] at hpart
    obtain ⟨origin, horigin, rfl⟩ := List.mem_map.mp hpart
    rw [onPart_change, ← Place.owner_step]
    exact ih s hs origin horigin

theorem metFile (h : t.Carries d d') {file : SourceFile} (hmet : d.MetFile file) :
    d'.MetFile (t.onFile file) := by
  refine ⟨fun made hmade => ?_, h.met hmet.2⟩
  obtain ⟨s, hs, hmade⟩ := List.mem_flatMap.mp hmade
  have hstmts : d'.Met {} (.stmts (t.onStmts none [s])) := h.met (hmet.1 s hs)
  obtain ⟨hall, hblock⟩ := Demand.met_stmts_iff.mp hstmts
  refine Demand.met_stmts_iff.mpr ⟨fun s' hs' => ?_, h.single hmade hblock⟩
  rw [List.mem_singleton.mp hs']
  exact hall made hmade

end Carries

/-! ## Settled trees -/

/-- That nothing that meets a demand is changed. -/
structure Settles (t : Transform) (d : Demand) : Prop where
  expr : ∀ {place called e}, d.expr place called e → t.expr called e = e
  stmt : ∀ {place s}, d.stmt place s → t.stmt place.owner s = [s]
  block : ∀ {place list}, (∀ s ∈ list, d.stmt place s) → d.block list → t.block list = list

variable {t : Transform} {d : Demand}

theorem onFragment_of_settled (h : t.Settles d) {place : Place} {fragment : Fragment}
    (hmet : d.Met place fragment) : t.onFragment place.owner fragment = fragment := by
  induction hmet with
  | @expr place called e own _ ih =>
    have hparts : e.mapParts (t.change place.owner) = e.mapParts .none :=
      Expr.mapParts_congr fun part hpart => by
        rw [onPart_change, ← Place.owner_step, ih part hpart]
        exact (Change.onPart_none part).symm
    rw [onFragment, onExpr_eq_mapParts, hparts, Expr.mapParts_none, h.expr own, ite_self]
  | @stmts place list own block _ ih =>
    have hstmt : ∀ s ∈ list, t.stmt place.owner (t.onStmt place.owner s) = [s] := by
      intro s hs
      have hparts : s.mapParts (t.change place.owner) = s.mapParts .none :=
        Stmt.mapParts_congr fun part hpart => by
          rw [onPart_change, ← Place.owner_step, ih s hs part hpart]
          exact (Change.onPart_none part).symm
      rw [onStmt_eq, hparts, Stmt.mapParts_none, ite_self, h.stmt (own s hs)]
    rw [onFragment, onStmts_eq, List.flatMap_congr hstmt, List.flatMap_singleton',
      h.block own block]

theorem onFile_of_settled (h : t.Settles d) {file : SourceFile} (hmet : d.MetFile file) :
    t.onFile file = file := by
  have hlist : ∀ {list : List Stmt}, d.Met {} (.stmts list) → t.onStmts none list = list :=
    fun hmet => Fragment.stmts.inj (onFragment_of_settled h hmet)
  have hdeclarations : ∀ s ∈ file.declarations, t.onStmts none [s] = [s] :=
    fun s hs => hlist (hmet.1 s hs)
  rw [onFile, List.flatMap_congr hdeclarations, List.flatMap_singleton', hlist hmet.2]

theorem onFile_onFile (hcarries : t.Carries {} d) (hsettles : t.Settles d) (file : SourceFile) :
    t.onFile (t.onFile file) = t.onFile file :=
  onFile_of_settled hsettles (hcarries.metFile (Demand.metFile_trivial file))

end Transform

end Ferry
