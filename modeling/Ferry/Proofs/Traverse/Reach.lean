/-
  Ferry.Proofs.Traverse.Reach

  A survey that goes everywhere asks for something of every node: all that is found has a property
  just where all that is found at nodes has it (`metFile_demand_iff`).
-/
import Ferry.Proofs.Traverse.Demand
import Ferry.Proofs.Traverse.Finding

namespace Ferry

namespace Survey

variable {α : Type} {s : Survey α} {x : α}

variable (s) in
/-- That all that is found at a node has a property. -/
def demand (P : α → Prop) : Demand where
  expr _ _ e := ∀ x ∈ s.expr e, P x
  stmt _ stmt := (∀ x ∈ s.before stmt, P x) ∧ ∀ x ∈ s.after stmt, P x

theorem forall_mem_ofFragment {P : α → Prop} {place : Place} {fragment : Fragment}
    (h : (s.demand P).Met place fragment) : ∀ x ∈ s.ofFragment fragment, P x := by
  induction h with
  | expr own _ ih =>
    intro x hx
    obtain ⟨-, hx | hx⟩ := mem_of_mem_ofExpr hx
    · obtain ⟨part, hpart, hx⟩ := mem_ofPartList.mp hx
      exact ih part hpart x hx
    · exact own x hx
  | stmts own _ _ ih =>
    intro x hx
    obtain ⟨stmt, hstmt, hx | hx | hx⟩ := mem_ofStmts_iff.mp hx
    · exact (own stmt hstmt).1 x hx
    · obtain ⟨part, hpart, hx⟩ := mem_ofPartList.mp hx
      exact ih stmt hstmt part hpart x hx
    · exact (own stmt hstmt).2 x hx

/-- A survey that goes everywhere finds what is found at any node. -/
theorem met_demand_iff (henters : ∀ e, s.enters e = true) (hpaired : s.paired = false)
    {P : α → Prop} {fragment : Fragment} (place : Place) :
    (s.demand P).Met place fragment ↔ ∀ x ∈ s.ofFragment fragment, P x := by
  refine ⟨forall_mem_ofFragment, fun h => ?_⟩
  induction place, fragment using Fragment.induction with
  | expr place called e ih =>
    -- Nothing is skipped and nothing is paired, so that all that is found in a part is found here.
    have hmem : ∀ x, x ∈ s.ofPartList e.parts ∨ x ∈ s.expr e → P x := fun x hx => by
      refine h x ((mem_ofExpr_iff fun h => ?_).mpr ⟨henters e, hx⟩)
      exact absurd (hpaired.symm.trans h) Bool.false_ne_true
    refine .expr (fun x hx => hmem x (.inr hx)) fun part hpart => ih part hpart fun x hx => ?_
    exact hmem x (.inl (mem_ofPartList.mpr ⟨part, hpart, hx⟩))
  | stmts place list ih =>
    have hmem : ∀ stmt ∈ list, ∀ x,
        x ∈ s.before stmt ∨ x ∈ s.ofPartList stmt.parts ∨ x ∈ s.after stmt → P x :=
      fun stmt hstmt x hx => h x (mem_ofStmts_iff.mpr ⟨stmt, hstmt, hx⟩)
    refine .stmts (fun stmt hstmt => ?_) trivial fun stmt hstmt part hpart => ?_
    · exact ⟨fun x hx => hmem stmt hstmt x (.inl hx),
        fun x hx => hmem stmt hstmt x (.inr (.inr hx))⟩
    · refine ih stmt hstmt part hpart fun x hx => hmem stmt hstmt x (.inr (.inl ?_))
      exact mem_ofPartList.mpr ⟨part, hpart, hx⟩

theorem mem_ofFile_iff {x : α} {file : SourceFile} :
    x ∈ s.ofFile file ↔
      (∃ stmt ∈ file.declarations, x ∈ s.ofStmts [stmt]) ∨ x ∈ s.ofStmts file.statements := by
  rw [ofFile, List.mem_append]
  refine or_congr_left ?_
  simp only [ofStmts_eq, List.mem_flatMap, List.mem_singleton, exists_eq_left]

theorem mem_ofFile_onFile_iff {x : α} {t : Transform} {file : SourceFile} :
    x ∈ s.ofFile (t.onFile file) ↔
      (∃ stmt ∈ file.declarations, x ∈ s.ofStmts (t.onStmts none [stmt])) ∨
        x ∈ s.ofStmts (t.onStmts none file.statements) := by
  rw [ofFile, List.mem_append, Transform.onFile, ofStmts_flatMap, List.mem_flatMap]

theorem forall_mem_ofFile {P : α → Prop} {file : SourceFile} (h : (s.demand P).MetFile file) :
    ∀ x ∈ s.ofFile file, P x := by
  intro x hx
  obtain ⟨stmt, hstmt, hx⟩ | hx := mem_ofFile_iff.mp hx
  · exact forall_mem_ofFragment (h.1 stmt hstmt) x hx
  · exact forall_mem_ofFragment h.2 x hx

theorem forall_mem_ofFile_of_nodes {P : α → Prop} {file : SourceFile}
    (hexpr : ∀ e, ∀ x ∈ s.expr e, P x)
    (hbefore : ∀ stmt, ∀ x ∈ s.before stmt, P x) (hafter : ∀ stmt, ∀ x ∈ s.after stmt, P x) :
    ∀ x ∈ s.ofFile file, P x := by
  refine forall_mem_ofFile ((Demand.metFile_trivial file).mono ?_ ?_ ?_)
  · exact fun _ => hexpr _
  · exact fun _ => ⟨hbefore _, hafter _⟩
  · exact fun _ => trivial

theorem metFile_demand_iff (henters : ∀ e, s.enters e = true) (hpaired : s.paired = false)
    {P : α → Prop} {file : SourceFile} :
    (s.demand P).MetFile file ↔ ∀ x ∈ s.ofFile file, P x := by
  refine ⟨forall_mem_ofFile, fun h => ⟨fun stmt hstmt => ?_, ?_⟩⟩
  · exact (met_demand_iff henters hpaired {}).mpr fun x hx =>
      h x (mem_ofFile_iff.mpr (.inl ⟨stmt, hstmt, hx⟩))
  · exact (met_demand_iff henters hpaired {}).mpr fun x hx => h x (mem_ofFile_iff.mpr (.inr hx))

theorem metFile_pick_iff {pick : Stmt → Option α} {P : α → Prop} {file : SourceFile} :
    Demand.MetFile { stmt := fun _ stmt => ∀ x ∈ pick stmt, P x } file ↔
      ∀ x ∈ ofFile { after := fun stmt => (pick stmt).toList } file, P x := by
  rw [← metFile_demand_iff (fun _ => rfl) rfl]
  constructor
  · intro h
    refine h.mono (fun _ _ hx => absurd hx List.not_mem_nil) (fun own => ?_) fun _ => trivial
    exact ⟨fun _ hx => absurd hx List.not_mem_nil, fun x hx => own x (Option.mem_toList.mp hx)⟩
  · intro h
    refine h.mono (fun _ => trivial) (fun own x hx => ?_) fun _ => trivial
    exact own.2 x (Option.mem_toList.mpr hx)

theorem ofFile_eq_nil {d : Demand}
    (expr : ∀ {place called e}, d.expr place called e → s.expr e = [])
    (stmt : ∀ {place stmt}, d.stmt place stmt → s.before stmt = [] ∧ s.after stmt = [])
    {file : SourceFile} (h : d.MetFile file) : s.ofFile file = [] := by
  have hdemand : (s.demand fun _ => False).MetFile file := by
    refine h.mono ?_ ?_ fun _ => trivial
    · intro place called e own x hx
      rw [expr own] at hx
      exact List.not_mem_nil hx
    · intro place stmt' own
      obtain ⟨hbefore, hafter⟩ := stmt own
      constructor
      · rw [hbefore]
        exact fun x => List.not_mem_nil
      · rw [hafter]
        exact fun x => List.not_mem_nil
  exact List.eq_nil_iff_forall_not_mem.mpr (forall_mem_ofFile hdemand)

end Survey

end Ferry
