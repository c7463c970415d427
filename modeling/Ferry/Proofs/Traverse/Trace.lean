/-
  Ferry.Proofs.Traverse.Trace

  What a transform does to the findings of a survey.  A survey that only looks at expressions lists
  what it finds all over a tree, in order; a transform changes the tree from the leaves up.  If a
  relation between lists is kept when lists are joined, and what the transform does to one
  expression, one statement and one list of statements keeps it too, then the findings before and
  after are related (`Traces.ofFile_onFile`).

  The relation may be equality, that the findings correspond one by one, or that each finding
  after the change stems from one before it (`Stems`).
-/
import Mathlib.Data.List.Forall2
import Ferry.Proofs.Traverse.Change
import Ferry.Proofs.Traverse.Finding

namespace Ferry

/-- That everything in a list stems from something in another. -/
def Stems {α : Type} (R : α → α → Prop) (before after : List α) : Prop :=
  ∀ found ∈ after, ∃ origin ∈ before, R origin found

namespace Stems

variable {α : Type} {R : α → α → Prop} {a b c d : List α}

theorem nil : Stems R a [] := by
  intro found hfound
  exact absurd hfound List.not_mem_nil

theorem append (h : Stems R a b) (h' : Stems R c d) : Stems R (a ++ c) (b ++ d) := by
  intro found hfound
  obtain hfound | hfound := List.mem_append.mp hfound
  · obtain ⟨origin, horigin, hR⟩ := h found hfound
    exact ⟨origin, List.mem_append_left _ horigin, hR⟩
  · obtain ⟨origin, horigin, hR⟩ := h' found hfound
    exact ⟨origin, List.mem_append_right _ horigin, hR⟩

theorem singleton {x y : α} (h : R x y) : Stems R [x] [y] := by
  intro found hfound
  obtain rfl := List.mem_singleton.mp hfound
  exact ⟨x, List.mem_singleton_self x, h⟩

theorem of_forall₂ (h : List.Forall₂ R a b) : Stems R a b := by
  induction h with
  | nil => exact nil
  | @cons x y xs ys hR _ ih =>
    rw [← List.singleton_append, ← @List.singleton_append _ y]
    exact append (singleton hR) ih

end Stems

namespace Survey

variable {α : Type}

/-- The survey that lists what is found at each expression. -/
def nodes (f : Expr → List α) : Survey α where
  expr := f

theorem ofExpr_eq {s : Survey α} {e : Expr}
    (hpaired : ∀ keys values info, e = .dictionary keys values info → s.paired = false)
    (hfirst : s.argumentsFirst = false) :
    s.ofExpr e = if s.enters e then s.ofPartList e.parts ++ s.expr e else [] := by
  have hvisit : ∀ {parts}, parts = s.ofPartList e.parts →
      s.visit e (fun _ => parts) = if s.enters e then s.ofPartList e.parts ++ s.expr e else [] := by
    rintro _ rfl
    rfl
  cases e with
  | array elements => exact hvisit (s.flatten_ofExprs elements)
  | dictionary keys values info =>
    refine hvisit ?_
    rw [hpaired _ _ _ rfl, Expr.parts, ofPartList_append, ← flatten_ofExprs, ← flatten_ofExprs]
    rfl
  | tuple elements info => exact hvisit (s.ofArguments_eq elements)
  | shuffle slots info => exact hvisit (s.ofSlots_eq slots)
  | interpolation segments info => exact hvisit (s.ofSegments_eq segments)
  | _ => exact hvisit (by simp [Expr.parts, hfirst])

theorem ofExpr_nodes (f : Expr → List α) (e : Expr) :
    (nodes f).ofExpr e = (nodes f).ofPartList e.parts ++ f e :=
  ofExpr_eq (fun _ _ _ _ => rfl) rfl

theorem ofStmts_nodes_eq_flatMap (f : Expr → List α) (stmts : List Stmt) :
    (nodes f).ofStmts stmts = stmts.flatMap (nodes f).ofParts := by
  rw [ofStmts_eq]
  refine List.flatMap_congr fun stmt _ => ?_
  rw [ofParts_eq]
  exact List.append_nil _

theorem ofStmts_nodes_singleton (f : Expr → List α) (stmt : Stmt) :
    (nodes f).ofStmts [stmt] = (nodes f).ofParts stmt := by
  rw [ofStmts_nodes_eq_flatMap, List.flatMap_singleton]

end Survey

namespace Transform

open Survey

/-- A relation between findings that a transform keeps step by step. -/
structure Traces {α : Type} (t : Transform) (f : Expr → List α) (L : List α → List α → Prop) :
    Prop where
  nil : L [] []
  append : ∀ {a b c d}, L a b → L c d → L (a ++ c) (b ++ d)
  skip : ∀ e, t.enters e = false → L ((nodes f).ofExpr e) ((nodes f).ofExpr e)
  leave : ∀ s, t.descends s = false → L ((nodes f).ofParts s) ((nodes f).ofParts s)
  expr : ∀ owner called e, t.enters e = true →
    L ((nodes f).ofPartList e.parts) ((nodes f).ofPartList (e.mapParts (t.change owner)).parts) →
    L ((nodes f).ofExpr e) ((nodes f).ofExpr (t.expr called (e.mapParts (t.change owner))))
  stmt : ∀ owner found stmt, L found ((nodes f).ofParts stmt) →
    L found ((nodes f).ofStmts (t.stmt owner stmt))
  block : ∀ found stmts, L found ((nodes f).ofStmts stmts) →
    L found ((nodes f).ofStmts (t.block stmts))

namespace Traces

variable {α : Type} {t : Transform} {f : Expr → List α} {L : List α → List α → Prop}

theorem flatMap {β : Type} {g g' : β → List α} (h : Traces t f L) {list : List β}
    (hlist : ∀ x ∈ list, L (g x) (g' x)) : L (list.flatMap g) (list.flatMap g') := by
  induction list with
  | nil => exact h.nil
  | cons x rest ih =>
    obtain ⟨hx, hrest⟩ := List.forall_mem_cons.mp hlist
    rw [List.flatMap_cons, List.flatMap_cons]
    exact h.append hx (ih hrest)

theorem ofPartList_change (h : Traces t f L) {owner : Option String} {parts : List Part}
    (hparts : ∀ part ∈ parts, L ((nodes f).ofFragment part.2)
      ((nodes f).ofFragment (t.onFragment (part.1.owner owner) part.2))) :
    L ((nodes f).ofPartList parts) ((nodes f).ofPartList (parts.map (t.change owner).onPart)) := by
  rw [ofPartList, ofPartList, List.flatMap_map]
  refine h.flatMap fun part hpart => ?_
  rw [onPart_change]
  exact hparts part hpart

theorem ofFragment_onFragment (h : Traces t f L) (place : Place) (fragment : Fragment) :
    L ((nodes f).ofFragment fragment)
    ((nodes f).ofFragment (t.onFragment place.owner fragment)) := by
  induction place, fragment using Fragment.induction with
  | expr place called e ih =>
    rw [onFragment, ofFragment_expr, ofFragment_expr, onExpr_eq_mapParts]
    split
    next henters =>
      refine h.expr place.owner called e henters ?_
      rw [Expr.parts_mapParts]
      exact h.ofPartList_change fun part hpart => Place.owner_step place part.1 ▸ ih part hpart
    next henters => exact h.skip e (eq_false_of_ne_true henters)
  | stmts place list ih =>
    rw [onFragment, ofFragment_stmts, ofFragment_stmts, onStmts_eq]
    refine h.block _ _ ?_
    rw [ofStmts_flatMap, ofStmts_nodes_eq_flatMap]
    -- Statement by statement, with what the transform makes of each in its place.
    refine h.flatMap fun s hs => h.stmt place.owner _ _ ?_
    rw [onStmt_eq]
    split
    next =>
      rw [ofParts_eq, ofParts_eq, Stmt.parts_mapParts]
      exact h.ofPartList_change fun part hpart => Place.owner_step place part.1 ▸ ih s hs part hpart
    next hdescends => exact h.leave s (eq_false_of_ne_true hdescends)

theorem ofStmts_onStmts (h : Traces t f L) (owner : Option String) (stmts : List Stmt) :
    L ((nodes f).ofStmts stmts) ((nodes f).ofStmts (t.onStmts owner stmts)) :=
  h.ofFragment_onFragment { owner } (.stmts stmts)

theorem ofFile_onFile (h : Traces t f L) (file : SourceFile) :
    L ((nodes f).ofFile file) ((nodes f).ofFile (t.onFile file)) := by
  refine h.append ?_ (h.ofStmts_onStmts none file.statements)
  show L _ ((nodes f).ofStmts (file.declarations.flatMap fun s => t.onStmts none [s]))
  rw [ofStmts_flatMap, ofStmts_nodes_eq_flatMap]
  refine h.flatMap fun s _ => ?_
  rw [← ofStmts_nodes_singleton]
  exact h.ofStmts_onStmts none [s]

/-- A transform that changes expressions only, and not what is found in their parts. -/
theorem ofNodes (nil : L [] []) (append : ∀ {a b c d}, L a b → L c d → L (a ++ c) (b ++ d))
    (henters : ∀ e, t.enters e = true) (hdescends : ∀ s, t.descends s = true)
    (hstmt : ∀ owner s, t.stmt owner s = [s]) (hblock : ∀ stmts, t.block stmts = stmts)
    (hparts : ∀ called e, (nodes f).ofPartList (t.expr called e).parts =
      (nodes f).ofPartList e.parts)
    (hnode : ∀ owner called e, L (f e) (f (t.expr called (e.mapParts (t.change owner))))) :
    Traces t f L where
  nil := nil
  append := append
  skip e h := absurd h (by simp [henters])
  leave s h := absurd h (by simp [hdescends])
  expr owner called e _ h := by
    rw [ofExpr_nodes, ofExpr_nodes, hparts]
    exact append h (hnode owner called e)
  stmt owner found s h := by rwa [hstmt, ofStmts_nodes_singleton]
  block found stmts h := by rwa [hblock]

end Traces

end Transform

end Ferry
