/-
  Ferry.Proofs.Traverse.Reading

  How expressions read in trees whose statements are changed.  The readable form of an expression
  shows nothing of the statements in it, so a transform that changes no expressions leaves it alone
  (`Transform.KeepsExprs.text_onExpr`).
-/
import Ferry.Program.Text
import Ferry.Proofs.Traverse.Demand

namespace Ferry

theorem texts_eq_map (es : List Expr) : texts es = es.map Expr.text := by
  induction es with
  | nil => rfl
  | cons e rest ih => rw [texts, ih, List.map_cons]

theorem texts_map {f : Expr → Expr} {es : List Expr} (h : ∀ e ∈ es, (f e).text = e.text) :
    texts (es.map f) = texts es := by
  rw [texts_eq_map, texts_eq_map, List.map_map]
  exact List.map_congr_left h

theorem argumentTexts_map {f : Expr → Expr} {elements : List Argument}
    (h : ∀ argument ∈ elements, (f argument.value).text = argument.value.text) :
    argumentTexts (elements.map fun argument => ⟨argument.label, f argument.value⟩) =
      argumentTexts elements := by
  induction elements with
  | nil => rfl
  | cons argument rest ih =>
    obtain ⟨label, value⟩ := argument
    obtain ⟨hfirst, hrest⟩ := List.forall_mem_cons.mp h
    rw [List.map_cons, argumentTexts, argumentTexts, ih hrest, hfirst]

theorem slotTexts_map {f : Expr → Expr} {slots : List Slot}
    (h : ∀ slot ∈ slots, ∀ e ∈ slot.values, (f e).text = e.text) :
    slotTexts (slots.map (Slot.mapValues f)) = slotTexts slots := by
  induction slots with
  | nil => rfl
  | cons slot rest ih =>
    obtain ⟨hfirst, hrest⟩ := List.forall_mem_cons.mp h
    cases slot with
    | absent label => rw [List.map_cons, Slot.mapValues, slotTexts, slotTexts, ih hrest]
    | present label value =>
      rw [List.map_cons, Slot.mapValues, slotTexts, slotTexts, ih hrest,
        hfirst value (List.mem_singleton_self _)]
    | variadic label values =>
      have hvalues : ∀ e ∈ values, (f e).text = e.text := hfirst
      rw [List.map_cons, Slot.mapValues, slotTexts, slotTexts, ih hrest, texts_map hvalues]

/-- An expression reads as before if the expressions in it do: the bodies of closures are not
read. -/
theorem Expr.text_mapParts {φ : Change} {e : Expr}
    (h : ∀ step called part, (step, .expr called part) ∈ e.parts →
      (φ.expr step called part).text = part.text) : (e.mapParts φ).text = e.text := by
  have hvalue : ∀ part, Part.value part ∈ e.parts → (φ.value part).text = part.text :=
    fun part hpart => h _ _ part hpart
  cases e with
  | array elements info =>
    have htexts := texts_map fun e he => hvalue e (List.mem_map_of_mem he)
    rw [Expr.mapParts, Expr.text, Expr.text, List.length_map, htexts]
  | dictionary keys values info =>
    have hkeys := texts_map fun e he => hvalue e (List.mem_append_left _ (List.mem_map_of_mem he))
    have hvalues := texts_map fun e he =>
      hvalue e (List.mem_append_right _ (List.mem_map_of_mem he))
    rw [Expr.mapParts, Expr.text, Expr.text, List.length_map, List.isEmpty_map, hkeys, hvalues]
  -- The callee is the one part that is looked at as called.
  | call callee arguments hasTrailing isPure info =>
    rw [Expr.mapParts, Expr.text, Expr.text, h _ _ callee List.mem_cons_self,
      hvalue arguments (List.mem_cons_of_mem _ (List.mem_singleton_self _))]
  | tuple elements info =>
    rw [Expr.mapParts, Expr.text, Expr.text, argumentTexts_map fun argument hargument =>
      hvalue argument.value (List.mem_map.mpr ⟨argument, hargument, rfl⟩)]
  | shuffle slots info =>
    rw [Expr.mapParts, Expr.text, Expr.text, slotTexts_map fun slot hslot e he =>
      hvalue e (List.mem_flatMap.mpr ⟨slot, hslot, List.mem_map_of_mem he⟩)]
  | _ => simp_all [Expr.parts, Expr.mapParts, Expr.text]

namespace Transform

/-- That a transform changes statements only. -/
structure KeepsExprs (t : Transform) : Prop where
  enters : ∀ e, t.enters e = true
  descends : ∀ s, t.descends s = true
  expr : ∀ called e, t.expr called e = e

variable {t : Transform}

theorem KeepsExprs.onExpr_eq (ht : t.KeepsExprs) (owner : Option String)
    (called : Bool) (e : Expr) : t.onExpr owner called e = e.mapParts (t.change owner) := by
  rw [onExpr_eq_mapParts, if_pos (ht.enters e), ht.expr]

theorem KeepsExprs.onStmts_eq (ht : t.KeepsExprs) (owner : Option String) (list : List Stmt) :
    t.onStmts owner list =
      t.block (list.flatMap fun s => t.stmt owner (s.mapParts (t.change owner))) := by
  rw [Transform.onStmts_eq]
  simp only [onStmt_eq, ht.descends, if_true]

theorem KeepsExprs.text_onExpr (ht : t.KeepsExprs) (owner : Option String)
    (called : Bool) (e : Expr) : (t.onExpr owner called e).text = e.text := by
  suffices h : ∀ (place : Place) (fragment : Fragment) owner called e, fragment = .expr called e →
      (t.onExpr owner called e).text = e.text from h {} _ owner called e rfl
  intro place fragment
  induction place, fragment using Fragment.induction with
  | expr place called e ih =>
    rintro owner called e ⟨⟩
    rw [ht.onExpr_eq]
    exact Expr.text_mapParts fun step called part hpart => ih _ hpart _ called part rfl
  | stmts place list ih => exact fun _ _ _ h => Fragment.noConfusion h

theorem KeepsExprs.referencedName?_onExpr (ht : t.KeepsExprs) (owner : Option String)
    (called : Bool) (e : Expr) : (t.onExpr owner called e).referencedName? = e.referencedName? := by
  rw [Expr.referencedName?, Expr.referencedName?]
  fun_induction Expr.unparenthesized e generalizing called with
  | case1 inner info ih =>
    rw [ht.onExpr_eq]
    exact ih false
  | case2 e he =>
    rw [ht.onExpr_eq]
    cases e with
    | paren inner info => exact absurd rfl (he inner info)
    | _ => rfl

/-- A file is changed by two transforms as by a third if its lists are, and the second does not look
at lists as a whole. -/
theorem onFile_onFile_eq {u v : Transform} (hblock : ∀ list, u.block list = list)
    {file : SourceFile} (hdeclarations : ∀ s ∈ file.declarations,
      u.onFragment none (t.onFragment none (.stmts [s])) = v.onFragment none (.stmts [s]))
    (hstatements : u.onFragment none (t.onFragment none (.stmts file.statements)) =
      v.onFragment none (.stmts file.statements)) :
    u.onFile (t.onFile file) = v.onFile file := by
  have hone : ∀ list, list.flatMap (fun s => u.onStmts none [s]) = u.onStmts none list := by
    intro list
    simp only [Transform.onStmts_eq, hblock, List.flatMap_cons, List.flatMap_nil, List.append_nil]
  have heach : ∀ s ∈ file.declarations,
      (t.onStmts none [s]).flatMap (fun s => u.onStmts none [s]) = v.onStmts none [s] :=
    fun s hs => (hone _).trans (Fragment.stmts.inj (hdeclarations s hs))
  simp only [onFile, List.flatMap_assoc, List.flatMap_congr heach]
  rw [Fragment.stmts.inj hstatements]

end Transform

end Ferry
