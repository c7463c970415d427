/-
  Ferry.Proofs.Pass.Shuffle

  Shuffles on their way through the passes.  A pass that comes to a shuffle walks its expressions
  and puts what becomes of them in their places, and the pass that names arguments also puts other
  labels in place.  Both are edits (`editsShuffles_passTransforms`), so no pass can bring the parts
  of a shuffle apart (`isIntact_of_ofParts`).
-/
import Ferry.Pass.Pipeline
import Ferry.Proofs.Program.Shuffle
import Ferry.Proofs.Traverse.Change

namespace Ferry

open Shuffle

/-! ## Edits that passes make -/

/-- Changing the expressions slot by slot is one way to rewrite them in place. -/
theorem Shuffle.map_mapValues (slots : List Slot) (f : Expr → Expr) :
    slots.map (Slot.mapValues f) = edited slots [.rewrite fun _ => f] := by
  have hlabels : labels (slots.map (Slot.mapValues f)) = labels slots := by
    rw [labels, labels, List.map_map]
    exact List.map_congr_left fun slot _ => Slot.label_mapValues f slot
  have hindices : indices (slots.map (Slot.mapValues f)) = indices slots := by
    rw [indices, indices, List.map_map]
    refine List.map_congr_left fun slot _ => ?_
    cases slot with
    | variadic label values => exact congrArg ShuffleIndex.variadic (List.length_map f)
    | _ => rfl
  have hexpressions : expressions (slots.map (Slot.mapValues f)) =
      (expressions slots).mapIdx fun _ => f := by
    have hvalues : expressions (slots.map (Slot.mapValues f)) = (expressions slots).map f := by
      rw [expressions, expressions, List.map_map, List.map_flatten, List.map_map]
      exact congrArg _ (List.map_congr_left fun slot _ => Slot.values_mapValues f slot)
    rw [hvalues]
    exact List.ext_getElem (by simp) fun i _ _ => by simp
  -- Slots are determined by their labels, indices and expressions.
  show _ = deal (labels slots) (indices slots) _
  rw [← hlabels, ← hindices, ← hexpressions, deal_parts]

/-- Naming the slots, one name for each, is putting other labels in place. -/
theorem Pass.relabelSlots_eq (afterAbsent : Bool) {names : List String} {slots : List Slot}
    (h : slots.length = names.length) :
    ∃ ls : List (Option String), ls.length = slots.length ∧
      relabelSlots afterAbsent names slots = List.zipWith Slot.relabel ls slots := by
  induction slots generalizing afterAbsent names with
  | nil => exact ⟨[], rfl, by cases names <;> rfl⟩
  | cons slot slots ih =>
    obtain ⟨name, rest, rfl⟩ := List.exists_cons_of_length_eq_add_one h.symm
    have hrest : slots.length = rest.length := Nat.succ.inj h
    cases slot with
    | absent label =>
      obtain ⟨ls, hls, heq⟩ := ih true hrest
      exact ⟨none :: ls, congrArg _ hls, congrArg (_ :: ·) heq⟩
    | present label value =>
      obtain ⟨ls, hls, heq⟩ := ih afterAbsent hrest
      exact ⟨_ :: ls, congrArg _ hls, congrArg (_ :: ·) heq⟩
    | variadic label values =>
      obtain ⟨ls, hls, heq⟩ := ih afterAbsent hrest
      exact ⟨_ :: ls, congrArg _ hls, congrArg (_ :: ·) heq⟩

theorem Pass.exists_relabelCall_shuffle (names : List String) (slots : List Slot) (info : Info) :
    ∃ edits, relabelCall names (.shuffle slots info) = .shuffle (edited slots edits) info := by
  rw [relabelCall]
  split
  next h =>
    obtain ⟨ls, hls, heq⟩ := relabelSlots_eq false h
    refine ⟨[.relabel ls], ?_⟩
    rw [heq, ← apply_relabel_of_length_eq hls]
    rfl
  next => exact ⟨[], rfl⟩

namespace Transform

variable {t : Transform}

/-- That a transform changes a shuffle by edits only, whether it stands alone or holds the arguments
of a call. -/
structure EditsShuffles (t : Transform) : Prop where
  shuffle : ∀ called slots info, ∃ edits,
    t.expr called (.shuffle slots info) = .shuffle (edited slots edits) info
  call : ∀ called callee slots info hasTrailing isPure place, ∃ edits isPure',
    t.expr called (.call callee (.shuffle slots info) hasTrailing isPure place) =
      .call callee (.shuffle (edited slots edits) info) hasTrailing isPure' place

theorem EditsShuffles.onExpr_shuffle (h : t.EditsShuffles) (owner : Option String) (called : Bool)
    (slots : List Slot) (info : Info) :
    ∃ edits, t.onExpr owner called (.shuffle slots info) = .shuffle (edited slots edits) info := by
  rw [onExpr_eq_mapParts]
  split
  next =>
    obtain ⟨edits, heq⟩ := h.shuffle called (slots.map (Slot.mapValues (t.change owner).value)) info
    refine ⟨.rewrite (fun _ => (t.change owner).value) :: edits, heq.trans ?_⟩
    rw [map_mapValues]
    rfl
  next => exact ⟨[], rfl⟩

theorem EditsShuffles.onExpr_call (h : t.EditsShuffles) (owner : Option String) (called : Bool)
    (callee : Expr) (slots : List Slot) (info : Info) (hasTrailing isPure : Bool) (place : Info) :
    ∃ edits callee' isPure',
      t.onExpr owner called (.call callee (.shuffle slots info) hasTrailing isPure place) =
        .call callee' (.shuffle (edited slots edits) info) hasTrailing isPure' place := by
  show ∃ edits callee' isPure', t.visit called _ (fun _ =>
    .call _ (t.onExpr owner false (.shuffle slots info)) hasTrailing isPure place) = _
  obtain ⟨walked, hwalked⟩ := h.onExpr_shuffle owner false slots info
  rw [hwalked, visit]
  split
  next =>
    obtain ⟨edits, isPure', heq⟩ := h.call called (t.onExpr owner true callee)
      (edited slots walked) info hasTrailing isPure place
    exact ⟨walked ++ edits, _, isPure', by rw [heq, edited_append]⟩
  next => exact ⟨[], callee, isPure, rfl⟩

theorem editsShuffles_of_eq
    (hshuffle : ∀ called slots info, t.expr called (.shuffle slots info) = .shuffle slots info)
    (hcall : ∀ called callee arguments hasTrailing isPure info,
      t.expr called (.call callee arguments hasTrailing isPure info) =
        .call callee arguments hasTrailing isPure info) : t.EditsShuffles where
  shuffle called slots info := ⟨[], hshuffle called slots info⟩
  call called callee slots info hasTrailing isPure place :=
    ⟨[], isPure, hcall called callee (.shuffle slots info) hasTrailing isPure place⟩

end Transform

namespace Pass

open Transform

theorem editsShuffles_removeParentheses : removeParentheses.EditsShuffles where
  shuffle _ slots info :=
    ⟨[.rewrite fun _ => Expr.unparenthesized],
      congrArg (Expr.shuffle · info) (map_mapValues slots Expr.unparenthesized)⟩
  call _ _ _ _ _ isPure _ := ⟨[], isPure, rfl⟩

theorem editsShuffles_callLabelsToParameterNames (registry : Registry) :
    (callLabelsToParameterNames registry).EditsShuffles where
  shuffle _ _ _ := ⟨[], rfl⟩
  call called callee slots info hasTrailing isPure place := by
    simp only [callLabelsToParameterNames, nameArguments]
    split
    next names _ =>
      obtain ⟨edits, heq⟩ := exists_relabelCall_shuffle names slots info
      exact ⟨edits, isPure, by rw [heq]⟩
    next => exact ⟨[], isPure, rfl⟩

theorem editsShuffles_pureCalls (registry : Registry) : (pureCalls registry).EditsShuffles where
  shuffle _ _ _ := ⟨[], rfl⟩
  call _ _ _ _ _ _ _ := ⟨[], _, rfl⟩

end Pass

/-- The transforms of all passes: two learn from files, the others change them. -/
def passTransforms (registry : Registry) : List Transform :=
  Pass.cleanInheritances :: Pass.classifyEnums ::
    PassId.transforming.map (PassId.transform registry)

theorem editsShuffles_passTransforms (registry : Registry) :
    ∀ t ∈ passTransforms registry, t.EditsShuffles := by
  simp only [passTransforms, PassId.transforming, List.map_cons, List.map_nil, List.forall_mem_cons]
  refine ⟨?_, ?_, Pass.editsShuffles_removeParentheses, ?_, ?_, ?_, ?_, ?_, ?_, ?_, ?_, ?_, ?_, ?_,
    Pass.editsShuffles_callLabelsToParameterNames registry, Pass.editsShuffles_pureCalls registry,
    ?_, ?_, ?_, fun _ h => absurd h List.not_mem_nil⟩
  all_goals exact Transform.editsShuffles_of_eq (fun _ _ _ => rfl) fun _ _ _ _ _ _ => rfl

/-! ## Shuffles made of parts -/

/-- Three lists make a shuffle exactly when they fit together.  It has these parts, edits and passes
    keep it intact, and labels that do not fit are refused and change nothing. -/
theorem isIntact_of_ofParts (ls : List (Option String)) (is : List ShuffleIndex)
    (values : List Expr) (registry : Registry) :
    ((∃ slots, ofParts ls is values = .ok slots) ↔
        ls.length = is.length ∧ totalWidth is = values.length) ∧
      ∀ slots, ofParts ls is values = .ok slots →
        (labels slots = ls ∧ indices slots = is ∧ expressions slots = values) ∧
        ∀ edits,
          IsIntact ls is values.length (edited slots edits) ∧
          (∀ ls', ls'.length = ls.length →
            labels (edited slots (edits ++ [.relabel ls'])) = ls' ∧
              expressions (edited slots (edits ++ [.relabel ls'])) =
                expressions (edited slots edits)) ∧
          (∀ ls', ls'.length ≠ ls.length →
            relabel ls' (edited slots edits) = .error (.lengthMismatch ls'.length is.length) ∧
              edited slots (edits ++ [.relabel ls']) = edited slots edits) ∧
          ∀ t ∈ passTransforms registry, ∀ owner called info,
            (∃ more, t.onExpr owner called (.shuffle (edited slots edits) info) =
              .shuffle (edited slots (edits ++ more)) info) ∧
            ∀ callee hasTrailing isPure place, ∃ more callee' isPure',
              t.onExpr owner called
                  (.call callee (.shuffle (edited slots edits) info) hasTrailing isPure place) =
                .call callee' (.shuffle (edited slots (edits ++ more)) info) hasTrailing isPure'
                  place := by
  refine ⟨exists_ofParts_iff, fun slots hslots => ?_⟩
  obtain ⟨rfl, rfl, rfl⟩ := ofParts_eq_ok_iff.mp hslots
  refine ⟨⟨rfl, rfl, rfl⟩, fun edits => ?_⟩
  obtain ⟨hlength, -, -⟩ := counts_edited slots edits
  simp only [edited_append, length_labels, length_indices, ← hlength]
  refine ⟨by simpa only [hlength] using isIntact_edited slots edits, fun ls' hls' => ?_,
    fun ls' hls' => ?_, fun t ht owner called info => ?_⟩
  -- Labels that fit, labels that do not, and what the passes do.
  · obtain ⟨hlabels, -, hexpressions⟩ := parts_zipWith_relabel hls'
    rw [← apply_relabel_of_length_eq hls'] at hlabels hexpressions
    exact ⟨hlabels, hexpressions⟩
  · exact ⟨relabel_of_length_ne hls', apply_relabel_of_length_ne hls'⟩
  · have hedits := editsShuffles_passTransforms registry t ht
    exact ⟨hedits.onExpr_shuffle owner called _ info, fun callee hasTrailing isPure place =>
      hedits.onExpr_call owner called callee _ info hasTrailing isPure place⟩

def plotValues : List Expr :=
  [.name "x" false false {}, .name "y" false false {}, .name "z" false false {}]

/-- The arguments make a shuffle, and it stays intact whatever is done to it. -/
theorem isIntact_plotValues :
    ∃ slots, ofParts [none, some "scale", some "at"] [.present, .absent, .variadic 2] plotValues =
        .ok slots ∧
      ∀ edits, IsIntact [none, some "scale", some "at"] [.present, .absent, .variadic 2] 3
        (edited slots edits) := by
  obtain ⟨hiff, hkeeps⟩ := isIntact_of_ofParts [none, some "scale", some "at"]
    [.present, .absent, .variadic 2] plotValues .empty
  obtain ⟨slots, hslots⟩ := hiff.mpr ⟨rfl, rfl⟩
  exact ⟨slots, hslots, fun edits => ((hkeeps slots hslots).2 edits).1⟩

end Ferry
