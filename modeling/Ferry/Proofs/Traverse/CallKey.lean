/-
  Ferry.Proofs.Traverse.CallKey

  The calls of a program and their keys.  A key is made of the name of the callee and the labels of
  the arguments; a transform that keeps both at every expression keeps them in every call
  (`calleeName?_onExpr`, `argumentLabels_onExpr`).  Labels and names without a colon make a key that
  tells how many labels it is made of (`length_eq_of_signatureKey_eq`).
-/
import Ferry.Proofs.Traverse.Trace

namespace Ferry

/-- The labels and slots of an argument list, without what stands in them. -/
def Expr.bare : (arguments : Expr) → Expr
  | .tuple elements _ => .tuple (elements.map fun argument => ⟨argument.label, .literal .nil {}⟩) {}
  | .shuffle slots _ => .shuffle (slots.map (Slot.mapValues fun _ => .literal .nil {})) {}
  | _ => .literal .nil {}

@[simp] theorem Expr.argumentLabels_mapParts (φ : Change) (e : Expr) :
    (e.mapParts φ).argumentLabels = e.argumentLabels := by
  cases e <;> simp [Expr.mapParts, Expr.argumentLabels, Function.comp_def]

@[simp] theorem Expr.bare_mapParts (φ : Change) (e : Expr) : (e.mapParts φ).bare = e.bare := by
  cases e <;> simp [Expr.mapParts, Expr.bare, Function.comp_def, Slot.mapValues_mapValues]

/-! ## Keys -/

namespace Transform

variable {t : Transform}

/-- A transform that keeps the name of every callee keeps it also with its parts changed. -/
theorem calleeName?_onExpr (h : ∀ called e, (t.expr called e).calleeName? = e.calleeName?)
    (owner : Option String) (called : Bool) (e : Expr) :
    (t.onExpr owner called e).calleeName? = e.calleeName? := by
  rw [onExpr_eq_mapParts]
  split
  next =>
    rw [h]
    cases e with
    | paren inner info => exact calleeName?_onExpr h owner false inner
    | _ => rfl
  next => rfl

theorem argumentLabels_onExpr
    (h : ∀ called e, (t.expr called e).argumentLabels = e.argumentLabels) (owner : Option String)
    (called : Bool) (e : Expr) : (t.onExpr owner called e).argumentLabels = e.argumentLabels := by
  rw [onExpr_eq_mapParts]
  split
  next => rw [h, Expr.argumentLabels_mapParts]
  next => rfl

end Transform

/-- That a text has no colon in it, as no identifier has. -/
def HasNoColon (text : String) : Prop :=
  ':' ∉ text.toList

instance (text : String) : Decidable (HasNoColon text) :=
  inferInstanceAs (Decidable (':' ∉ text.toList))

theorem count_colon_of_hasNoColon {text : String} (h : HasNoColon text) :
    text.toList.count ':' = 0 :=
  List.count_eq_zero.mpr h

theorem count_colon_signatureKey {name : String} {labels : List (Option String)}
    (hname : HasNoColon name) (hlabels : ∀ label ∈ labels, ∀ text ∈ label, HasNoColon text) :
    (signatureKey name labels).toList.count ':' = labels.length := by
  have hlabel : ∀ label ∈ labels, (label.getD "_" ++ ":").toList.count ':' = 1 := by
    intro label hmem
    rw [String.toList_append, List.count_append]
    cases label with
    | none => rfl
    | some text =>
      rw [Option.getD_some, count_colon_of_hasNoColon (hlabels _ hmem text rfl)]
      rfl
  -- One colon for each label, and none elsewhere.
  have hjoin : (String.join (labels.map fun label => label.getD "_" ++ ":")).toList.count ':' =
      labels.length := by
    rw [String.toList_join, List.flatMap_map, List.count_flatMap]
    have hones : labels.map (List.count ':' ∘ fun label : Option String =>
        (label.getD "_" ++ ":").toList) = labels.map fun _ => 1 :=
      List.map_congr_left hlabel
    rw [hones, List.map_const', List.sum_replicate_nat]
    omega
  rw [signatureKey, String.toList_append, String.toList_append, String.toList_append,
    List.count_append, List.count_append, List.count_append, hjoin,
    count_colon_of_hasNoColon hname]
  show 0 + 0 + labels.length + 0 = labels.length
  omega

theorem length_eq_of_signatureKey_eq {name other : String} {labels more : List (Option String)}
    (hname : HasNoColon name) (hlabels : ∀ label ∈ labels, ∀ text ∈ label, HasNoColon text)
    (hother : HasNoColon other) (hmore : ∀ label ∈ more, ∀ text ∈ label, HasNoColon text)
    (h : signatureKey name labels = signatureKey other more) : labels.length = more.length := by
  rw [← count_colon_signatureKey hname hlabels, h, count_colon_signatureKey hother hmore]

/-! ## Calls -/

structure CallExpr where
  callee : Expr
  arguments : Expr
  hasTrailing : Bool
  isPure : Bool
  info : Info

namespace CallExpr

def ofExpr : Expr → List CallExpr
  | .call callee arguments hasTrailing isPure info =>
    [⟨callee, arguments, hasTrailing, isPure, info⟩]
  | _ => []

abbrev survey : Survey CallExpr := .nodes ofExpr

def key? (call : CallExpr) : Option String := call.callee.callKey? call.arguments

/-- That the name and the labels have no colon in them. -/
structure IsPlain (call : CallExpr) : Prop where
  name : ∀ name ∈ call.callee.calleeName?, HasNoColon name
  labels : ∀ label ∈ call.arguments.argumentLabels, ∀ text ∈ label, HasNoColon text

end CallExpr

end Ferry
