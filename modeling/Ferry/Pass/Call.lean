/-
  Ferry.Pass.Call

  Calls of known functions: their labels become the names of the parameters, which is what named
  arguments of the target refer to, and calls of pure functions are marked.
-/
import Ferry.Program.View
import Ferry.Registry
import Ferry.Traverse.Transform

namespace Ferry.Pass

/-- Names in place of labels; an argument without a label stays without. -/
def relabelArguments (names : List String) (elements : List Argument) : List Argument :=
  List.zipWith (fun argument name =>
    if argument.label.isSome then ⟨some name, argument.value⟩ else argument) elements names

/-- Names in place of labels. Once a parameter takes its default, every later one must be named. -/
def relabelSlots : (afterAbsent : Bool) → List String → List Slot → List Slot
  | _, _ :: names, .absent _ :: slots => .absent none :: relabelSlots true names slots
  | afterAbsent, name :: names, slot :: slots =>
    slot.relabel (if slot.label.isSome || afterAbsent then some name else none) ::
      relabelSlots afterAbsent names slots
  | _, _, slots => slots

/-- The arguments of a call under the names of the parameters, one for each. -/
def relabelCall (names : List String) : (arguments : Expr) → Expr
  | .tuple elements info =>
    if elements.length = names.length then .tuple (relabelArguments names elements) info
    else .tuple elements info
  | .shuffle slots info =>
    if slots.length = names.length then .shuffle (relabelSlots false names slots) info
    else .shuffle slots info
  | e => e

def nameArguments (registry : Registry) : Expr → Expr
  | .call callee arguments hasTrailing isPure info =>
    match (callee.callKey? arguments).bind registry.parameterNames? with
    | some names => .call callee (relabelCall names arguments) hasTrailing isPure info
    | none => .call callee arguments hasTrailing isPure info
  | e => e

def callLabelsToParameterNames (registry : Registry) : Transform where
  expr _ e := nameArguments registry e

def markPure (registry : Registry) : Expr → Expr
  | .call callee arguments hasTrailing isPure info =>
    .call callee arguments hasTrailing (isPure || (callee.callKey? arguments).any registry.isPure)
      info
  | e => e

def pureCalls (registry : Registry) : Transform where
  expr _ e := markPure registry e

end Ferry.Pass
