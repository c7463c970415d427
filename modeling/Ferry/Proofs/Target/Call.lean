/-
  Ferry.Proofs.Target.Call

  Calls of the target language.  A call is written with arguments in parentheses, some of them
  behind the name of their parameter, and maybe a lambda after the parentheses;
  `exprDocument_call` gives the document of a call from these parts.

  The target hands the arguments out by its own rule: a named one goes to the parameter of that
  name, any other one to the parameter after the last one served, or to that one again if it is
  variadic, and a lambda after the parentheses goes to the last parameter.
-/
import Ferry.Pass.ClosureParameter
import Ferry.Source.Parameter
import Ferry.Target.Emit

namespace Ferry.Target

open Source (ParameterInfo)

/-! ## What is written -/

def slotArguments : Slot → List (Option String × Expr)
  | .absent _ => []
  | .present label value => [(label, value)]
  | .variadic _ values => values.map (none, ·)

def writtenArguments : (arguments : Expr) → List (Option String × Expr)
  | .tuple elements _ => elements.map fun argument => (argument.label, argument.value)
  | .shuffle slots _ => slots.flatMap slotArguments
  | .paren inner _ => [(none, inner)]
  | e => [(none, e)]

structure WrittenCall where
  inParentheses : List (Option String × Expr)
  /-- The lambda after the parentheses. -/
  lambda : Option Expr

namespace WrittenCall

/-- A closure at the end is written after the parentheses if the call allows it. -/
def of (arguments : List (Option String × Expr)) (hasTrailing : Bool) : WrittenCall :=
  match arguments.getLast? with
  | some (_, value) =>
    if hasTrailing && Pass.isClosure value then ⟨arguments.dropLast, some value⟩
    else ⟨arguments, none⟩
  | none => ⟨arguments, none⟩

def argumentDocument (registry : Registry) : Option String × Expr → Document
  | (some label, value) =>
    .cat [.text (identifier label ++ " = "), exprDocument registry .value value]
  | (none, value) => exprDocument registry .value value

def document (registry : Registry) (callee : Document) (call : WrittenCall) : Document :=
  let arguments := call.inParentheses.map (argumentDocument registry)
  match call.lambda with
  | some value =>
    let lambda := exprDocument registry .value value
    if arguments.isEmpty then .cat [callee, .text " ", lambda]
    else .list callee arguments (.cat [.text " ", lambda])
  | none => .list callee arguments (.text "")

end WrittenCall

/-- The callee of a call; the member `init` is left out. -/
def calleeDocument (registry : Registry) : (callee : Expr) → Document
  | .member base n isLibrary style info =>
    if isInitializer n then operand base (exprDocument registry .value base) .postfixed false
    else exprDocument registry .value (.member base n isLibrary style info)
  | callee => operand callee (exprDocument registry .value callee) .postfixed false

section

variable (registry : Registry)

def argumentItem : Option String × Expr → WrittenArgument
  | (label, value) => .ofExpr label value (exprDocument registry .value value)

theorem argumentItem_isClosure (argument : Option String × Expr) :
    (argumentItem registry argument).isClosure = Pass.isClosure argument.2 := by
  obtain ⟨label, value⟩ := argument
  cases value <;> rfl

theorem argumentItem_document (argument : Option String × Expr) :
    (argumentItem registry argument).document =
      WrittenCall.argumentDocument registry argument := by
  obtain ⟨label, value⟩ := argument
  cases label <;> rfl

theorem exprDocuments_eq_map (role : Role) (es : List Expr) :
    exprDocuments registry role es = es.map (exprDocument registry role) := by
  induction es with
  | nil => rfl
  | cons e rest ih => rw [List.map_cons, ← ih]; rfl

theorem argumentItems_eq_map (elements : List Argument) :
    argumentItems registry elements =
      elements.map fun argument => argumentItem registry (argument.label, argument.value) := by
  induction elements with
  | nil => rfl
  | cons argument rest ih =>
    obtain ⟨label, value⟩ := argument
    rw [List.map_cons, ← ih]
    rfl

theorem slotItems_eq_flatMap (slots : List Slot) :
    slotItems registry slots =
      slots.flatMap fun slot => (slotArguments slot).map (argumentItem registry) := by
  induction slots with
  | nil => rfl
  | cons slot rest ih =>
    rw [List.flatMap_cons, ← ih]
    cases slot with
    | absent label => rfl
    | present label value => rfl
    | variadic label values =>
      show List.zipWith _ values (exprDocuments registry .value values) ++ _ = _
      rw [exprDocuments_eq_map, List.zipWith_map_right, List.zipWith_self, slotArguments,
        List.map_map]
      rfl

theorem exprDocument_call_items (callee arguments : Expr) (hasTrailing isPure : Bool)
    (info : Info) : exprDocument registry .value (.call callee arguments hasTrailing isPure info) =
      callDocument (calleeDocument registry callee)
        ((writtenArguments arguments).map (argumentItem registry)) hasTrailing := by
  have hcall : exprDocument registry .value (.call callee arguments hasTrailing isPure info) =
      callDocument (calleeDocument registry callee)
        (match arguments with
          | .tuple elements _ => argumentItems registry elements
          | .shuffle slots _ => slotItems registry slots
          | .paren inner _ => [argumentItem registry (none, inner)]
          | arguments => [argumentItem registry (none, arguments)])
        hasTrailing := by
    cases callee <;> cases arguments <;> rfl
  rw [hcall]
  congr 1
  cases arguments with
  | tuple elements _ =>
    show argumentItems registry elements = _
    rw [argumentItems_eq_map, writtenArguments, List.map_map]
    rfl
  | shuffle slots _ =>
    show slotItems registry slots = _
    rw [slotItems_eq_flatMap, writtenArguments, List.map_flatMap]
  | _ => rfl

theorem exprDocument_call (callee arguments : Expr) (hasTrailing isPure : Bool) (info : Info) :
    exprDocument registry .value (.call callee arguments hasTrailing isPure info) =
      (WrittenCall.of (writtenArguments arguments) hasTrailing).document registry
        (calleeDocument registry callee) := by
  rw [exprDocument_call_items]
  generalize writtenArguments arguments = written
  have hdocuments : (written.map (argumentItem registry)).map WrittenArgument.document =
      written.map (WrittenCall.argumentDocument registry) := by
    rw [List.map_map]
    exact List.map_congr_left fun argument _ => argumentItem_document registry argument
  simp only [callDocument, WrittenCall.of, hdocuments, List.getLast?_map]
  cases hlast : written.getLast? with
  | none => rfl
  | some last =>
    simp only [Option.map_some, argumentItem_isClosure]
    split
    next =>
      -- The lambda leaves the parentheses, and with no argument left they go as well.
      have hne : written ≠ [] := by
        rintro rfl
        exact absurd hlast (by simp)
      have hone : (written.map (WrittenCall.argumentDocument registry)).length = 1 ↔
          (written.dropLast.map (WrittenCall.argumentDocument registry)).isEmpty = true := by
        have hpos := List.length_pos_iff.mpr hne
        rw [List.isEmpty_iff_length_eq_zero, List.length_map, List.length_map, List.length_dropLast]
        omega
      simp only [WrittenCall.document, hone, List.map_dropLast]
      rfl
    next => rfl

end

/-! ## How the target hands arguments out -/

/-- The parameter that an argument without a name goes to. -/
def nextPosition (parameters : List ParameterInfo) : (last : Option Nat) → Nat
  | none => 0
  | some i => if parameters[i]?.any ParameterInfo.isVariadic then i else i + 1

/-- The parameter that an argument goes to, if there is one. -/
def positionOf? (parameters : List ParameterInfo) (last : Option Nat) :
    (label : Option String) → Option Nat
  | some name => parameters.findIdx? fun p => p.name == name
  | none =>
    let i := nextPosition parameters last
    if i < parameters.length then some i else none

/-- The arguments in parentheses with the parameters they go to. -/
def placed? (parameters : List ParameterInfo) :
    (last : Option Nat) → List (Option String × Expr) → Option (List (Nat × Expr))
  | _, [] => some []
  | last, (label, value) :: rest => do
    let i ← positionOf? parameters last label
    return (i, value) :: (← placed? parameters (some i) rest)

/-- A lambda after the parentheses with the parameter it goes to. -/
def placedLambda? (parameters : List ParameterInfo) : Option Expr → Option (List (Nat × Expr))
  | none => some []
  | some value => if parameters.isEmpty then none else some [(parameters.length - 1, value)]

def shareAt (placed : List (Nat × Expr)) (i : Nat) : List Expr :=
  placed.filterMap fun (j, value) => if j = i then some value else none

/-- The arguments each parameter receives from a written call.  A parameter that receives none takes
    its default; only a variadic one receives more than one. -/
def received? (parameters : List ParameterInfo) (call : WrittenCall) :
    Option (List (List Expr)) := do
  let placed ← placed? parameters none call.inParentheses
  let lambda ← placedLambda? parameters call.lambda
  let found := (List.range parameters.length).map (shareAt (placed ++ lambda))
  if (parameters.zip found).all fun (p, share) => p.isVariadic || share.length ≤ 1 then some found
  else none

end Ferry.Target
