/-
  Ferry.Proofs.Pass.Relabel

  Calls under the names of the parameters.  All files are learned from before any of them is
  changed, so a call finds the names of the function it means wherever that is declared.

  `calls_callLabelsToParameterNames` goes through the calls of a file in order, those in arguments
  and closures included.  If one function alone has the key of a call, each label becomes the name
  of the parameter at its position; in slots, so does every argument behind a parameter that takes
  its default.  If no function has the key, the labels stay.
-/
import Ferry.Proofs.Pass.Declaration
import Ferry.Proofs.Traverse.CallKey

namespace Ferry

def Slot.isAbsent : Slot → Bool
  | .absent _ => true
  | _ => false

namespace Pass

/-! ## What becomes of arguments -/

/-- Arguments under names: a labelled one takes the name at its position, in slots also one behind
    an absent slot, and every other one is without a label.  Values are changed but stay in
    order. -/
def NamedAs (change : Expr → Expr) (names : List String) : (before after : Expr) → Prop
  | .tuple elements info, after =>
    ∃ elements' : List Argument, after = .tuple elements' info ∧ elements'.length =
      elements.length ∧ elements.length = names.length ∧
      ∀ (i : Nat) (argument : Argument) (name : String), elements[i]? = some argument →
        names[i]? = some name → elements'[i]? =
          some ⟨if argument.label.isSome then some name else none, change argument.value⟩
  | .shuffle slots info, after =>
    ∃ slots' : List Slot, after = .shuffle slots' info ∧ slots'.length = slots.length ∧
      slots.length = names.length ∧
      ∀ (i : Nat) (slot : Slot) (name : String), slots[i]? = some slot → names[i]? = some name →
        slots'[i]? = some ((slot.mapValues change).relabel
          (if !slot.isAbsent && (slot.label.isSome || (slots.take i).any Slot.isAbsent) then
            some name
          else none))
  | before, after => after = change before

/-- Arguments under their own labels; values are changed but stay in order. -/
def KeepsLabels (change : Expr → Expr) : (before after : Expr) → Prop
  | .tuple elements info, after =>
    after = .tuple (elements.map fun argument => ⟨argument.label, change argument.value⟩) info
  | .shuffle slots info, after => after = .shuffle (slots.map (Slot.mapValues change)) info
  | before, after => after = change before

theorem length_relabelArguments {names : List String} {elements : List Argument}
    (h : elements.length = names.length) :
    (relabelArguments names elements).length = elements.length := by
  rw [relabelArguments, List.length_zipWith, h, Nat.min_self]

theorem length_relabelSlots (afterAbsent : Bool) (names : List String) (slots : List Slot) :
    (relabelSlots afterAbsent names slots).length = slots.length := by
  fun_induction relabelSlots afterAbsent names slots with
  | case1 _ _ names _ slots ih => rw [List.length_cons, List.length_cons, ih]
  | case2 afterAbsent name names slot slots _ ih => rw [List.length_cons, List.length_cons, ih]
  | case3 => rfl

theorem getElem?_relabelArguments {names : List String} {elements : List Argument} {i : Nat}
    {argument : Argument} {name : String} (hargument : elements[i]? = some argument)
    (hname : names[i]? = some name) :
    (relabelArguments names elements)[i]? =
      some ⟨if argument.label.isSome then some name else none, argument.value⟩ := by
  obtain ⟨label, value⟩ := argument
  rw [relabelArguments, List.getElem?_zipWith, hargument, hname]
  cases label <;> rfl

/-- The label of a slot depends on the slots before it. -/
theorem getElem?_relabelSlots {afterAbsent : Bool} {names : List String}
    {slots : List Slot} {i : Nat}
    {slot : Slot} {name : String} (hslot : slots[i]? = some slot) (hname : names[i]? = some name) :
    (relabelSlots afterAbsent names slots)[i]? = some (slot.relabel
      (if !slot.isAbsent && (slot.label.isSome || (afterAbsent || (slots.take i).any Slot.isAbsent))
        then some name else none)) := by
  -- `afterAbsent` carries what the slots before the rest have shown
  induction slots generalizing afterAbsent names i with
  | nil => exact absurd hslot (by simp)
  | cons first rest ih =>
    cases names with
    | nil => exact absurd hname (by simp)
    | cons firstName restNames =>
      cases i with
      | zero =>
        obtain rfl := Option.some.inj hslot
        obtain rfl := Option.some.inj hname
        cases first <;> simp [relabelSlots, Slot.relabel, Slot.isAbsent]
      | succ i =>
        rw [List.getElem?_cons_succ] at hslot hname
        cases first with
        | absent label =>
          rw [relabelSlots, List.getElem?_cons_succ, ih hslot hname, List.take_succ_cons]
          simp [Slot.isAbsent]
        | present label value =>
          rw [relabelSlots, List.getElem?_cons_succ, ih hslot hname, List.take_succ_cons]
          · simp [Slot.isAbsent]
          · simp
        | variadic label values =>
          rw [relabelSlots, List.getElem?_cons_succ, ih hslot hname, List.take_succ_cons]
          · simp [Slot.isAbsent]
          · simp

/-! ## What becomes of a call -/

/-- The arguments of a call as naming leaves them. -/
def namedArguments (registry : Registry) (callee arguments : Expr) : Expr :=
  match (callee.callKey? arguments).bind registry.parameterNames? with
  | some names => relabelCall names arguments
  | none => arguments

theorem nameArguments_call (registry : Registry) (callee arguments : Expr)
    (hasTrailing isPure : Bool) (info : Info) :
    nameArguments registry (.call callee arguments hasTrailing isPure info) =
      .call callee (namedArguments registry callee arguments) hasTrailing isPure info := by
  cases hnames : (callee.callKey? arguments).bind registry.parameterNames? <;>
    simp only [nameArguments, namedArguments, hnames]

section

variable (registry : Registry)

theorem calleeName?_nameArguments (e : Expr) :
    (nameArguments registry e).calleeName? = e.calleeName? := by
  cases e with
  | call callee arguments hasTrailing isPure info => rw [nameArguments_call]; rfl
  | _ => rfl

theorem argumentLabels_nameArguments (e : Expr) :
    (nameArguments registry e).argumentLabels = e.argumentLabels := by
  cases e with
  | call callee arguments hasTrailing isPure info => rw [nameArguments_call]; rfl
  | _ => rfl

theorem calleeName?_onExpr_callLabels (owner : Option String) (called : Bool) (e : Expr) :
    ((callLabelsToParameterNames registry).onExpr owner called e).calleeName? = e.calleeName? :=
  Transform.calleeName?_onExpr (fun _ e => calleeName?_nameArguments registry e) owner called e

theorem argumentLabels_onExpr_callLabels (owner : Option String) (called : Bool) (e : Expr) :
    ((callLabelsToParameterNames registry).onExpr owner called e).argumentLabels =
      e.argumentLabels :=
  Transform.argumentLabels_onExpr (fun _ e => argumentLabels_nameArguments registry e) owner
    called e

theorem onExpr_call (owner : Option String) (called : Bool) (callee arguments : Expr)
    (hasTrailing isPure : Bool) (info : Info) :
    (callLabelsToParameterNames registry).onExpr owner called
        (.call callee arguments hasTrailing isPure info) =
      .call ((callLabelsToParameterNames registry).onExpr owner true callee)
        (namedArguments registry ((callLabelsToParameterNames registry).onExpr owner true callee)
          ((callLabelsToParameterNames registry).onExpr owner false arguments))
        hasTrailing isPure info :=
  nameArguments_call registry _ _ hasTrailing isPure info

theorem onExpr_tuple (owner : Option String) (elements : List Argument) (info : Info) :
    (callLabelsToParameterNames registry).onExpr owner false (.tuple elements info) =
      .tuple (elements.map fun argument => ⟨argument.label,
        (callLabelsToParameterNames registry).onExpr owner false argument.value⟩) info := by
  rw [← Transform.onArguments_eq_map]
  rfl

theorem onExpr_shuffle (owner : Option String) (slots : List Slot) (info : Info) :
    (callLabelsToParameterNames registry).onExpr owner false (.shuffle slots info) =
      .shuffle (slots.map (Slot.mapValues
        ((callLabelsToParameterNames registry).onExpr owner false))) info := by
  rw [← Transform.onSlots_eq_map]
  rfl

end

@[simp] theorem isAbsent_mapValues (g : Expr → Expr) (slot : Slot) :
    (slot.mapValues g).isAbsent = slot.isAbsent := by
  cases slot <;> rfl

theorem namedAs_relabelCall (registry : Registry) (owner : Option String) {names : List String}
    {arguments : Expr} (h : arguments.argumentLabels.length = names.length) :
    NamedAs ((callLabelsToParameterNames registry).onExpr owner false) names arguments
      (relabelCall names
        ((callLabelsToParameterNames registry).onExpr owner false arguments)) := by
  cases arguments with
  | tuple elements info =>
    have hlength : elements.length = names.length := by simpa [Expr.argumentLabels] using h
    rw [onExpr_tuple, relabelCall, if_pos (by simpa using hlength)]
    refine ⟨_, rfl, by rw [length_relabelArguments (by simpa using hlength), List.length_map],
      hlength, ?_⟩
    -- The values have been walked before they get their names, which leaves their labels alone.
    intro i argument name hargument hname
    have hchanged : (elements.map fun argument => (⟨argument.label,
        (callLabelsToParameterNames registry).onExpr owner false argument.value⟩ : Argument))[i]? =
          some ⟨argument.label,
            (callLabelsToParameterNames registry).onExpr owner false argument.value⟩ := by
      rw [List.getElem?_map, hargument]
      rfl
    exact getElem?_relabelArguments hchanged hname
  | shuffle slots info =>
    have hlength : slots.length = names.length := by simpa [Expr.argumentLabels] using h
    rw [onExpr_shuffle, relabelCall, if_pos (by simpa using hlength)]
    refine ⟨_, rfl, by rw [length_relabelSlots, List.length_map], hlength, ?_⟩
    intro i slot name hslot hname
    rw [getElem?_relabelSlots (by rw [List.getElem?_map, hslot]; rfl) hname, ← List.map_take,
      List.any_map]
    simp [Function.comp_def]
  -- A call that stands for arguments is renamed itself, but has no labels of its own.
  | call callee arguments hasTrailing isPure info =>
    show relabelCall names ((callLabelsToParameterNames registry).onExpr owner false _) =
      (callLabelsToParameterNames registry).onExpr owner false _
    rw [onExpr_call]
    rfl
  | _ => rfl

theorem keepsLabels_onExpr (registry : Registry) (owner : Option String) (arguments : Expr) :
    KeepsLabels ((callLabelsToParameterNames registry).onExpr owner false) arguments
      ((callLabelsToParameterNames registry).onExpr owner false arguments) := by
  cases arguments with
  | tuple elements info => exact onExpr_tuple registry owner elements info
  | shuffle slots info => exact onExpr_shuffle registry owner slots info
  | _ => rfl

/-! ## The calls of a file -/

theorem map_value_relabelArguments {names : List String} {elements : List Argument}
    (h : elements.length = names.length) :
    (relabelArguments names elements).map Argument.value = elements.map Argument.value := by
  apply List.ext_getElem?
  intro i
  rw [List.getElem?_map, List.getElem?_map]
  cases hargument : elements[i]? with
  | none =>
    have hnone : (relabelArguments names elements)[i]? = none := by
      rw [List.getElem?_eq_none_iff, length_relabelArguments h]
      exact List.getElem?_eq_none_iff.mp hargument
    rw [hnone]
  | some argument =>
    obtain ⟨hlt, -⟩ := List.getElem?_eq_some_iff.mp hargument
    rw [getElem?_relabelArguments hargument (List.getElem?_eq_getElem (h ▸ hlt))]
    simp

@[simp] theorem values_relabel (label : Option String) (slot : Slot) :
    (slot.relabel label).values = slot.values := by
  cases slot <;> rfl

theorem flatMap_values_relabelSlots (afterAbsent : Bool) (names : List String) (slots : List Slot) :
    (relabelSlots afterAbsent names slots).flatMap Slot.values = slots.flatMap Slot.values := by
  fun_induction relabelSlots afterAbsent names slots with
  | case1 _ _ names _ slots ih => rw [List.flatMap_cons, List.flatMap_cons, ih]; rfl
  | case2 afterAbsent name names slot slots _ ih =>
    rw [List.flatMap_cons, List.flatMap_cons, ih, values_relabel]
  | case3 => rfl

theorem ofExpr_relabelCall (names : List String) (arguments : Expr) :
    CallExpr.survey.ofExpr (relabelCall names arguments) = CallExpr.survey.ofExpr arguments := by
  cases arguments with
  | tuple elements info =>
    rw [relabelCall]
    split
    next h =>
      -- Names are given one by one, so that the values stay where they are.
      have hparts := congrArg (List.map Part.value) (map_value_relabelArguments h)
      rw [List.map_map, List.map_map] at hparts
      rw [CallExpr.survey, Survey.ofExpr_nodes, Survey.ofExpr_nodes]
      exact congrArg (CallExpr.survey.ofPartList · ++ []) hparts
    next => rfl
  | shuffle slots info =>
    rw [relabelCall]
    split
    next =>
      have hparts := congrArg (List.map Part.value) (flatMap_values_relabelSlots false names slots)
      rw [List.map_flatMap, List.map_flatMap] at hparts
      rw [CallExpr.survey, Survey.ofExpr_nodes, Survey.ofExpr_nodes]
      exact congrArg (CallExpr.survey.ofPartList · ++ []) hparts
    next => rfl
  | _ => rfl

theorem ofPartList_nameArguments (registry : Registry) (e : Expr) :
    CallExpr.survey.ofPartList (nameArguments registry e).parts =
      CallExpr.survey.ofPartList e.parts := by
  cases e with
  | call callee arguments hasTrailing isPure info =>
    rw [nameArguments_call]
    simp only [Expr.parts, Survey.ofPartList_cons, Survey.ofFragment_value, namedArguments]
    split
    next => rw [ofExpr_relabelCall]
    next => rfl
  | _ => rfl

/-- What the pass makes of a call inside a type declaration or outside of all. -/
def namedCall (registry : Registry) (owner : Option String) (call : CallExpr) : CallExpr where
  callee := (callLabelsToParameterNames registry).onExpr owner true call.callee
  arguments := namedArguments registry
    ((callLabelsToParameterNames registry).onExpr owner true call.callee)
    ((callLabelsToParameterNames registry).onExpr owner false call.arguments)
  hasTrailing := call.hasTrailing
  isPure := call.isPure
  info := call.info

theorem forall₂_namedCall (registry : Registry) (file : SourceFile) :
    List.Forall₂ (fun before after => ∃ owner, after = namedCall registry owner before)
      (CallExpr.survey.ofFile file)
      (CallExpr.survey.ofFile ((callLabelsToParameterNames registry).onFile file)) := by
  have htraces : (callLabelsToParameterNames registry).Traces CallExpr.ofExpr
      (List.Forall₂ fun before after => ∃ owner, after = namedCall registry owner before) := by
    refine .ofNodes .nil (fun hfirst hrest => List.rel_append hfirst hrest) (fun _ => rfl)
      (fun _ => rfl) (fun _ _ => rfl) (fun _ => rfl)
      (fun _ e => ofPartList_nameArguments registry e) ?_
    intro owner called e
    cases e with
    | call callee arguments hasTrailing isPure info =>
      show List.Forall₂ _ _ (CallExpr.ofExpr (nameArguments registry (.call ..)))
      rw [nameArguments_call]
      exact .cons ⟨owner, rfl⟩ .nil
    | _ => exact .nil
  exact htraces.ofFile_onFile file

/-! ## Calls of declared functions -/

/-- That the name and the labels of a function have no colon in them. -/
structure Declaration.IsPlain (d : Declaration) : Prop where
  name : HasNoColon (calledName d.head d.owner)
  labels : ∀ label ∈ d.labels, ∀ text ∈ label, HasNoColon text

/-- What naming makes of a call, given the files of a program: a call with the key of one function
    is under the names of its parameters, and a call with a key that no function has is under the
    labels it had.  Calls inside it are changed by the same transform. -/
structure IsNamed (files : List SourceFile) (t : Transform) (owner : Option String)
    (before after : CallExpr) : Prop where
  callee : after.callee = t.onExpr owner true before.callee
  name : after.callee.calleeName? = before.callee.calleeName?
  hasTrailing : after.hasTrailing = before.hasTrailing
  isPure : after.isPure = before.isPure
  info : after.info = before.info
  known : ∀ d, Declared files d → (∀ g, Declared files g → g.key = d.key → g.names = d.names) →
    d.IsPlain → before.IsPlain → before.key? = some d.key →
      NamedAs (t.onExpr owner false) d.names before.arguments after.arguments
  unknown : (∀ d, Declared files d → before.key? ≠ some d.key) →
    KeepsLabels (t.onExpr owner false) before.arguments after.arguments

section

variable {files : List SourceFile} {facts : List Fact}

theorem callKey?_onExpr_callLabels (registry : Registry) (owner : Option String) (call : CallExpr) :
    ((callLabelsToParameterNames registry).onExpr owner true call.callee).callKey?
      ((callLabelsToParameterNames registry).onExpr owner false call.arguments) = call.key? := by
  rw [CallExpr.key?, Expr.callKey?, Expr.callKey?, calleeName?_onExpr_callLabels,
    argumentLabels_onExpr_callLabels]

theorem length_argumentLabels_of_key {d : Declaration} {call : CallExpr} (hd : d.IsPlain)
    (hcall : call.IsPlain) (hkey : call.key? = some d.key) :
    call.arguments.argumentLabels.length = d.names.length := by
  rw [CallExpr.key?, Expr.callKey?, Option.map_eq_some_iff] at hkey
  obtain ⟨name, hname, hkey⟩ := hkey
  rw [length_eq_of_signatureKey_eq (hcall.name name hname) hcall.labels hd.name hd.labels hkey,
    Declaration.labels, Declaration.names, List.length_map, List.length_map]

theorem isNamed_namedCall (h : LearnedFrom files facts) (owner : Option String) (call : CallExpr) :
    IsNamed files (callLabelsToParameterNames (Registry.empty.recordAll facts)) owner call
      (namedCall (Registry.empty.recordAll facts) owner call) where
  callee := rfl
  name := calleeName?_onExpr_callLabels _ owner true call.callee
  hasTrailing := rfl
  isPure := rfl
  info := rfl
  known d hd hunique hplain hcall hkey := by
    rw [namedCall, namedArguments, callKey?_onExpr_callLabels, hkey, Option.bind_some,
      parameterNames?_of_declared h hd hunique]
    exact namedAs_relabelCall _ owner (length_argumentLabels_of_key hplain hcall hkey)
  unknown hkey := by
    -- No declaration is recorded under this key, or there is no key.
    have hnames : call.key?.bind (Registry.empty.recordAll facts).parameterNames? = none := by
      cases hcall : call.key? with
      | none => rfl
      | some key =>
        refine parameterNames?_of_not_declared h fun d hd hdkey => ?_
        exact hkey d hd (by rw [hcall, hdkey])
    rw [namedCall, namedArguments, callKey?_onExpr_callLabels, hnames]
    exact keepsLabels_onExpr _ owner call.arguments

/-- Once all files have been learned from, in any order, every call of every file that is then
    changed is named as the functions of the program ask for. -/
theorem calls_callLabelsToParameterNames (h : LearnedFrom files facts) (file : SourceFile) :
    ∃ earlier after later,
      Pipeline.transform [] (Registry.empty.recordAll facts) file =
        earlier ++ ⟨.callLabelsToParameterNames, after, []⟩ :: later ∧
      List.Forall₂ (fun call call' => ∃ owner,
          IsNamed files (callLabelsToParameterNames (Registry.empty.recordAll facts))
          owner call call')
        (CallExpr.survey.ofFile (Stage.lastFile file earlier)) (CallExpr.survey.ofFile after) := by
  rw [Pipeline.transform_eq, PassId.transforming_eq, Pipeline.transformFrom_append]
  refine ⟨_, _, _, rfl, ?_⟩
  rw [Pipeline.lastFile_transformFrom]
  refine (forall₂_namedCall _ _).imp fun call call' hcall => ?_
  obtain ⟨owner, rfl⟩ := hcall
  exact ⟨owner, isNamed_namedCall h owner call⟩

end

/-- A function whose label is not the name of its parameter. -/
def areaFunction : Declaration :=
  ⟨none, { name := "area" }, [⟨some "of", "shape", "Int", none, false⟩]⟩

def areaFile : SourceFile where
  path := "area"
  declarations := [.function areaFunction.head areaFunction.parameters none none]

def areaCall : CallExpr :=
  ⟨.name "area" false false {}, .tuple [⟨some "of", .literal (.int 1) {}⟩] {}, false, false, {}⟩

def callerFile : SourceFile :=
  { path := "caller"
    statements := [.expression (.closure [] [.expression (.call areaCall.callee areaCall.arguments
      areaCall.hasTrailing areaCall.isPure areaCall.info) none] {}) none] }

/-- The function is found though the file with the call is learned from first. -/
theorem calls_callLabelsToParameterNames_areaFile :
    LearnedFrom [areaFile, callerFile]
        ((Pipeline.collect [] callerFile).2 ++ (Pipeline.collect [] areaFile).2) ∧
      Declared [areaFile, callerFile] areaFunction ∧
      (∀ g, Declared [areaFile, callerFile] g → g.key = areaFunction.key →
        g.names = areaFunction.names) ∧
      areaFunction.IsPlain ∧ areaCall.IsPlain ∧ areaCall.key? = some areaFunction.key ∧
      ∃ earlier after later,
        Pipeline.transform [] (Registry.empty.recordAll
            ((Pipeline.collect [] callerFile).2 ++ (Pipeline.collect [] areaFile).2)) callerFile =
          earlier ++ ⟨.callLabelsToParameterNames, after, []⟩ :: later ∧
        List.Forall₂ (fun call call' => ∃ owner,
            IsNamed [areaFile, callerFile] (callLabelsToParameterNames (Registry.empty.recordAll
              ((Pipeline.collect [] callerFile).2 ++ (Pipeline.collect [] areaFile).2)))
              owner call call')
          (CallExpr.survey.ofFile (Stage.lastFile callerFile earlier))
          (CallExpr.survey.ofFile after) := by
  have hlearned : LearnedFrom [areaFile, callerFile]
      ((Pipeline.collect [] callerFile).2 ++ (Pipeline.collect [] areaFile).2) := by
    rw [LearnedFrom, List.flatMap_cons, List.flatMap_singleton]
    exact List.perm_append_comm
  refine ⟨hlearned, ⟨areaFile, List.mem_cons_self, .inl (.here List.mem_cons_self)⟩, ?_,
    ⟨by decide, by decide⟩, ⟨by decide, by decide⟩, by decide,
    calls_callLabelsToParameterNames hlearned callerFile⟩
  · intro g hg _
    obtain ⟨file, hfile, hg⟩ := hg
    -- What is recorded in each file is known, so the name of `g` can be read from it.
    have hfact : Fact.function g.key g.names ∈ functionsOfFile file :=
      mem_functionsOfFile.mpr ⟨g, hg, Declaration.function_mem_facts.mpr ⟨rfl, rfl⟩⟩
    obtain rfl | hfile := List.mem_cons.mp hfile
    · have hfact := List.mem_singleton.mp hfact
      rw [Fact.function.injEq] at hfact
      exact hfact.2
    · obtain rfl := List.mem_singleton.mp hfile
      exact absurd hfact List.not_mem_nil

end Pass

end Ferry
