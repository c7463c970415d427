/-
  Ferry.Proofs.Target.Supply

  Arguments from the nodes of a call to the written call.  Whatever the callee is declared as, the
  arguments are written as they were read, a trailing closure last: nothing is lost or written
  twice, and the slots of a shuffle hold what was bound to their parameters (`KeepsArguments`).  A
  binding takes every argument once, so its slots always make a shuffle, and a call fails only if
  there is no binding (`arrange_cases`, `keepsArguments_of_readCall`).
-/
import Ferry.Proofs.Source.Arrangement
import Ferry.Proofs.Source.Outcome
import Ferry.Proofs.Source.Site
import Ferry.Proofs.Target.Call

namespace Ferry.Target

open Source Source.Adapter

/-! ## Argument nodes -/

theorem map_snd_slotArguments (slot : Slot) : (slotArguments slot).map Prod.snd = slot.values := by
  cases slot with
  | absent label => rfl
  | present label value => rfl
  | variadic label values =>
    rw [slotArguments, List.map_map]
    exact List.map_id values

theorem map_snd_writtenArguments_shuffle (slots : List Slot) (info : Info) :
    (writtenArguments (.shuffle slots info)).map Prod.snd = Shuffle.expressions slots := by
  rw [writtenArguments, List.map_flatMap, Shuffle.expressions, ← List.flatMap_def]
  exact List.flatMap_congr fun slot _ => map_snd_slotArguments slot

theorem map_snd_writtenArguments_tuple (elements : List Argument) (info : Info) :
    (writtenArguments (.tuple elements info)).map Prod.snd = elements.map Argument.value := by
  rw [writtenArguments, List.map_map]
  rfl

/-- That the arguments of a call are all in its argument node, and in a shuffle with the parameters
that they are bound to. -/
structure KeepsArguments (declaration : Option String) (regular : List Argument)
    (trailing : Option Expr) (arguments : Expr) : Prop where
  written : (writtenArguments arguments).map Prod.snd =
    regular.map Argument.value ++ trailing.toList
  slots : ∀ slots info, arguments = .shuffle slots info → ∃ text ps binding,
    declaration = some text ∧ parameterClause? text = some ps ∧
      bindArguments ps (regular.map Argument.label) trailing.isSome = some binding ∧
      slots.map Slot.label = ps.map ParameterInfo.label ∧
      List.Forall₂ (fun slot bound => slot.values.map some =
        bound.map ((regular.map Argument.value ++ trailing.toList)[·]?)) slots binding

section

variable {declaration : Option String} {regular : List Argument} {trailing : Option Expr}

theorem map_value_supplied (regular : List Argument) (trailing : Option Expr) :
    (supplied regular trailing).map Argument.value =
      regular.map Argument.value ++ trailing.toList := by
  rw [supplied, List.map_append, List.map_map]
  exact congrArg _ (List.map_id _)

theorem keepsArguments_tuple :
    KeepsArguments declaration regular trailing (.tuple (supplied regular trailing) {}) where
  written := by rw [map_snd_writtenArguments_tuple, map_value_supplied]
  slots slots info h := by cases h

theorem map_some_share {values : List Expr} {bound : List Nat}
    (h : ∀ i ∈ bound, i < values.length) :
    (bound.filterMap (values[·]?)).map some = bound.map (values[·]?) := by
  induction bound with
  | nil => rfl
  | cons i rest ih =>
    obtain ⟨hi, hrest⟩ := List.forall_mem_cons.mp h
    rw [List.filterMap_cons_some (List.getElem?_eq_getElem hi), List.map_cons, List.map_cons,
      ih hrest, List.getElem?_eq_getElem hi]

theorem keepsArguments_shuffle {text : String} {ps : List ParameterInfo} {binding : Binding}
    {info : Info} (hdeclaration : declaration = some text) (hps : parameterClause? text = some ps)
    (hbind : bindArguments ps (regular.map Argument.label) trailing.isSome = some binding) :
    KeepsArguments declaration regular trailing
      (.shuffle (List.zipWith slotOf ps
        (shares binding ((supplied regular trailing).map Argument.value))) info) := by
  have hfits := forall₂_fitsIn_bindArguments hbind
  have hflat := flatten_of_bindArguments hbind
  rw [← List.length_map Argument.value] at hflat
  -- Only arguments that were supplied are bound.
  have hlt : ∀ i ∈ binding.flatten,
      i < ((supplied regular trailing).map Argument.value).length := by
    rw [hflat]
    simp
  obtain ⟨hlabels, -, hvalues⟩ := parts_zipWith_slotOf hfits (forall₂_length_shares hlt)
  constructor
  · rw [map_snd_writtenArguments_shuffle, Shuffle.expressions, hvalues, flatten_shares hflat,
      map_value_supplied]
  · intro slots info' h
    obtain ⟨rfl, -⟩ := Expr.shuffle.inj h
    refine ⟨text, ps, binding, hdeclaration, hps, hbind, hlabels, ?_⟩
    rw [← map_value_supplied]
    have hshares : List.Forall₂ (fun share bound => share.map some =
        bound.map (((supplied regular trailing).map Argument.value)[·]?))
        (shares binding ((supplied regular trailing).map Argument.value)) binding := by
      rw [shares, List.forall₂_map_left_iff, List.forall₂_same]
      exact fun bound hbound => map_some_share fun i hi => hlt i (List.mem_flatten_of_mem hbound hi)
    rw [← hvalues, List.forall₂_map_left_iff] at hshares
    exact hshares

/-- Arguments are put together, and all of them are kept, unless the callee is declared with
    parameters to which they cannot be bound. -/
theorem arrange_cases (declaration : Option String) (regular : List Argument)
    (trailing : Option Expr) (span : Span) :
    (∃ arguments, arrange declaration regular trailing span = .ok arguments ∧
      KeepsArguments declaration regular trailing arguments) ∨
    ∃ text ps, declaration = some text ∧ parameterClause? text = some ps ∧
      bindArguments ps (regular.map Argument.label) trailing.isSome = none ∧
      arrange declaration regular trailing span =
        .error (.mismatch (regular.map Argument.label) text) := by
  cases declaration with
  | none => exact .inl ⟨_, rfl, keepsArguments_tuple⟩
  | some text =>
    cases hps : parameterClause? text with
    -- A declaration that is no parameter clause says nothing of its arguments.
    | none =>
      refine .inl ⟨.tuple (supplied regular trailing) {}, ?_, keepsArguments_tuple⟩
      simp only [arrange, hps]
    | some ps =>
      have harrange : arrange (some text) regular trailing span =
          arrangeFor ps text regular trailing span := by
        simp only [arrange, hps]
      rw [harrange]
      cases hbind : bindArguments ps (regular.map Argument.label) trailing.isSome with
      | none =>
        refine .inr ⟨text, ps, rfl, hps, hbind, ?_⟩
        simp only [arrangeFor, hbind]
      | some binding =>
        refine .inl ⟨_, arrangeFor_eq text span hbind, ?_⟩
        split
        next => exact keepsArguments_tuple
        next => exact keepsArguments_shuffle rfl hps hbind

end

/-! ## Calls -/

theorem forall₂_of_readArguments {tables : SideTables} {n : Node} {regular : List Argument}
    (h : Yields tables (readArguments (n.children.map Node.site)) regular) :
    List.Forall₂ (fun argument read => read.label = argumentLabel argument ∧
      Yields tables (argumentValue argument.site) read.value) (n.childrenOf .argument) regular := by
  rw [readArguments, ofKind_map_site] at h
  refine (List.forall₂_map_left_iff.mp (yields_mapM h)).imp fun argument read hread => ?_
  obtain ⟨value, hvalue, hread⟩ := yields_bind hread
  obtain rfl := yields_pure hread
  rw [node_site]
  exact ⟨rfl, hvalue⟩

/-- A call is read as a call that keeps every argument as it was read, the trailing closure last, or
    else its arguments cannot be bound to the declared parameters. -/
theorem keepsArguments_of_readCall {tables : SideTables} {n callee : Node} {place : Info} {e : Expr}
    (hcallee : n.child? "function" = some callee)
    (h : Yields tables (readCall n (n.children.map Node.site) place) e) :
    ∃ function regular trailing,
      Yields tables callee.site.expr function ∧
      List.Forall₂ (fun argument read => read.label = argumentLabel argument ∧
        Yields tables (argumentValue argument.site) read.value) (n.childrenOf .argument) regular ∧
      Option.Rel (fun closure value => Yields tables closure.site.expr value)
        (n.child? "trailing_closure") trailing ∧
      ((∃ arguments, e = .call function arguments trailing.isSome false place ∧
          (∀ registry, exprDocument registry .value e =
            callDocument (calleeDocument registry function)
              ((writtenArguments arguments).map (argumentItem registry)) trailing.isSome) ∧
          KeepsArguments (calleeDeclaration? tables.symbols callee.head) regular trailing
            arguments) ∨
        ∃ found text ps, e = .error found (some n.head.span) ∧
          found.code = some .argumentMismatch ∧
          calleeDeclaration? tables.symbols callee.head = some text ∧
          parameterClause? text = some ps ∧
          bindArguments ps (regular.map Argument.label) trailing.isSome = none) := by
  rw [readCall, inRole?_map_site, hcallee, inRole?_map_site] at h
  obtain ⟨function, hfunction, h⟩ := yields_bind h
  obtain ⟨regular, hregular, h⟩ := yields_bind h
  obtain ⟨trailing, htrailing, h⟩ := yields_bind h
  obtain ⟨found, hfound, h⟩ := yields_bind h
  obtain rfl := yields_read hfound
  dsimp only at h
  rw [Site.head, node_site] at h
  have hrel : Option.Rel (fun closure value => Yields found closure.site.expr value)
      (n.child? "trailing_closure") trailing := by
    have hrel := rel_of_yields_mapM htrailing
    cases hclosure : n.child? "trailing_closure" with
    | none =>
      rw [hclosure] at hrel
      cases hrel
      exact .none
    | some closure =>
      rw [hclosure] at hrel
      cases hrel with
      | some hvalue => exact .some hvalue
  refine ⟨function, regular, trailing, hfunction, forall₂_of_readArguments hregular, hrel, ?_⟩
  -- The arguments are put together, or they cannot be bound, which is an error in place of the
  -- call.
  obtain ⟨arguments, harrange, hkeeps⟩ | ⟨text, ps, htext, hps, hbind, harrange⟩ :=
    arrange_cases (calleeDeclaration? found.symbols callee.head) regular trailing n.head.span
  · rw [harrange] at h
    obtain rfl := yields_pure h
    exact .inl ⟨arguments, rfl, fun registry => exprDocument_call_items registry .., hkeeps⟩
  · rw [harrange] at h
    obtain ⟨diagnostic, rfl, hcode, -⟩ := exists_of_yields_errorExpr h
    exact .inr ⟨diagnostic, text, ps, rfl, hcode, htext, hps, hbind⟩

def plotDeclaration : String :=
  "func plot(_ x: Int, scale: Int = 1, at points: Int..., body: () -> Void)"

def plotCallee : Node :=
  .node { kind := .declRef, text := some "plot", role := some "function", length := 4 } []

/-- The call `plot(x, at: y, z) { }`. -/
def plotCall : Node :=
  .node { kind := .call, length := 21 }
    [plotCallee,
      .node { kind := .argument, offset := 5, length := 1 }
        [.node { kind := .declRef, text := some "x", offset := 5, length := 1 } []],
      .node { kind := .argument, text := some "at", offset := 8, length := 5 }
        [.node { kind := .declRef, text := some "y", offset := 12, length := 1 } []],
      .node { kind := .argument, offset := 15, length := 1 }
        [.node { kind := .declRef, text := some "z", offset := 15, length := 1 } []],
      .node { kind := .closure, role := some "trailing_closure", offset := 18, length := 3 } []]

def plotTables : SideTables where
  symbols := .ofList [{ offset := 0, origin := "App.plot", declaration := some plotDeclaration }]

/-- The call is read, with all its arguments in slots. -/
theorem keepsArguments_plotCall :
    plotCall.child? "function" = some plotCallee ∧
      ∃ function slots info regular trailing,
        Yields plotTables (readCall plotCall (plotCall.children.map Node.site) {})
          (.call function (.shuffle slots info) true false {}) ∧
        slots.length = 4 ∧
        KeepsArguments (some plotDeclaration) regular trailing (.shuffle slots info) := by
  let name (text : String) (offset : Nat) : Expr :=
    .name text false false { span := some ⟨offset, offset + 1⟩ }
  have hread : Yields plotTables (readCall plotCall (plotCall.children.map Node.site) {})
      (.call (.name "plot" false false { span := some ⟨0, 4⟩ })
        (.shuffle [.present none (name "x" 5), .absent (some "scale"),
          .variadic (some "at") [name "y" 12, name "z" 15],
          .present (some "body") (.closure [] [] { span := some ⟨18, 21⟩ })]
          { span := some ⟨0, 21⟩ }) true false {}) :=
    ⟨{}, {}, Exchange.reaches_alone _⟩
  obtain ⟨function, regular, trailing, -, -, -, hcases⟩ := keepsArguments_of_readCall rfl hread
  obtain ⟨arguments, heq, -, hkeeps⟩ | ⟨found, text, ps, heq, -⟩ := hcases
  · obtain ⟨-, rfl, -⟩ := Expr.call.inj heq
    exact ⟨rfl, _, _, _, _, _, hread, rfl, hkeeps⟩
  · cases heq

end Ferry.Target
