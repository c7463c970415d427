/-
  Ferry.Proofs.Source.Labels

  The labels that a call has once it is read.  Arguments that are put into slots get the labels of
  the parameters.  Arguments that stay as written have them already, since each was bound by its
  label; only a trailing closure was not, and goes without.

  So the labels of a call, and its key, are those of the callee exactly when no closure loses its
  label (`argumentLabels_site_iff`).
-/
import Ferry.Proofs.Pass.Declaration
import Ferry.Proofs.Source.Arrangement
import Ferry.Proofs.Source.Outcome
import Ferry.Proofs.Source.Site

namespace Ferry.Source

/-! ## Bindings -/

theorem labels_prefix_of_bindInOrder {direction : Direction} {ps : List ParameterInfo}
    {r : Remaining} {binding : Binding} (h : bindInOrder direction ps r = some binding)
    (hps : ∀ p ∈ ps, p.isVariadic = false)
    (hbinding : binding = (List.range' r.next ps.length).map fun i => [i])
    (htrailing : ∀ closure ∈ r.trailing, closure = r.next + r.labels.length) :
    r.labels <+: ps.map ParameterInfo.label := by
  induction ps generalizing r binding with
  | nil =>
    obtain ⟨hlabels, -, -⟩ := bindInOrder_nil h
    rw [hlabels]
    exact List.nil_prefix
  | cons p ps ih =>
    obtain ⟨bound, rest, more, hbound, hmore, rfl⟩ := bindInOrder_cons h
    rw [List.length_cons, List.range'_succ, List.map_cons, List.cons.injEq] at hbinding
    obtain ⟨rfl, hbinding⟩ := hbinding
    obtain ⟨closure, hclosure, hfirst, -⟩ | ⟨hvariadic, -⟩ | ⟨-, hfits, -, rfl⟩ | ⟨-, -, hnil, -⟩ :=
      Remaining.bind_cases hbound
    · -- the closure comes after all arguments, so there are none before it
      have hlength := htrailing closure hclosure
      rw [List.singleton_inj] at hfirst
      have hlabels : r.labels = [] := List.eq_nil_of_length_eq_zero (by omega)
      rw [hlabels]
      exact List.nil_prefix
    · rw [hps p List.mem_cons_self] at hvariadic
      cases hvariadic
    · obtain ⟨label, labels, hlabels⟩ :=
        List.exists_cons_of_length_pos (Remaining.labels_ne_nil_of_fits hfits)
      have hlabel : label = p.label := by
        simpa [Remaining.fits, hlabels] using hfits
      rw [hlabels, List.map_cons, hlabel, List.cons_prefix_cons]
      refine ⟨rfl, ?_⟩
      have hrest := ih hmore (fun q hq => hps q (List.mem_cons_of_mem p hq)) hbinding ?_
      · rwa [Remaining.advance_labels, hlabels, List.drop_succ_cons, List.drop_zero] at hrest
      · intro closure hclosure
        rw [htrailing closure hclosure, Remaining.advance_next, Remaining.advance_labels, hlabels]
        simp only [List.length_cons, List.drop_succ_cons, List.drop_zero]
        omega
    · cases hnil

theorem length_flatten_le {binding : Binding} (h : ∀ bound ∈ binding, bound.length ≤ 1) :
    binding.flatten.length ≤ binding.length := by
  induction binding with
  | nil => exact Nat.le_refl 0
  | cons bound rest ih =>
    have hbound := h bound List.mem_cons_self
    have hrest := ih fun other hother => h other (List.mem_cons_of_mem bound hother)
    rw [List.flatten_cons, List.length_append, List.length_cons]
    omega

/-- Shares of at most one argument that are as many as the arguments have one each. -/
theorem eq_map_singleton_flatten {binding : Binding} (h : ∀ bound ∈ binding, bound.length ≤ 1)
    (hlength : binding.flatten.length = binding.length) :
    binding = binding.flatten.map fun i => [i] := by
  induction binding with
  | nil => rfl
  | cons bound rest ih =>
    have hbound := h bound List.mem_cons_self
    have hothers : ∀ other ∈ rest, other.length ≤ 1 :=
      fun other hother => h other (List.mem_cons_of_mem bound hother)
    have hrest := length_flatten_le hothers
    rw [List.flatten_cons, List.length_append, List.length_cons] at hlength
    have hone : bound.length = 1 := by omega
    have hsame : rest.flatten.length = rest.length := by omega
    obtain ⟨i, rfl⟩ := List.length_eq_one_iff.mp hone
    rw [List.flatten_cons, List.map_append, ← ih hothers hsame]
    rfl

theorem length_le_of_fitsIn {ps : List ParameterInfo} {binding : Binding}
    (h : List.Forall₂ FitsIn ps binding) (hps : ∀ p ∈ ps, p.isVariadic = false) :
    ∀ bound ∈ binding, bound.length ≤ 1 := by
  induction h with
  | nil => simp
  | @cons p bound ps binding hfits _ ih =>
    have hrest := ih fun q hq => hps q (List.mem_cons_of_mem p hq)
    exact List.forall_mem_cons.mpr ⟨hfits (hps p List.mem_cons_self), hrest⟩

section

variable {ps : List ParameterInfo} {regular : List Argument} {trailing : Option Expr}
  {binding : Binding}

theorem isIdentity_of_length
    (h : bindArguments ps (regular.map Argument.label) trailing.isSome = some binding)
    (hps : ∀ p ∈ ps, p.isVariadic = false)
    (hlength : ps.length = (supplied regular trailing).length) :
    isIdentity ps binding (supplied regular trailing).length = true := by
  have hfits := forall₂_fitsIn_bindArguments h
  have hflat := flatten_of_bindArguments h
  have hcount : binding.length = (supplied regular trailing).length := by
    rw [← hfits.length_eq, hlength]
  have hsingle := eq_map_singleton_flatten (length_le_of_fitsIn hfits hps)
    (by rw [hflat, List.length_range', hcount])
  refine isIdentity_iff.mpr ⟨hcount, hps, ?_⟩
  rw [List.range_eq_range', ← hflat]
  exact hsingle

theorem labels_prefix_of_isIdentity
    (h : bindArguments ps (regular.map Argument.label) trailing.isSome = some binding)
    (hid : isIdentity ps binding (supplied regular trailing).length = true) :
    regular.map Argument.label <+: ps.map ParameterInfo.label := by
  obtain ⟨hlength, hps, hbinding⟩ := isIdentity_iff.mp hid
  have hps_length := (forall₂_fitsIn_bindArguments h).length_eq.trans hlength
  obtain ⟨direction, h⟩ := bindInOrder_of_bindArguments h
  refine labels_prefix_of_bindInOrder h hps ?_ ?_
  · rw [hbinding, hps_length, List.range_eq_range']
    rfl
  · intro closure hclosure
    cases trailing with
    | none => cases hclosure
    | some _ =>
      obtain rfl := Option.some.inj hclosure
      exact (Nat.zero_add _).symm

end

/-! ## Argument nodes -/

theorem map_label_of_slotsOf {ps : List ParameterInfo} {binding : Binding} {values : List Expr}
    {slots : List Slot} (h : slotsOf ps binding values = .ok slots) :
    slots.map Slot.label = ps.map ParameterInfo.label :=
  (Shuffle.ofParts_eq_ok_iff.mp h).1

/-- That a closure goes without the label of the last parameter: it trails the other arguments, one
    for each of the parameters before, and none of the parameters is variadic. -/
structure LosesLabel (ps : List ParameterInfo) (count : Nat) (hasTrailing : Bool) : Prop where
  hasTrailing : hasTrailing = true
  plain : ∀ p ∈ ps, p.isVariadic = false
  length_eq : ps.length = count + 1
  label_ne : ∀ p ∈ ps.getLast?, p.label ≠ none

section

variable {ps : List ParameterInfo} {declaration : String} {regular : List Argument}
  {trailing : Option Expr} {span : Span} {arguments : Expr}

theorem map_label_supplied {binding : Binding}
    (h : bindArguments ps (regular.map Argument.label) trailing.isSome = some binding)
    (hid : isIdentity ps binding (supplied regular trailing).length = true) :
    (¬ LosesLabel ps regular.length trailing.isSome →
      (supplied regular trailing).map Argument.label = ps.map ParameterInfo.label) ∧
    (LosesLabel ps regular.length trailing.isSome →
      (supplied regular trailing).map Argument.label =
        (ps.map ParameterInfo.label).dropLast ++ [none]) := by
  obtain ⟨more, hmore⟩ := labels_prefix_of_isIdentity h hid
  obtain ⟨hlength, hps, -⟩ := isIdentity_iff.mp hid
  have hps_length : ps.length = (supplied regular trailing).length :=
    (forall₂_fitsIn_bindArguments h).length_eq.trans hlength
  have hmore_length := congrArg List.length hmore
  rw [List.length_append, List.length_map, List.length_map, hps_length] at hmore_length
  cases trailing with
  | none =>
    have hnil : more = [] := by
      rw [supplied, Option.toList_none, List.map_nil, List.append_nil] at hmore_length
      exact List.eq_nil_of_length_eq_zero (by omega)
    refine ⟨fun _ => ?_, fun hloses => Bool.noConfusion hloses.hasTrailing⟩
    rw [← hmore, hnil, supplied, List.map_append]
    rfl
  | some closure =>
    have hcount : (supplied regular (some closure)).length = regular.length + 1 :=
      List.length_append
    obtain ⟨label, rfl⟩ := List.length_eq_one_iff.mp (show more.length = 1 by omega)
    have hlabels : (supplied regular (some closure)).map Argument.label =
        regular.map Argument.label ++ [none] := List.map_append
    rw [hlabels, ← hmore, List.dropLast_concat]
    refine ⟨fun hkeeps => ?_, fun _ => rfl⟩
    -- only a label could be lost
    have hnone : label = none := by
      by_contra hlabel
      refine hkeeps ⟨rfl, hps, hps_length.trans hcount, fun p hp => ?_⟩
      have hlast := congrArg List.getLast? hmore
      rw [List.getLast?_concat, List.getLast?_map, Option.mem_def.mp hp] at hlast
      rw [← Option.some.inj hlast]
      exact hlabel
    rw [hnone]

/-- An argument list has the labels of the parameters, but for one that a closure loses. -/
theorem argumentLabels_arrangeFor
    (h : arrangeFor ps declaration regular trailing span = .ok arguments) :
    (¬ LosesLabel ps regular.length trailing.isSome →
      arguments.argumentLabels = ps.map ParameterInfo.label) ∧
    (LosesLabel ps regular.length trailing.isSome →
      arguments.argumentLabels = (ps.map ParameterInfo.label).dropLast ++ [none]) := by
  rw [arrangeFor] at h
  cases hbind : bindArguments ps (regular.map Argument.label) trailing.isSome with
  | none =>
    simp only [hbind] at h
    cases h
  | some binding =>
    simp only [hbind] at h
    split at h
    next hid =>
      obtain rfl := Except.ok.inj h
      exact map_label_supplied hbind hid
    next hid =>
      -- A closure that loses its label is bound one to one, so its arguments are no shuffle.
      have hflat := flatten_of_bindArguments hbind
      have hnot : ¬ LosesLabel ps regular.length trailing.isSome := by
        intro hloses
        refine hid (isIdentity_of_length hbind hloses.plain ?_)
        obtain ⟨closure, rfl⟩ := Option.isSome_iff_exists.mp hloses.hasTrailing
        rw [hloses.length_eq, supplied, List.length_append]
        rfl
      rw [← List.length_map Argument.value] at hflat
      split at h
      next slots hslots =>
        obtain rfl := Except.ok.inj h
        refine ⟨fun _ => ?_, fun hloses => absurd hloses hnot⟩
        exact map_label_of_slotsOf hslots
      next => cases h

end

/-! ## Keys -/

theorem label_ne_of_ofText? {text : String} {p : ParameterInfo}
    (h : ParameterInfo.ofText? text = some p) : p.label ≠ some "_" := by
  unfold ParameterInfo.ofText? at h
  split at h
  next => cases h
  next => cases h
  next =>
    simp only [Option.bind_eq_bind, Option.bind_eq_some_iff] at h
    obtain ⟨⟨label, name⟩, -, h⟩ := h
    split at h
    next => cases h
    next =>
      obtain rfl := Option.some.inj h
      show (if label = "_" then none else some label) ≠ some "_"
      split
      next => simp
      next hlabel => simpa using hlabel

theorem exists_of_mem_mapM {α β : Type} {f : α → Option β} {items : List α} {values : List β}
    (h : items.mapM f = some values) {value : β} (hvalue : value ∈ values) :
    ∃ item ∈ items, f item = some value := by
  induction items generalizing values with
  | nil =>
    obtain rfl := Option.some.inj h
    exact absurd hvalue List.not_mem_nil
  | cons item rest ih =>
    simp only [List.mapM_cons, Option.bind_eq_bind, Option.bind_eq_some_iff] at h
    obtain ⟨first, hfirst, others, hothers, h⟩ := h
    obtain rfl := Option.some.inj h
    obtain rfl | hvalue := List.mem_cons.mp hvalue
    · exact ⟨item, List.mem_cons_self, hfirst⟩
    · obtain ⟨source, hsource, hread⟩ := ih hothers hvalue
      exact ⟨source, List.mem_cons_of_mem item hsource, hread⟩

theorem label_ne_of_parameterClause? {declaration : String} {ps : List ParameterInfo}
    (h : parameterClause? declaration = some ps) : ∀ p ∈ ps, p.label ≠ some "_" := by
  simp only [parameterClause?, Option.bind_eq_bind, Option.bind_eq_some_iff] at h
  obtain ⟨opened, -, inner, -, h⟩ := h
  split at h
  next =>
    obtain rfl := Option.some.inj h
    simp
  next =>
    intro p hp
    obtain ⟨part, -, hpart⟩ := exists_of_mem_mapM h hp
    exact label_ne_of_ofText? hpart

theorem signatureKey_concat (name : String) (labels : List (Option String))
    (label : Option String) :
    signatureKey name (labels ++ [label]) =
      name ++ "(" ++ String.join (labels.map fun label => label.getD "_" ++ ":") ++
        (label.getD "_" ++ (":" ++ ")")) := by
  simp only [signatureKey, List.map_append, List.map_cons, List.map_nil, String.join_append,
    String.join_cons, String.join_nil, String.append_empty, String.append_assoc]

/-- A last label shows in the key, unless it is an underscore. -/
theorem eq_underscore_of_signatureKey {name text : String} {labels : List (Option String)}
    (h : signatureKey name (labels ++ [none]) = signatureKey name (labels ++ [some text])) :
    text = "_" := by
  rw [signatureKey_concat, signatureKey_concat, String.append_right_inj,
    String.append_left_inj] at h
  exact h.symm

theorem LosesLabel.exists_label {ps : List ParameterInfo} {count : Nat} {hasTrailing : Bool}
    (h : LosesLabel ps count hasTrailing) (hps : ∀ p ∈ ps, p.label ≠ some "_") :
    ∃ text, text ≠ "_" ∧
      ps.map ParameterInfo.label = (ps.map ParameterInfo.label).dropLast ++ [some text] := by
  have hne : ps ≠ [] := List.ne_nil_of_length_pos (by rw [h.length_eq]; omega)
  have hlast := List.getLast?_eq_some_getLast hne
  obtain ⟨text, htext⟩ := Option.ne_none_iff_exists'.mp (h.label_ne _ hlast)
  refine ⟨text, fun hunderscore => ?_, ?_⟩
  · rw [hunderscore] at htext
    exact hps _ (List.getLast_mem hne) htext
  · rw [← htext]
    refine (List.dropLast_append_getLast? _ ?_).symm
    rw [List.getLast?_map, hlast]
    rfl

section

variable {ps : List ParameterInfo} {declaration : String} {regular : List Argument}
  {trailing : Option Expr} {span : Span} {arguments : Expr}

theorem argumentLabels_arrangeFor_iff (hps : ∀ p ∈ ps, p.label ≠ some "_")
    (h : arrangeFor ps declaration regular trailing span = .ok arguments) :
    arguments.argumentLabels = ps.map ParameterInfo.label ↔
      ¬ LosesLabel ps regular.length trailing.isSome := by
  obtain ⟨hkeeps, hloses⟩ := argumentLabels_arrangeFor h
  refine ⟨fun hlabels hlost => ?_, hkeeps⟩
  obtain ⟨text, -, htext⟩ := hlost.exists_label hps
  rw [hloses hlost, htext, List.dropLast_concat] at hlabels
  simp at hlabels

theorem signatureKey_arrangeFor_iff (name : String) (hps : ∀ p ∈ ps, p.label ≠ some "_")
    (h : arrangeFor ps declaration regular trailing span = .ok arguments) :
    signatureKey name arguments.argumentLabels =
        signatureKey name (ps.map ParameterInfo.label) ↔
      ¬ LosesLabel ps regular.length trailing.isSome := by
  obtain ⟨hkeeps, hloses⟩ := argumentLabels_arrangeFor h
  refine ⟨fun hkey hlost => ?_, fun hkept => by rw [hkeeps hkept]⟩
  obtain ⟨text, hunderscore, htext⟩ := hlost.exists_label hps
  rw [hloses hlost, htext, List.dropLast_concat] at hkey
  exact hunderscore (eq_underscore_of_signatureKey hkey)

end

/-! ## Calls -/

section

variable {tables : SideTables} {n : Node} {declaration : String} {ps : List ParameterInfo}
  {function arguments : Expr} {hasTrailing isPure : Bool} {info : Info}

theorem arrangeFor_of_readCall {children : List Site} {callee : Site} {place : Info}
    (hcallee : inRole? children "function" = some callee)
    (hdeclaration : calleeDeclaration? tables.symbols callee.head = some declaration)
    (hps : parameterClause? declaration = some ps)
    (h : Adapter.Yields tables (readCall n children place)
      (.call function arguments hasTrailing isPure info)) :
    ∃ regular trailing, regular.length = (ofKind children .argument).length ∧
      trailing.isSome = (inRole? children "trailing_closure").isSome ∧
      arrangeFor ps declaration regular trailing n.head.span = .ok arguments := by
  rw [readCall, hcallee] at h
  obtain ⟨called, -, h⟩ := Adapter.yields_bind h
  obtain ⟨regular, hregular, h⟩ := Adapter.yields_bind h
  obtain ⟨trailing, htrailing, h⟩ := Adapter.yields_bind h
  obtain ⟨found, hfound, h⟩ := Adapter.yields_bind h
  obtain rfl := Adapter.yields_read hfound
  simp only [arrange, hdeclaration, hps] at h
  refine ⟨regular, trailing, (Adapter.yields_mapM hregular).length_eq.symm,
    Adapter.isSome_of_yields_mapM htrailing, ?_⟩
  split at h
  next found harrange =>
    have heq := Adapter.yields_pure h
    obtain rfl := (Expr.call.inj heq).2.1
    exact harrange
  next =>
    obtain ⟨_, _, heq⟩ := Adapter.yields_errorExpr h
    cases heq

/-- A call node is read as a call only by `readCall`. -/
theorem yields_readCall_of_site (hkind : n.kind = .call)
    (h : Adapter.Yields tables n.site.expr (.call function arguments hasTrailing isPure info)) :
    ∃ place, Adapter.Yields tables (readCall n (n.children.map Node.site) place)
      (.call function arguments hasTrailing isPure info) := by
  rw [Node.site_eq] at h
  obtain ⟨place, -, h⟩ := Adapter.yields_bind h
  obtain ⟨found, -, h⟩ := Adapter.yields_bind h
  refine ⟨place, ?_⟩
  split at h
  next => cases Adapter.yields_pure h
  next => rwa [readPlainExpr, hkind] at h

/-- That the closure of a call node loses its label. -/
def Node.LosesLabel (n : Node) (ps : List ParameterInfo) : Prop :=
  Source.LosesLabel ps (n.childrenOf .argument).length (n.child? "trailing_closure").isSome

/-- A call has the labels of its callee's parameters, and so the key that a function with this name
    and these labels is recorded under, exactly when its closure loses no label. -/
theorem argumentLabels_site_iff {callee : Node} (hkind : n.kind = .call)
    (hcallee : n.child? "function" = some callee)
    (hdeclaration : calleeDeclaration? tables.symbols callee.head = some declaration)
    (hps : parameterClause? declaration = some ps)
    (hread : Adapter.Yields tables n.site.expr
      (.call function arguments hasTrailing isPure info)) :
    (arguments.argumentLabels = ps.map ParameterInfo.label ↔ ¬ n.LosesLabel ps) ∧
      ∀ d : Pass.Declaration, function.calleeName? = some (Pass.calledName d.head d.owner) →
        d.labels = ps.map ParameterInfo.label →
        ((∃ key, function.callKey? arguments = some key ∧ .function key d.names ∈ d.facts) ↔
          ¬ n.LosesLabel ps) := by
  obtain ⟨place, hcall⟩ := yields_readCall_of_site hkind hread
  have hsite : inRole? (n.children.map Node.site) "function" = some callee.site := by
    rw [inRole?_map_site, hcallee, Option.map_some]
  have hhead : calleeDeclaration? tables.symbols callee.site.head = some declaration := by
    rw [Site.head, node_site, hdeclaration]
  obtain ⟨regular, trailing, hregular, htrailing, harrange⟩ :=
    arrangeFor_of_readCall hsite hhead hps hcall
  -- How many arguments there are, and whether a closure trails, can be seen from the node.
  have hloses : n.LosesLabel ps ↔ LosesLabel ps regular.length trailing.isSome := by
    rw [Node.LosesLabel, hregular, htrailing, length_ofKind_map_site, inRole?_map_site,
      Option.isSome_map]
  have hlabels := label_ne_of_parameterClause? hps
  rw [hloses]
  refine ⟨argumentLabels_arrangeFor_iff hlabels harrange, fun d hname hd => ?_⟩
  rw [← signatureKey_arrangeFor_iff (Pass.calledName d.head d.owner) hlabels harrange, ← hd]
  simp only [Expr.callKey?, hname, Option.map_some, Option.some.injEq,
    Pass.Declaration.function_mem_facts, exists_eq_left', and_true]
  exact eq_comm

end

def runDeclaration : String := "func run(times n: Int, body: () -> Void)"

def runParameters : List ParameterInfo :=
  [⟨some "times", "n", "Int", false, false⟩, ⟨some "body", "body", "() -> Void", false, false⟩]

def runCallee : Node :=
  .node { kind := .declRef, text := some "run", role := some "function", length := 3 } []

/-- The call `run(times: n) { }`. -/
def runCall : Node :=
  .node { kind := .call, length := 17 }
    [runCallee,
      .node { kind := .argument, text := some "times", offset := 4, length := 8 }
        [.node { kind := .declRef, text := some "n", offset := 11, length := 1 } []],
      .node { kind := .closure, role := some "trailing_closure", offset := 14, length := 3 } []]

def runTables : SideTables where
  symbols := .ofList [{ offset := 0, origin := "App.run", declaration := some runDeclaration }]

/-- The arguments as they are read: the closure goes without its label. -/
def runArguments : Expr :=
  .tuple [⟨some "times", .name "n" false false { span := some ⟨11, 12⟩ }⟩,
    ⟨none, .closure [] [] { span := some ⟨14, 17⟩ }⟩] {}

/-- A function is declared with these labels, and the call does not find it. -/
theorem argumentLabels_site_runCall :
    runCall.child? "function" = some runCallee ∧
      calleeDeclaration? runTables.symbols runCallee.head = some runDeclaration ∧
      parameterClause? runDeclaration = some runParameters ∧
      runArguments.argumentLabels ≠ runParameters.map ParameterInfo.label ∧
      ∃ function hasTrailing isPure info,
        Adapter.Yields runTables runCall.site.expr
          (.call function runArguments hasTrailing isPure info) ∧
        ∀ d : Pass.Declaration, function.calleeName? = some (Pass.calledName d.head d.owner) →
          d.labels = runParameters.map ParameterInfo.label →
          ¬ ∃ key, function.callKey? runArguments = some key ∧ .function key d.names ∈ d.facts := by
  have hps : parameterClause? runDeclaration = some runParameters := by decide +kernel
  have hread : Adapter.Yields runTables runCall.site.expr
      (.call (.name "run" false false { span := some ⟨0, 3⟩ }) runArguments true false
        { span := some ⟨0, 17⟩ }) :=
    ⟨{}, {}, Exchange.reaches_alone _⟩
  have hloses : runCall.LosesLabel runParameters := ⟨rfl, by decide, rfl, by decide⟩
  obtain ⟨hlabels, hkeys⟩ := argumentLabels_site_iff rfl rfl rfl hps hread
  refine ⟨rfl, rfl, hps, fun h => hlabels.mp h hloses, _, _, _, _, hread, fun d hname hd hkey => ?_⟩
  exact (hkeys d hname hd).mp hkey hloses

end Ferry.Source
