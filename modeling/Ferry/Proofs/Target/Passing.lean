/-
  Ferry.Proofs.Target.Passing

  From the binding of a call to what its parameters receive.  The arguments are bound to the
  parameters, arranged in a node, put under the names of the parameters and written, and the target
  hands them out again.

  `received?_call_iff` says when every parameter receives what was bound to it.  A closure written
  after the parentheses must be bound to the last parameter, and each argument written without a
  name must stand right behind an argument of the parameter before its own, which must not be
  variadic.  The three calls that fail are a closure bound to an earlier parameter, arguments of a
  variadic parameter behind one that takes its default, and an argument without a label behind
  a variadic parameter.
-/
import Ferry.Pass.Call
import Ferry.Proofs.Source.Arrangement
import Ferry.Proofs.Target.Delivery

namespace Ferry.Target

open Source

/-- The entries of a call with slots: a label becomes the name of the parameter, and behind a
    parameter that takes its default every other one is named, save a variadic one. -/
def entries : (afterAbsent : Bool) → List ParameterInfo → List (List Expr) → List Entry
  | afterAbsent, p :: ps, share :: rest =>
    ⟨p, share, !p.isVariadic && (p.label.isSome || afterAbsent)⟩ ::
      entries (afterAbsent || (!p.isVariadic && share.isEmpty)) ps rest
  | _, _, _ => []

def parenthesized (regular : List Argument) (trailing : Option Expr) : List Expr :=
  if trailing.any Pass.isClosure then regular.map Argument.value
  else (supplied regular trailing).map Argument.value

/-- A call of a function with these parameters as it is written, its arguments under their names. -/
def writtenCall (ps : List ParameterInfo) (node : Expr) (hasTrailing : Bool) : WrittenCall :=
  .of (writtenArguments (Pass.relabelCall (ps.map ParameterInfo.name) node)) hasTrailing

/-! ## Entries of slots -/

/-- Only a variadic parameter has more than one argument in its share. -/
def ShareFits (p : ParameterInfo) (share : List Expr) : Prop :=
  p.isVariadic = false → share.length ≤ 1

section

variable {ps : List ParameterInfo} {parts : List (List Expr)} {afterAbsent : Bool}

theorem forall₂_shareFits {binding : Binding} (h : List.Forall₂ FitsIn ps binding)
    (values : List Expr) : List.Forall₂ ShareFits ps (shares binding values) := by
  rw [shares, List.forall₂_map_right_iff]
  refine h.imp fun p bound hfits hp => ?_
  have hle : (bound.filterMap (values[·]?)).length ≤ bound.length := List.length_filterMap_le _ _
  exact hle.trans (hfits hp)

theorem map_parameter_entries (h : List.Forall₂ ShareFits ps parts) (afterAbsent : Bool) :
    (entries afterAbsent ps parts).map Entry.parameter = ps := by
  induction h generalizing afterAbsent with
  | nil => rfl
  | cons _ _ ih => rw [entries, List.map_cons, ih]

theorem map_arguments_entries (h : List.Forall₂ ShareFits ps parts) (afterAbsent : Bool) :
    (entries afterAbsent ps parts).map Entry.arguments = parts := by
  induction h generalizing afterAbsent with
  | nil => rfl
  | cons _ _ ih => rw [entries, List.map_cons, ih]

theorem fits_of_mem_entries (h : List.Forall₂ ShareFits ps parts) {entry : Entry}
    (hentry : entry ∈ entries afterAbsent ps parts) : entry.Fits := by
  induction h generalizing afterAbsent with
  | nil => exact absurd hentry (by simp [entries])
  | @cons p share ps parts hfits _ ih =>
    rw [entries, List.mem_cons] at hentry
    obtain rfl | hentry := hentry
    · cases hp : p.isVariadic with
      | true => exact .inl ⟨hp, by simp⟩
      | false => exact .inr (hfits hp)
    · exact ih hentry

/-- The last entry is named or not whatever it holds. -/
theorem entries_concat (h : List.Forall₂ ShareFits ps parts) (p : ParameterInfo)
    (afterAbsent : Bool) :
    ∃ isNamed, ∀ share, entries afterAbsent (ps ++ [p]) (parts ++ [share]) =
      entries afterAbsent ps parts ++ [⟨p, share, isNamed⟩] := by
  induction h generalizing afterAbsent with
  | nil => exact ⟨_, fun _ => rfl⟩
  | @cons q first _ _ _ _ ih =>
    obtain ⟨isNamed, hlast⟩ := ih (afterAbsent || (!q.isVariadic && first.isEmpty))
    refine ⟨isNamed, fun share => ?_⟩
    rw [List.cons_append, List.cons_append, entries, hlast share, entries, List.cons_append]

/-- The slots of a call under the names of the parameters are written as its entries. -/
theorem flatMap_slotArguments_relabelSlots (h : List.Forall₂ ShareFits ps parts)
    (afterAbsent : Bool) :
    (Pass.relabelSlots afterAbsent (ps.map ParameterInfo.name)
      (List.zipWith slotOf ps parts)).flatMap slotArguments =
        (entries afterAbsent ps parts).flatMap Entry.written := by
  induction h generalizing afterAbsent with
  | nil => rfl
  | @cons p share ps parts hfits _ ih =>
    simp only [List.map_cons, List.zipWith_cons_cons, entries, List.flatMap_cons]
    rw [← ih]
    cases hp : p.isVariadic with
    | true =>
      simp [slotOf, hp, Pass.relabelSlots, Slot.relabel, slotArguments, Entry.written]
    | false =>
      -- A parameter that is not variadic has one argument or takes its default.
      have hlength := hfits hp
      cases share with
      | nil => simp [slotOf, hp, Pass.relabelSlots, slotArguments, Entry.written]
      | cons value more =>
        rw [List.length_cons] at hlength
        have hmore : more = [] := List.eq_nil_of_length_eq_zero (by omega)
        simp [slotOf, hp, hmore, Pass.relabelSlots, Slot.relabel, Slot.label, slotArguments,
          Entry.written]

end

/-! ## Entries of a tuple -/

/-- The entries of a call whose arguments stand at their own positions. -/
def tupleEntries (ps : List ParameterInfo) (elements : List Argument) : List Entry :=
  (ps.zip elements).map fun (p, argument) => ⟨p, [argument.value], argument.label.isSome⟩

/-- An entry that an argument without a name may stand behind. -/
def Entry.IsFull (entry : Entry) : Prop :=
  entry.arguments ≠ [] ∧ entry.parameter.isVariadic = false

/-- Entries follow one another if all but the last are full. -/
theorem isChain_of_isFull_dropLast {written : List Entry}
    (h : ∀ entry ∈ written.dropLast, entry.IsFull) : written.IsChain Entry.Follows := by
  induction written with
  | nil => exact .nil
  | cons before rest ih =>
    cases rest with
    | nil => exact .singleton _
    | cons after rest =>
      rw [List.dropLast_cons_cons] at h
      refine .cons_cons (fun _ _ => h before List.mem_cons_self) (ih fun entry hentry => ?_)
      exact h entry (List.mem_cons_of_mem _ hentry)

theorem flatMap_written_tupleEntries {ps : List ParameterInfo} {elements : List Argument}
    (h : elements.length = ps.length) :
    (Pass.relabelArguments (ps.map ParameterInfo.name) elements).map
      (fun argument => (argument.label, argument.value)) =
        (tupleEntries ps elements).flatMap Entry.written := by
  induction ps generalizing elements with
  | nil =>
    rw [List.length_nil, List.length_eq_zero_iff] at h
    subst h
    rfl
  | cons p ps ih =>
    cases elements with
    | nil => exact absurd h (by simp)
    | cons argument elements =>
      have ih := @ih elements (by simpa using h)
      obtain ⟨label, value⟩ := argument
      rw [Pass.relabelArguments, tupleEntries] at ih ⊢
      rw [List.map_cons, List.zipWith_cons_cons, List.zip_cons_cons, List.map_cons, List.map_cons,
        List.flatMap_cons, ih]
      cases label <;> rfl

theorem map_parameter_tupleEntries {ps : List ParameterInfo} {elements : List Argument}
    (h : elements.length = ps.length) : (tupleEntries ps elements).map Entry.parameter = ps := by
  rw [tupleEntries, List.map_map]
  exact List.map_fst_zip (by omega)

theorem map_arguments_tupleEntries {ps : List ParameterInfo} {elements : List Argument}
    (h : elements.length = ps.length) :
    (tupleEntries ps elements).map Entry.arguments =
      (elements.map Argument.value).map fun value => [value] := by
  rw [tupleEntries, List.map_map, List.map_map]
  conv => rhs; rw [← List.map_snd_zip (Nat.le_of_eq h), List.map_map]
  rfl

theorem isFull_of_mem_tupleEntries {ps : List ParameterInfo} {elements : List Argument}
    (h : ∀ p ∈ ps, p.isVariadic = false) {entry : Entry}
    (hentry : entry ∈ tupleEntries ps elements) : entry.IsFull ∧ entry.Fits := by
  obtain ⟨⟨p, argument⟩, hmem, rfl⟩ := List.mem_map.mp hentry
  exact ⟨⟨by simp, h p (List.of_mem_zip hmem).1⟩, .inr (by simp)⟩

/-! ## The entries of an argument node -/

/-- Entries with the same parameters and arguments, named in the same way or all full. -/
def SameChain (written other : List Entry) : Prop :=
  written = other ∨
    (∀ entry ∈ written.dropLast, entry.IsFull) ∧ ∀ entry ∈ other.dropLast, entry.IsFull

theorem SameChain.isChain_iff {written other : List Entry} (h : SameChain written other) :
    written.IsChain Entry.Follows ↔ other.IsChain Entry.Follows := by
  obtain rfl | ⟨hwritten, hother⟩ := h
  · exact Iff.rfl
  · exact iff_of_true (isChain_of_isFull_dropLast hwritten) (isChain_of_isFull_dropLast hother)

theorem isFull_of_map_eq {written other : List Entry}
    (hparameters : written.map Entry.parameter = other.map Entry.parameter)
    (harguments : written.map Entry.arguments = other.map Entry.arguments)
    (h : ∀ entry ∈ written, entry.IsFull) : ∀ entry ∈ other, entry.IsFull := by
  intro entry hentry
  obtain ⟨i, hi, rfl⟩ := List.getElem_of_mem hentry
  have hi' : i < written.length := by
    have hlength := congrArg List.length hparameters
    rw [List.length_map, List.length_map] at hlength
    omega
  have hp : written[i].parameter = other[i].parameter := by
    simpa [hi, hi'] using congrArg (·[i]?) hparameters
  have ha : written[i].arguments = other[i].arguments := by
    simpa [hi, hi'] using congrArg (·[i]?) harguments
  have hfull := h written[i] (List.getElem_mem _)
  rwa [Entry.IsFull, hp, ha] at hfull

/-- Entries that hold the shares of the parameters. -/
structure Carries (ps : List ParameterInfo) (parts : List (List Expr)) (es : List Entry) :
    Prop where
  parameters : es.map Entry.parameter = ps
  arguments : es.map Entry.arguments = parts
  fits : ∀ entry ∈ es, entry.Fits
  /-- They are named as slots are, or stand at their own positions. -/
  naming : es = entries false ps parts ∨ ∀ entry ∈ es, entry.IsFull

theorem exists_entries {ps : List ParameterInfo} {regular : List Argument}
    {trailing : Option Expr} {binding : Binding} (declaration : String) (span : Span)
    (h : bindArguments ps (regular.map Argument.label) trailing.isSome = some binding) :
    ∃ node es, arrangeFor ps declaration regular trailing span = .ok node ∧
      writtenArguments (Pass.relabelCall (ps.map ParameterInfo.name) node) =
        es.flatMap Entry.written ∧
      Carries ps (shares binding ((supplied regular trailing).map Argument.value)) es := by
  have hfits := forall₂_shareFits (forall₂_fitsIn_bindArguments h)
    ((supplied regular trailing).map Argument.value)
  rw [arrangeFor_eq declaration span h]
  split
  -- The arguments are passed as they are: each entry has the one that was written for it.
  next hidentity =>
    obtain ⟨hlength, hps, hbinding⟩ := isIdentity_iff.mp hidentity
    have hlength : (supplied regular trailing).length = ps.length := by
      rw [← hlength, (forall₂_fitsIn_bindArguments h).length_eq]
    refine ⟨_, tupleEntries ps (supplied regular trailing), rfl, ?_, ?_⟩
    · rw [Pass.relabelCall, if_pos (by simpa using hlength), writtenArguments,
        flatMap_written_tupleEntries hlength]
    · rw [← List.length_map Argument.value] at hbinding
      refine ⟨map_parameter_tupleEntries hlength, ?_,
        fun entry hentry => (isFull_of_mem_tupleEntries hps hentry).2,
        .inr fun entry hentry => (isFull_of_mem_tupleEntries hps hentry).1⟩
      rw [map_arguments_tupleEntries hlength, hbinding, shares_range]
  -- They are passed in slots, and the entries are made from the slots.
  next =>
    refine ⟨_, _, rfl, ?_, map_parameter_entries hfits false, map_arguments_entries hfits false,
      fun entry hentry => fits_of_mem_entries hfits hentry, .inl rfl⟩
    rw [Pass.relabelCall, if_pos (by simp [hfits.length_eq]), writtenArguments,
      flatMap_slotArguments_relabelSlots hfits]

/-! ## Calls with a trailing closure -/

theorem map_snd_flatMap_written (es : List Entry) :
    (es.flatMap Entry.written).map Prod.snd = (es.map Entry.arguments).flatten := by
  rw [List.map_flatMap, ← List.flatMap_def]
  refine List.flatMap_congr fun entry _ => ?_
  rw [Entry.written, List.map_map]
  exact List.map_id _

theorem flatMap_written_eq_nil {es : List Entry} (h : ∀ entry ∈ es, entry.arguments = []) :
    es.flatMap Entry.written = [] := by
  rw [List.flatMap_eq_nil_iff]
  intro entry hentry
  rw [Entry.written, h entry hentry, List.map_nil]

theorem of_regular {arguments : List (Option String × Expr)} {hasTrailing : Bool}
    (h : hasTrailing = true → ∃ value, (arguments.map Prod.snd).getLast? = some value ∧
      Pass.isClosure value = false) :
    WrittenCall.of arguments hasTrailing = ⟨arguments, none⟩ := by
  cases hasTrailing with
  | false =>
    rw [WrittenCall.of]
    cases arguments.getLast? <;> rfl
  | true =>
    obtain ⟨value, hlast, hclosure⟩ := h rfl
    rw [List.getLast?_map, Option.map_eq_some_iff] at hlast
    obtain ⟨⟨label, value⟩, hlast, rfl⟩ := hlast
    rw [WrittenCall.of, hlast]
    simp [hclosure]

theorem of_concat {arguments : List (Option String × Expr)} {label : Option String} {value : Expr}
    (h : Pass.isClosure value = true) :
    WrittenCall.of (arguments ++ [(label, value)]) true = ⟨arguments, some value⟩ := by
  rw [WrittenCall.of, List.getLast?_concat, List.dropLast_concat]
  simp [h]

/-- The parameters receive their shares of a call with all arguments in parentheses exactly if the
    entries follow one another. -/
theorem received?_regular {ps : List ParameterInfo} (hnames : (ps.map ParameterInfo.name).Nodup)
    {es : List Entry} (hparameters : es.map Entry.parameter = ps)
    (hfits : ∀ entry ∈ es, entry.Fits) :
    received? ps ⟨es.flatMap Entry.written, none⟩ = some (es.map Entry.arguments) ↔
      es.IsChain Entry.Follows :=
  received?_eq_some_iff hnames hparameters.symm hparameters.symm hfits hfits rfl
    (List.append_nil _).symm

/-- The parameters receive their shares of a call with a lambda bound to the last one exactly if the
    entries in parentheses follow one another. -/
theorem received?_lambda {ps : List ParameterInfo} (hnames : (ps.map ParameterInfo.name).Nodup)
    {es : List Entry} {last : Entry} {value : Expr}
    (hparameters : (es ++ [last]).map Entry.parameter = ps)
    (hlast : last.arguments = [value]) (hfits : ∀ entry ∈ es ++ [last], entry.Fits) :
    received? ps ⟨es.flatMap Entry.written, some value⟩ =
        some ((es ++ [last]).map Entry.arguments) ↔
      (es ++ [{ last with arguments := [] }]).IsChain Entry.Follows := by
  -- The entry of the lambda is written empty: what it holds stands after the parentheses.
  have hwritten : (es ++ [{ last with arguments := [] }]).flatMap Entry.written =
      es.flatMap Entry.written := by
    rw [List.flatMap_append, List.flatMap_singleton, Entry.written, List.map_nil, List.append_nil]
  have hlength : ps.length - 1 = es.length := by simp [← hparameters]
  have hne : ps.isEmpty = false := by simp [← hparameters]
  rw [← hwritten]
  refine received?_eq_some_iff hnames hparameters.symm (by simpa using hparameters.symm) hfits ?_
    (show _ = some [(es.length, value)] by simp [placedLambda?, hne, hlength]) ?_
  · intro entry hentry
    rw [List.mem_append, List.mem_singleton] at hentry
    obtain hentry | rfl := hentry
    · exact hfits entry (List.mem_append_left _ hentry)
    · exact .inr (by simp)
  · simp [tagged_append, tagged, hlast]

theorem forall₂_shareFits_of_fits {es : List Entry} (h : ∀ entry ∈ es, entry.Fits) :
    List.Forall₂ ShareFits (es.map Entry.parameter) (es.map Entry.arguments) := by
  rw [List.forall₂_map_left_iff, List.forall₂_map_right_iff, List.forall₂_same]
  intro entry hentry hvariadic
  obtain ⟨hvariadic', -⟩ | hlength := h entry hentry
  · rw [hvariadic'] at hvariadic
    exact absurd hvariadic (by simp)
  · exact hlength

/-- The entries of a call without its trailing closure, as they are written and as the shares give
    them. -/
theorem sameChain_withoutLast {front : List Entry} {last : Entry}
    (hfits : ∀ entry ∈ front ++ [last], entry.Fits)
    (hes : front ++ [last] = entries false ((front ++ [last]).map Entry.parameter)
        ((front ++ [last]).map Entry.arguments) ∨ ∀ entry ∈ front ++ [last], entry.IsFull) :
    SameChain (front ++ [{ last with arguments := [] }])
      (entries false ((front ++ [last]).map Entry.parameter)
        (front.map Entry.arguments ++ [[]])) := by
  have hfront : List.Forall₂ ShareFits (front.map Entry.parameter) (front.map Entry.arguments) :=
    forall₂_shareFits_of_fits fun entry hentry => hfits entry (List.mem_append_left _ hentry)
  obtain ⟨isNamed, hconcat⟩ := entries_concat hfront last.parameter false
  simp only [List.map_append, List.map_cons, List.map_nil, hconcat] at hes ⊢
  obtain hes | hfull := hes
  -- Passed in slots, the entries before the last are the same, and the last has its name.
  · obtain ⟨hinit, hlast⟩ := List.append_inj' hes rfl
    rw [List.cons.injEq] at hlast
    refine .inl ?_
    rw [← hinit, hlast.1]
  -- Passed as they are, all are full, and so it does not matter which of them have names.
  · have hfull : ∀ entry ∈ front, entry.IsFull := fun entry hentry =>
      hfull entry (List.mem_append_left _ hentry)
    refine .inr ⟨by rwa [List.dropLast_concat], ?_⟩
    rw [List.dropLast_concat]
    exact isFull_of_map_eq (map_parameter_entries hfront false).symm
      (map_arguments_entries hfront false).symm hfull

/-! ## What the parameters of a call receive -/

section

variable {ps : List ParameterInfo} {regular : List Argument} {trailing : Option Expr}
variable {binding : Binding} {es : List Entry}

theorem Carries.sameChain {parts : List (List Expr)} (h : Carries ps parts es) :
    SameChain es (entries false ps parts) := by
  refine h.naming.imp_right fun hfull => ?_
  have hshares := forall₂_shareFits_of_fits h.fits
  rw [h.parameters, h.arguments] at hshares
  have hother := isFull_of_map_eq (h.parameters.trans (map_parameter_entries hshares false).symm)
    (h.arguments.trans (map_arguments_entries hshares false).symm) hfull
  exact ⟨fun entry hentry => hfull entry (List.dropLast_subset _ hentry),
    fun entry hentry => hother entry (List.dropLast_subset _ hentry)⟩

/-- Without a trailing closure the entries of all arguments must follow one another. -/
theorem received?_of_regular (hnames : (ps.map ParameterInfo.name).Nodup)
    (h : bindArguments ps (regular.map Argument.label) trailing.isSome = some binding)
    (hes : Carries ps (shares binding ((supplied regular trailing).map Argument.value)) es)
    (hclosure : trailing.any Pass.isClosure = false) :
    received? ps (WrittenCall.of (es.flatMap Entry.written) trailing.isSome) =
        some (shares binding ((supplied regular trailing).map Argument.value)) ↔
      (entries false ps (shares binding ((supplied regular trailing).map Argument.value))).IsChain
        Entry.Follows := by
  -- Nothing is written but what was supplied, in the same order.
  have hflat : (es.flatMap Entry.written).map Prod.snd =
      (supplied regular trailing).map Argument.value := by
    rw [map_snd_flatMap_written, hes.arguments,
      flatten_shares (by rw [List.length_map, flatten_of_bindArguments h])]
  have hof : WrittenCall.of (es.flatMap Entry.written) trailing.isSome =
      ⟨es.flatMap Entry.written, none⟩ := by
    refine of_regular fun hsome => ?_
    obtain ⟨value, rfl⟩ := Option.isSome_iff_exists.mp hsome
    refine ⟨value, ?_, by simpa using hclosure⟩
    rw [hflat, supplied, List.map_append, Option.toList_some, List.map_singleton,
      List.map_singleton, List.getLast?_concat]
  rw [hof, ← hes.sameChain.isChain_iff, ← received?_regular hnames hes.parameters hes.fits,
    hes.arguments]

/-- A trailing closure must be bound to the last parameter, and the entries of the other arguments
    must follow one another. -/
theorem received?_of_closure {value : Expr} (hnames : (ps.map ParameterInfo.name).Nodup)
    (h : bindArguments ps (regular.map Argument.label) true = some binding)
    (hes : Carries ps (shares binding (regular.map Argument.value ++ [value])) es)
    (hclosure : Pass.isClosure value = true) :
    received? ps (WrittenCall.of (es.flatMap Entry.written) true) =
        some (shares binding (regular.map Argument.value ++ [value])) ↔
      binding.getLast? = some [regular.length] ∧
        (entries false ps (shares binding (regular.map Argument.value))).IsChain Entry.Follows := by
  obtain ⟨before, after, rfl, hbefore, hafter⟩ := bindArguments_trailing h
  have hlabels : (regular.map Argument.label).length = (regular.map Argument.value).length := by
    rw [List.length_map, List.length_map]
  have hregular : regular.length = (regular.map Argument.value).length := by rw [List.length_map]
  rw [hlabels] at hbefore hes ⊢
  rw [hregular]
  generalize regular.map Argument.value = values at hbefore hes ⊢
  have hwithout := shares_trailing hbefore hafter []
  rw [List.append_nil, List.take_nil] at hwithout
  rw [shares_trailing hbefore hafter, List.take_succ_cons, List.take_zero] at hes ⊢
  rw [hwithout]
  obtain ⟨front, tail, rfl, hfront, htail⟩ := List.map_eq_append_iff.mp hes.arguments
  obtain ⟨last, back, rfl, hlast, hback⟩ := List.map_eq_cons_iff.mp htail
  have hwritten : (front ++ last :: back).flatMap Entry.written = front.flatMap Entry.written ++
      [(if last.isNamed then some last.parameter.name else none, value)] := by
    -- Behind the closure every parameter takes its default.
    have hnil : ∀ entry ∈ back, entry.arguments = [] := by
      intro entry hentry
      have hmem : entry.arguments ∈ back.map Entry.arguments := List.mem_map_of_mem hentry
      rw [hback, List.mem_map] at hmem
      obtain ⟨_, -, hnil⟩ := hmem
      exact hnil.symm
    rw [List.flatMap_append, List.flatMap_cons, flatMap_written_eq_nil hnil, List.append_nil,
      Entry.written, hlast, List.map_singleton]
  rw [hwritten, of_concat hclosure]
  obtain rfl | ⟨after, bound, rfl⟩ := List.eq_nil_or_concat after
  · -- the closure is bound to the last parameter
    rw [List.map_nil, List.map_eq_nil_iff] at hback
    subst hback
    have hsame := sameChain_withoutLast hes.fits
      (by rw [hes.parameters, hes.arguments]; exact hes.naming)
    rw [hes.parameters, hfront] at hsame
    rw [List.map_nil, ← hsame.isChain_iff, ← received?_lambda hnames hes.parameters hlast hes.fits,
      hes.arguments, List.map_nil]
    simp [List.getLast?_cons]
  · -- a later parameter gets the lambda and expects nothing
    obtain rfl := hafter bound (by simp)
    refine iff_of_false (received?_ne_of_getLast?_eq_nil rfl ?_) fun hlast => ?_
    · simp [List.getLast?_cons]
    · exact absurd hlast.1 (by simp [List.getLast?_cons])

/-- Every call that can be bound has an argument node and is written from it.  Each parameter
    receives exactly the arguments bound to it if a trailing closure is bound to the last parameter
    and the entries in parentheses follow one another, and in no other case. -/
theorem received?_call_iff (hnames : (ps.map ParameterInfo.name).Nodup)
    (h : bindArguments ps (regular.map Argument.label) trailing.isSome = some binding)
    (declaration : String) (span : Span) :
    ∃ node, arrangeFor ps declaration regular trailing span = .ok node ∧
      (∀ registry callee isPure info,
        exprDocument registry .value (.call callee
            (Pass.relabelCall (ps.map ParameterInfo.name) node) trailing.isSome isPure info) =
          (writtenCall ps node trailing.isSome).document registry
            (calleeDocument registry callee)) ∧
      (received? ps (writtenCall ps node trailing.isSome) =
          some (shares binding ((supplied regular trailing).map Argument.value)) ↔
        (trailing.any Pass.isClosure = true → binding.getLast? = some [regular.length]) ∧
          (entries false ps (shares binding (parenthesized regular trailing))).IsChain
            Entry.Follows) := by
  obtain ⟨node, es, hnode, hwritten, hes⟩ := exists_entries declaration span h
  refine ⟨node, hnode, fun registry callee isPure info => exprDocument_call .., ?_⟩
  rw [writtenCall, hwritten]
  cases hclosure : trailing.any Pass.isClosure with
  | false =>
    rw [received?_of_regular hnames h hes hclosure, parenthesized, hclosure]
    simp
  | true =>
    -- The last of what is supplied is the closure, which is written after the parentheses.
    cases trailing with
    | none => exact absurd hclosure (by simp)
    | some value =>
      have hvalue : Pass.isClosure value = true := by simpa using hclosure
      have hsupplied : (supplied regular (some value)).map Argument.value =
          regular.map Argument.value ++ [value] := by
        rw [supplied, List.map_append, Option.toList_some, List.map_singleton, List.map_singleton]
      rw [hsupplied] at hes ⊢
      rw [Option.isSome_some, received?_of_closure hnames h hes hvalue, parenthesized, hclosure]
      simp

end

def closureBeforeDefault : List ParameterInfo :=
  [{ label := some "a", name := "a", ty := "Int" },
    { label := some "body", name := "body", ty := "() -> Void" },
    { label := some "c", name := "c", ty := "Int", hasDefault := true }]

/-- In `f(a: 1) { }` the closure is bound to `body`, but written after the parentheses it does not
    get there. -/
theorem received?_call_closureBeforeDefault :
    bindArguments closureBeforeDefault [some "a"] true = some [[0], [1], []] ∧
      ∃ node, arrangeFor closureBeforeDefault "f(a:body:c:)" [⟨some "a", .literal (.int 1) {}⟩]
          (some (.closure [] [] {})) ⟨0, 0⟩ = .ok node ∧
        received? closureBeforeDefault (writtenCall closureBeforeDefault node true) ≠
          some [[.literal (.int 1) {}], [.closure [] [] {}], []] := by
  have hbind : bindArguments closureBeforeDefault
      ([(⟨some "a", .literal (.int 1) {}⟩ : Argument)].map Argument.label)
      (some (Expr.closure [] [] {})).isSome = some [[0], [1], []] := by decide
  obtain ⟨node, hnode, -, hreceived⟩ :=
    received?_call_iff (by decide) hbind "f(a:body:c:)" ⟨0, 0⟩
  refine ⟨hbind, node, hnode, fun h => ?_⟩
  have hlast := (hreceived.mp h).1 rfl
  exact absurd hlast (by decide)

end Ferry.Target
