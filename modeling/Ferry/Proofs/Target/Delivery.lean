/-
  Ferry.Proofs.Target.Delivery

  Which arguments of a written call reach which parameter.  The arguments of a call are written
  parameter by parameter.  An entry is what one parameter gets that way: its arguments, and whether
  they stand behind its name.

  An argument without a name goes where the one before it leads, so it arrives exactly if the entry
  before it has an argument and is not variadic (`Entry.Follows`).  `received?_eq_some_iff` says
  that all arguments arrive exactly if every entry follows the one before it; one that does not puts
  a surplus on an earlier parameter (`exists_surplus`).
-/
import Mathlib.Data.List.Chain
import Ferry.Proofs.Target.Call

namespace Ferry.Target

open Source (ParameterInfo)

/-- The arguments of one parameter as a call writes them. -/
structure Entry where
  parameter : ParameterInfo
  arguments : List Expr
  /-- Whether they are written behind the name of the parameter. -/
  isNamed : Bool

namespace Entry

def written (entry : Entry) : List (Option String × Expr) :=
  entry.arguments.map fun value =>
    (if entry.isNamed then some entry.parameter.name else none, value)

/-- Arguments without a name need an argument of the parameter before them, which must not be
    variadic or it would keep them. -/
def Follows (before after : Entry) : Prop :=
  after.isNamed = false → after.arguments ≠ [] →
    before.arguments ≠ [] ∧ before.parameter.isVariadic = false

/-- Only a variadic parameter takes more than one argument, and never by name. -/
def Fits (entry : Entry) : Prop :=
  entry.parameter.isVariadic = true ∧ entry.isNamed = false ∨ entry.arguments.length ≤ 1

end Entry

/-- The arguments of entries with the positions of their parameters, from a position on. -/
def tagged : (start : Nat) → List Entry → List (Nat × Expr)
  | _, [] => []
  | start, entry :: rest => entry.arguments.map (start, ·) ++ tagged (start + 1) rest

/-! ## Where a positional argument goes -/

/-- What is known in front of the entry at a position: which entry comes before it, and which
    parameter was served last. -/
structure Context (ps : List ParameterInfo) (position : Nat) (before : Option Entry)
    (last : Option Nat) : Prop where
  start : before = none → position = 0 ∧ last = none
  step : ∀ entry, before = some entry → ∃ i, position = i + 1 ∧ ps[i]? = some entry.parameter ∧
    (entry.arguments ≠ [] → last = some i) ∧ (entry.arguments = [] → ∀ j, last = some j → j < i)

namespace Context

variable {ps : List ParameterInfo} {position : Nat} {before : Option Entry} {last : Option Nat}

theorem zero (ps : List ParameterInfo) : Context ps 0 none none where
  start _ := ⟨rfl, rfl⟩
  step _ h := absurd h (by simp)

theorem last_lt (h : Context ps position before last) {j : Nat} (hj : last = some j) :
    j < position := by
  cases before with
  | none =>
    rw [(h.start rfl).2] at hj
    exact absurd hj (by simp)
  | some entry =>
    obtain ⟨i, rfl, -, hsome, hnone⟩ := h.step entry rfl
    by_cases harguments : entry.arguments = []
    · have hlt := hnone harguments j hj
      omega
    · rw [hsome harguments, Option.some.injEq] at hj
      omega

theorem next (h : Context ps position before last) {entry : Entry}
    (hp : ps[position]? = some entry.parameter) :
    Context ps (position + 1) (some entry)
      (if entry.arguments.isEmpty then last else some position) where
  start hnone := absurd hnone (by simp)
  step found hfound := by
    rw [Option.some.injEq] at hfound
    subst hfound
    refine ⟨position, rfl, hp, ?_, ?_⟩
    · intro hne
      rw [if_neg (by simpa using hne)]
    · intro hnil j hj
      rw [if_pos (by simpa using hnil)] at hj
      exact h.last_lt hj

theorem nextPosition_eq (h : Context ps position before last)
    (hbefore : ∀ entry, before = some entry →
      entry.arguments ≠ [] ∧ entry.parameter.isVariadic = false) :
    nextPosition ps last = position := by
  cases before with
  | none =>
    obtain ⟨rfl, rfl⟩ := h.start rfl
    rfl
  | some entry =>
    obtain ⟨i, rfl, hp, hsome, -⟩ := h.step entry rfl
    obtain ⟨hne, hvariadic⟩ := hbefore entry rfl
    rw [hsome hne, nextPosition, hp, Option.any_some, hvariadic]
    rfl

theorem nextPosition_lt (h : Context ps position before last) {entry : Entry}
    (hbefore : before = some entry)
    (hentry : entry.arguments ≠ [] → entry.parameter.isVariadic = true) :
    nextPosition ps last < position := by
  obtain ⟨i, rfl, hp, hsome, hnone⟩ := h.step entry hbefore
  by_cases harguments : entry.arguments = []
  · cases hlast : last with
    | none => simp [nextPosition]
    | some j =>
      have hlt := hnone harguments j hlast
      rw [nextPosition]
      split <;> omega
  · rw [hsome harguments, nextPosition, hp, Option.any_some, hentry harguments, if_pos rfl]
    omega

end Context

/-! ## Where the arguments of an entry go -/

section

variable {ps : List ParameterInfo} {position : Nat} {before : Option Entry} {last : Option Nat}
variable {entry : Entry} {rest : List (Option String × Expr)}

theorem positionOf?_name (hnames : (ps.map ParameterInfo.name).Nodup) {p : ParameterInfo}
    (hp : ps[position]? = some p) : positionOf? ps last (some p.name) = some position := by
  obtain ⟨hlt, hget⟩ := List.getElem?_eq_some_iff.mp hp
  rw [positionOf?, List.findIdx?_eq_some_iff_getElem]
  refine ⟨hlt, by simp [hget], ?_⟩
  intro j hj hname
  rw [beq_iff_eq] at hname
  have hnodup := List.pairwise_iff_getElem.mp hnames j position (by simpa using hj.trans hlt)
    (by simpa using hlt) hj
  exact hnodup (by simp [hname, hget])

theorem positionOf?_none (hp : nextPosition ps last = position) (hlt : position < ps.length) :
    positionOf? ps last none = some position := by
  rw [positionOf?, hp, if_pos hlt]

theorem placed?_cons {label : Option String} {value : Expr} {i : Nat}
    (h : positionOf? ps last label = some i) :
    placed? ps last ((label, value) :: rest) = (placed? ps (some i) rest).map
    ((i, value) :: ·) := by
  rw [placed?, h, Option.map_eq_bind]
  rfl

theorem nextPosition_variadic {p : ParameterInfo} (hp : ps[position]? = some p)
    (hvariadic : p.isVariadic = true) : nextPosition ps (some position) = position := by
  rw [nextPosition, hp, Option.any_some, hvariadic, if_pos rfl]

/-- A variadic parameter keeps further arguments without a name. -/
theorem placed?_variadic {p : ParameterInfo} (hp : ps[position]? = some p)
    (hvariadic : p.isVariadic = true) (values : List Expr) :
    placed? ps (some position) (values.map (none, ·) ++ rest) =
      (placed? ps (some position) rest).map (values.map (position, ·) ++ ·) := by
  obtain ⟨hlt, -⟩ := List.getElem?_eq_some_iff.mp hp
  have hposition : positionOf? ps (some position) none = some position :=
    positionOf?_none (nextPosition_variadic hp hvariadic) hlt
  induction values with
  | nil => simp
  | cons value values ih =>
    rw [List.map_cons, List.cons_append, placed?_cons hposition, ih, Option.map_map]
    rfl

theorem placed?_written_of_first (hp : ps[position]? = some entry.parameter) (hfits : entry.Fits)
    {value : Expr} {values : List Expr} (harguments : entry.arguments = value :: values)
    (hfirst : positionOf? ps last (if entry.isNamed then some entry.parameter.name else none) =
      some position) :
    placed? ps last (entry.written ++ rest) =
      (placed? ps (some position) rest).map (entry.arguments.map (position, ·) ++ ·) := by
  have hmore : placed? ps (some position) (values.map (fun value =>
      (if entry.isNamed then some entry.parameter.name else none, value)) ++ rest) =
        (placed? ps (some position) rest).map (values.map (position, ·) ++ ·) := by
    obtain ⟨hvariadic, hnamed⟩ | hlength := hfits
    · simp only [hnamed]
      exact placed?_variadic hp hvariadic values
    · rw [harguments, List.length_cons] at hlength
      have hnil : values = [] := List.eq_nil_of_length_eq_zero (by omega)
      simp [hnil]
  rw [Entry.written, harguments, List.map_cons, List.cons_append, placed?_cons hfirst, hmore,
    Option.map_map]
  rfl

/-- The arguments of an entry reach its parameter if the entry follows the one before it. -/
theorem placed?_written (hnames : (ps.map ParameterInfo.name).Nodup)
    (hcontext : Context ps position before last) (hp : ps[position]? = some entry.parameter)
    (hfits : entry.Fits) (hfollows : ∀ e, before = some e → e.Follows entry) :
    placed? ps last (entry.written ++ rest) =
      (placed? ps (if entry.arguments.isEmpty then last else some position) rest).map
        (entry.arguments.map (position, ·) ++ ·) := by
  cases harguments : entry.arguments with
  | nil => simp [Entry.written, harguments]
  | cons value values =>
    have hne : entry.arguments ≠ [] := by simp [harguments]
    rw [List.isEmpty_cons, if_neg (by simp), ← harguments]
    refine placed?_written_of_first hp hfits harguments ?_
    cases hnamed : entry.isNamed with
    | true => exact positionOf?_name hnames hp
    | false =>
      obtain ⟨hlt, -⟩ := List.getElem?_eq_some_iff.mp hp
      exact positionOf?_none (hcontext.nextPosition_eq fun e he => hfollows e he hnamed hne) hlt

/-- The first argument of an entry that does not follow goes to an earlier parameter. -/
theorem placed?_written_astray {e : Entry} (hcontext : Context ps position (some e) last)
    (hfollows : ¬ e.Follows entry) {placed : List (Nat × Expr)}
    (hplaced : placed? ps last (entry.written ++ rest) = some placed) :
    ∃ j value more, j < position ∧ placed = (j, value) :: more := by
  rw [Entry.Follows, Classical.not_imp, Classical.not_imp] at hfollows
  obtain ⟨hnamed, hne, hbefore⟩ := hfollows
  obtain ⟨value, values, harguments⟩ := List.exists_cons_of_ne_nil hne
  have hlt : nextPosition ps last < position := hcontext.nextPosition_lt rfl fun hne => by
    simpa using not_and.mp hbefore hne
  simp only [Entry.written, harguments, List.map_cons, List.cons_append, hnamed, placed?,
    positionOf?, Option.bind_eq_bind, Option.bind_eq_some_iff] at hplaced
  obtain ⟨j, hj, more, -, hmore⟩ := hplaced
  have hj : j = nextPosition ps last := by
    by_cases hin : nextPosition ps last < ps.length <;> simp_all
  exact ⟨j, value, more, hj ▸ hlt, (Option.some.inj hmore).symm⟩

end

/-! ## Where the arguments of a call go -/

section

variable {ps : List ParameterInfo} {position : Nat} {before : Option Entry} {last : Option Nat}
variable {entries : List Entry}

theorem getElem?_of_drop_eq {entry : Entry} {rest : List Entry}
    (h : ps.drop position = (entry :: rest).map Entry.parameter) :
    ps[position]? = some entry.parameter ∧ ps.drop (position + 1) = rest.map Entry.parameter := by
  constructor
  · rw [← List.head?_drop, h, List.map_cons, List.head?_cons]
  · rw [← List.tail_drop, h, List.map_cons, List.tail_cons]

theorem isChain_toList_append_cons {entry : Entry} {rest : List Entry} :
    (before.toList ++ entry :: rest).IsChain Entry.Follows ↔
      (∀ e, before = some e → e.Follows entry) ∧ (entry :: rest).IsChain Entry.Follows := by
  cases before <;> simp

theorem placed?_of_isChain (hnames : (ps.map ParameterInfo.name).Nodup)
    (hcontext : Context ps position before last)
    (hparameters : ps.drop position = entries.map Entry.parameter)
    (hfits : ∀ entry ∈ entries, entry.Fits)
    (hchain : (before.toList ++ entries).IsChain Entry.Follows) :
    placed? ps last (entries.flatMap Entry.written) = some (tagged position entries) := by
  induction entries generalizing position before last with
  | nil => rfl
  | cons entry rest ih =>
    obtain ⟨hp, hrest⟩ := getElem?_of_drop_eq hparameters
    obtain ⟨hfollows, hchain⟩ := isChain_toList_append_cons.mp hchain
    rw [List.flatMap_cons,
      placed?_written hnames hcontext hp (hfits entry List.mem_cons_self) hfollows,
      ih (hcontext.next hp) hrest (fun e he => hfits e (List.mem_cons_of_mem _ he)) hchain]
    rfl

theorem shareAt_append (placed more : List (Nat × Expr)) (i : Nat) :
    shareAt (placed ++ more) i = shareAt placed i ++ shareAt more i := by
  rw [shareAt, shareAt, shareAt, List.filterMap_append]

theorem shareAt_map_eq (i : Nat) (values : List Expr) : shareAt (values.map (i, ·)) i = values := by
  simp [shareAt, List.filterMap_map]

theorem shareAt_map_ne {i j : Nat} (h : i ≠ j) (values : List Expr) :
    shareAt (values.map (i, ·)) j = [] := by
  simp [shareAt, h]

theorem shareAt_tagged_lt {i : Nat} (h : i < position) :
    shareAt (tagged position entries) i = [] := by
  induction entries generalizing position with
  | nil => rfl
  | cons entry rest ih =>
    rw [tagged, shareAt_append, shareAt_map_ne (by omega), ih (by omega), List.append_nil]

theorem map_shareAt_tagged (position : Nat) (entries : List Entry) :
    (List.range' position entries.length).map (shareAt (tagged position entries)) =
      entries.map Entry.arguments := by
  induction entries generalizing position with
  | nil => rfl
  | cons entry rest ih =>
    have hrest : ∀ i ∈ List.range' (position + 1) rest.length,
        shareAt (tagged position (entry :: rest)) i = shareAt (tagged (position + 1) rest) i := by
      intro i hi
      have hle : position + 1 ≤ i := (List.mem_range'_1.mp hi).1
      rw [tagged, shareAt_append, shareAt_map_ne (by omega), List.nil_append]
    rw [List.length_cons, List.range'_succ, List.map_cons, List.map_cons,
      List.map_congr_left hrest, ih, tagged, shareAt_append, shareAt_map_eq,
      shareAt_tagged_lt (by omega), List.append_nil]

/-- If an entry does not follow the one before it, some parameter receives more arguments than its
    entry holds. -/
theorem exists_surplus (hnames : (ps.map ParameterInfo.name).Nodup)
    (hcontext : Context ps position before last)
    (hparameters : ps.drop position = entries.map Entry.parameter)
    (hfits : ∀ entry ∈ entries, entry.Fits)
    (hchain : ¬ (before.toList ++ entries).IsChain Entry.Follows)
    {placed : List (Nat × Expr)}
    (hplaced : placed? ps last (entries.flatMap Entry.written) = some placed) :
    ∃ i, i < ps.length ∧
      (shareAt (tagged position entries) i).length < (shareAt placed i).length := by
  induction entries generalizing position before last placed with
  | nil => exact absurd (by cases before <;> simp) hchain
  | cons entry rest ih =>
    obtain ⟨hp, hrest⟩ := getElem?_of_drop_eq hparameters
    have hlt : position < ps.length := (List.getElem?_eq_some_iff.mp hp).1
    rw [List.flatMap_cons] at hplaced
    by_cases hfollows : ∀ e, before = some e → e.Follows entry
    · -- the entry is placed right, so the surplus is among the others
      rw [placed?_written hnames hcontext hp (hfits entry List.mem_cons_self) hfollows,
        Option.map_eq_some_iff] at hplaced
      obtain ⟨more, hmore, rfl⟩ := hplaced
      have hchain : ¬ ((some entry).toList ++ rest).IsChain Entry.Follows := fun h =>
        hchain (isChain_toList_append_cons.mpr ⟨hfollows, h⟩)
      obtain ⟨i, hi, hsurplus⟩ := ih (hcontext.next hp) hrest
        (fun e he => hfits e (List.mem_cons_of_mem _ he)) hchain hmore
      refine ⟨i, hi, ?_⟩
      rw [tagged, shareAt_append, shareAt_append, List.length_append, List.length_append]
      omega
    · -- its first argument lands before its own position, where nothing is due
      push Not at hfollows
      obtain ⟨e, rfl, hfollows⟩ := hfollows
      obtain ⟨j, value, more, hj, rfl⟩ := placed?_written_astray hcontext hfollows hplaced
      refine ⟨j, hj.trans hlt, ?_⟩
      rw [shareAt_tagged_lt hj]
      simp [shareAt]

/-! ## What the parameters receive -/

theorem tagged_append (start : Nat) (entries more : List Entry) :
    tagged start (entries ++ more) = tagged start entries ++
    tagged (start + entries.length) more := by
  induction entries generalizing start with
  | nil => rfl
  | cons entry rest ih =>
    rw [List.cons_append, tagged, tagged, ih, List.append_assoc, List.length_cons, Nat.add_assoc,
      Nat.add_comm 1]

theorem zip_all_fits (hfits : ∀ entry ∈ entries, entry.Fits) :
    (((entries.map Entry.parameter).zip (entries.map Entry.arguments)).all fun (p, share) =>
      p.isVariadic || share.length ≤ 1) = true := by
  rw [List.zip_map', List.all_map, List.all_eq_true]
  intro entry hentry
  obtain ⟨hvariadic, -⟩ | hlength := hfits entry hentry
  · simp [hvariadic]
  · simp [hlength]

/-- The parameters receive what their entries hold exactly if the entries written in parentheses
    follow one another.  What the lambda brings is in the entries that are received. -/
theorem received?_eq_some_iff (hnames : (ps.map ParameterInfo.name).Nodup)
    {written : List Entry} (hparameters : ps = entries.map Entry.parameter)
    (hwritten : ps = written.map Entry.parameter)
    (hfits : ∀ entry ∈ entries, entry.Fits) (hwrittenFits : ∀ entry ∈ written, entry.Fits)
    {lambda : Option Expr} {placedLambda : List (Nat × Expr)}
    (hlambda : placedLambda? ps lambda = some placedLambda)
    (htagged : tagged 0 entries = tagged 0 written ++ placedLambda) :
    received? ps ⟨written.flatMap Entry.written, lambda⟩ = some (entries.map Entry.arguments) ↔
      written.IsChain Entry.Follows := by
  have hlength : ps.length = entries.length := by simp [hparameters]
  have hexpected : (List.range ps.length).map (shareAt (tagged 0 entries)) =
      entries.map Entry.arguments := by
    rw [hlength, List.range_eq_range']
    exact map_shareAt_tagged 0 entries
  constructor
  · intro hreceived
    by_contra hchain
    simp only [received?, hlambda, Option.bind_eq_bind, Option.bind_eq_some_iff, Option.some.injEq,
      exists_eq_left'] at hreceived
    obtain ⟨placed, hplaced, hfound⟩ := hreceived
    obtain ⟨i, hi, hsurplus⟩ :=
      exists_surplus hnames (Context.zero ps) hwritten hwrittenFits hchain hplaced
    have hshare : shareAt (placed ++ placedLambda) i = shareAt (tagged 0 entries) i := by
      have hfound : (List.range ps.length).map (shareAt (placed ++ placedLambda)) =
          entries.map Entry.arguments := by
        split at hfound
        · exact Option.some.inj hfound
        · exact absurd hfound (by simp)
      rw [← hexpected, List.map_inj_left] at hfound
      exact hfound i (List.mem_range.mpr hi)
    -- The lambda adds the same to both shares, so the surplus shows in their lengths.
    have hcount := congrArg List.length hshare
    rw [htagged, shareAt_append, shareAt_append, List.length_append, List.length_append] at hcount
    omega
  · intro hchain
    have hplaced := placed?_of_isChain hnames (Context.zero ps) hwritten hwrittenFits hchain
    have hcheck := zip_all_fits hfits
    rw [← hparameters] at hcheck
    simp only [received?, hplaced, hlambda, Option.bind_eq_bind, Option.bind_some, ← htagged,
      hexpected]
    rw [if_pos hcheck]

/-- A lambda after the parentheses is not received by a parameter before the last one. -/
theorem received?_ne_of_getLast?_eq_nil {call : WrittenCall} {value : Expr}
    (hlambda : call.lambda = some value) {expected : List (List Expr)}
    (hexpected : expected.getLast? = some []) : received? ps call ≠ some expected := by
  intro hreceived
  simp only [received?, hlambda, Option.bind_eq_bind, Option.bind_eq_some_iff] at hreceived
  obtain ⟨placed, -, more, hmore, hfound⟩ := hreceived
  rw [placedLambda?] at hmore
  split at hmore
  next => exact absurd hmore (by simp)
  next hps =>
    have hpos : 0 < ps.length := List.length_pos_iff.mpr (by simpa using hps)
    obtain rfl := Option.some.inj hmore
    split at hfound
    next =>
      obtain rfl := Option.some.inj hfound
      rw [List.getLast?_map, List.getLast?_range, if_neg (by omega), Option.map_some,
        Option.some.injEq, shareAt_append, List.append_eq_nil_iff] at hexpected
      exact absurd hexpected.2 (by simp [shareAt])
    next => exact absurd hfound (by simp)

end

end Ferry.Target
