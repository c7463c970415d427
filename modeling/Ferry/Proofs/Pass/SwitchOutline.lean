/-
  Ferry.Proofs.Pass.SwitchOutline

  What becomes of the cases of a `switch`.  Its outline is where it stands, where its cases stand
  and how many patterns each of them has.  No pass before the one that turns switches into values
  changes an outline (`carries_early`); that one keeps it too, and leaves a value at the end of
  every case of what it turns into a value (`carries_switchesToExpressions_outlined`).  With a value
  at its end no case has a `break` to lose or nothing in it, so the passes after it keep the cases
  as they are (`carries_after`).
-/
import Ferry.Proofs.Pass.Carried

namespace Ferry

/-! ## Outlines -/

/-- A case, as it can be followed from pass to pass. -/
structure CaseOutline where
  patterns : Nat
  span : Option Span
deriving DecidableEq

def SwitchCase.outline (c : SwitchCase) : CaseOutline := ⟨c.patterns.length, c.span⟩

structure FoundSwitch where
  cases : List SwitchCase
  target : Option SwitchTarget
  span : Option Span

/-- A `switch`, as it can be followed from pass to pass. -/
structure SwitchOutline where
  cases : List CaseOutline
  span : Option Span
deriving DecidableEq

def FoundSwitch.outline (found : FoundSwitch) : SwitchOutline :=
  ⟨found.cases.map SwitchCase.outline, found.span⟩

def Stmt.switch? : Stmt → Option FoundSwitch
  | .switchStmt _ cases target span => some ⟨cases, target, span⟩
  | _ => none

/-- The switches of a file, also those in closures. -/
def switches : Survey FoundSwitch where
  after s := s.switch?.toList

def EndsInValue (body : List Stmt) : Prop := ∃ e span, body.getLast? = some (.expression e span)

/-- What is asked of every `switch`. -/
def Demand.ofSwitches (P : FoundSwitch → Prop) : Demand where
  stmt _ s := ∀ found ∈ s.switch?, P found

theorem metFile_ofSwitches_iff {P : FoundSwitch → Prop} {file : SourceFile} :
    (Demand.ofSwitches P).MetFile file ↔ ∀ found ∈ switches.ofFile file, P found :=
  Survey.metFile_pick_iff

namespace Pass

/-! ## Before switches are values -/

/-- What is asked of the outline of every `switch`, none of which is a value. -/
def outlined (p : SwitchOutline → Prop) : Demand :=
  .ofSwitches fun found => found.target = none ∧ p found.outline

/-- Statements that are the same to demands on outlines. -/
def SameOutline (s s' : Stmt) : Prop :=
  ∀ found' ∈ s'.switch?, ∃ found ∈ s.switch?, (found.target = none → found'.target = none) ∧
    found'.outline = found.outline

theorem SameOutline.refl (s : Stmt) : SameOutline s s :=
  fun found hfound => ⟨found, hfound, id, rfl⟩

variable {p : SwitchOutline → Prop}

theorem SameOutline.outlined {place other : Place} {s s' : Stmt} (h : SameOutline s s')
    (own : (outlined p).stmt place s) : (outlined p).stmt other s' := by
  intro found' hfound'
  obtain ⟨found, hfound, htarget, houtline⟩ := h found' hfound'
  obtain ⟨hnone, hp⟩ := own found hfound
  exact ⟨htarget hnone, houtline ▸ hp⟩

theorem sameOutline_mapParts (φ : Change) (s : Stmt) : SameOutline s (s.mapParts φ) := by
  intro found' hfound'
  cases s with
  | switchStmt subject cases target span =>
    obtain rfl := Option.some.inj hfound'
    refine ⟨_, rfl, fun hnone => ?_, ?_⟩
    · show target.map _ = none
      rw [show target = none from hnone]
      rfl
    · simp [FoundSwitch.outline, SwitchCase.outline, SwitchCase.mapParts, Function.comp_def]
  | _ => exact absurd hfound' (Option.not_mem_none _)

theorem isAnonymous_outlined : (outlined p).IsAnonymous where
  mild := isMild_of_stmt
  shallow.expr _ _ := trivial
  shallow.stmt φ own := (sameOutline_mapParts φ _).outlined own
  block _ := trivial
  counterpart _ := trivial
  name := trivial
  bare_expr _ _ := trivial
  bare_stmt _ own := own

theorem isLevel_outlined : (outlined p).IsLevel := ⟨Iff.rfl, fun _ => trivial⟩

theorem outlined_of_switch? {place : Place} {s : Stmt} (h : s.switch? = none) :
    (outlined p).stmt place s := by
  intro found hfound
  rw [h] at hfound
  exact absurd hfound (Option.not_mem_none _)

theorem sameOutline_checkCases (s : Stmt) : SameOutline s (checkCases s) := by
  fun_cases checkCases s with
  | case1 subject cases target span =>
    intro found' hfound'
    obtain rfl := Option.some.inj hfound'
    refine ⟨_, rfl, id, ?_⟩
    simp [FoundSwitch.outline, SwitchCase.outline, Function.comp_def]
  | case2 => exact .refl s

theorem carries_early (registry : Registry) :
    ∀ pass ∈ PassId.transforming.take 10,
      (pass.transform registry).Carries (outlined p) (outlined p) := by
  -- No pass before the one on switches looks at cases, but for the checks of the last.
  have hloose : (outlined p).IsLoose := isAnonymous_outlined.toIsLoose
  simp only [PassId.transforming, List.take_succ_cons, List.take_zero, List.forall_mem_cons]
  refine ⟨?_, ?_, ?_, ?_, ?_, ?_, ?_, ?_, ?_, ?_, fun _ h => absurd h List.not_mem_nil⟩
  · refine carries_removeParentheses_of (hloose.isKeptBy _) fun {place s} own => ?_
    cases s <;> exact own
  · exact carries_defersToFinally_of (hloose.isKeptBy _) isLevel_outlined (outlined_of_switch? rfl)
  · refine carries_removeExtensions_of (hloose.isKeptBy _) isLevel_outlined
      fun {place extended s} own => ?_
    cases s <;> exact own
  · refine carries_optionalInitsToFactories_of (hloose.isKeptBy _)
      (carries_returningSelf_of hloose (outlined_of_switch? rfl)) fun {place s} own => ?_
    fun_cases toFactory place.owner s <;> exact own
  · refine carries_of_stmt (hloose.isKeptBy _) (fun {place s} own => ?_)
      (metParts_hoistStmt isLevel_outlined (outlined_of_switch? rfl))
    cases s <;> exact own
  · exact carries_anonymousParameters isAnonymous_outlined
  · refine carries_of_stmt (hloose.isKeptBy _) (fun {place s} own => ?_)
      (metParts_cancelNegation hloose.mild.tame)
    fun_cases cancelNegation s <;> exact own
  · refine carries_of_stmt (hloose.isKeptBy _) (fun {place s} own => ?_)
      (metParts_returnForNil hloose.mild.tame)
    fun_cases returnForNil s <;> exact own
  · exact carries_capitalizeEnumCases hloose registry
  · exact carries_of_stmt (hloose.isKeptBy _) (fun own => (sameOutline_checkCases _).outlined own)
      (metParts_checkCases hloose.mild.tame)

/-! ## Switches as values -/

/-- What is asked of the outline of every `switch` that is a value, whose cases all end in one. -/
def whole (p : SwitchOutline → Prop) : Demand :=
  .ofSwitches fun found => found.target.isSome = true →
    p found.outline ∧ ∀ c ∈ found.cases, EndsInValue c.body

theorem whole_of_switch? {place : Place} {s : Stmt} (h : s.switch? = none) :
    (whole p).stmt place s := by
  intro found hfound
  rw [h] at hfound
  exact absurd hfound (Option.not_mem_none _)

/-- A case that hands over its value ends in it once it is handed over by the `switch`. -/
theorem endsInValue_yieldLast {c : SwitchCase} (h : (caseTarget? c).isSome = true) :
    EndsInValue (yieldLast c).body := by
  unfold caseTarget? at h
  split at h
  next e span hlast => exact ⟨e, span, by rw [yieldLast, hlast]; exact List.getLast?_concat⟩
  next lhs rhs span hlast => exact ⟨rhs, span, by rw [yieldLast, hlast]; exact List.getLast?_concat⟩
  next => exact absurd h Bool.false_ne_true

theorem whole_toValue {place : Place} {s : Stmt} (own : (outlined p).stmt place s) :
    (whole p).stmt place (toValue s) := by
  fun_cases toValue s with
  | case1 subject first rest span target htarget hall =>
    intro found hfound _
    obtain rfl := Option.some.inj hfound
    obtain ⟨-, hp⟩ := own _ rfl
    refine ⟨?_, List.forall_mem_map.mpr fun c hc => endsInValue_yieldLast ?_⟩
    · have houtline : ((first :: rest).map yieldLast).map SwitchCase.outline =
          (first :: rest).map SwitchCase.outline := by
        rw [List.map_map]
        rfl
      simpa only [FoundSwitch.outline, houtline] using hp
    · exact Option.isSome_of_any (List.all_eq_true.mp hall c hc)
  | _ =>
    intro found hfound hvalue
    obtain ⟨hnone, -⟩ := own found hfound
    rw [hnone] at hvalue
    exact absurd hvalue Bool.false_ne_true

theorem carries_switchesToExpressions_outlined :
    switchesToExpressions.Carries (outlined p) (whole p) := by
  refine .of_shallow (fun _ => rfl) (fun _ => rfl) isAnonymous_outlined.shallow
    (fun _ parts => .expr trivial parts) ?_ ?_ (fun _ _ => trivial)
  · intro place s own parts made hmade
    obtain rfl := List.mem_singleton.mp hmade
    exact ⟨whole_toValue own, metParts_toValue (whole_of_switch? rfl) (fun _ => trivial) parts⟩
  · intro place list h
    refine Demand.met_stmts_iff.mpr ⟨metStmt_joinDeclarations ?_ h, trivial⟩
    intro place subject cases lhs item span own found hfound _
    obtain rfl := Option.some.inj hfound
    exact own ⟨cases, some (.assigned lhs), span⟩ rfl rfl

/-! ## After switches are values -/

section

variable {g : Bool → Expr → Expr} {f : Stmt → Stmt}

/-- A transform that keeps values as they are statements leaves a value at the end. -/
theorem endsInValue_onStmts (hf : ∀ e span, f (.expression e span) = .expression e span)
    {body : List Stmt} (h : EndsInValue body) (owner : Option String) :
    EndsInValue (Transform.onStmts { expr := g, stmt := fun _ s => [f s] } owner body) := by
  obtain ⟨e, span, hlast⟩ := h
  rw [EndsInValue, Transform.onStmts_eq]
  show ∃ e span, (body.flatMap fun s => [_]).getLast? = _
  rw [← List.map_eq_flatMap, List.getLast?_map, hlast, Option.map_some, Transform.onStmt_eq]
  exact ⟨_, _, congrArg some (hf _ _)⟩

/-- A pass that changes single expressions and statements, but no cases that end in values. -/
theorem carries_whole
    (hg : ∀ {place called e}, (whole p).Met place (.expr called e) →
      (whole p).Met place (.expr called (g called e)))
    (hf : ∀ e span, f (.expression e span) = .expression e span)
    (hown : ∀ {place s}, (whole p).stmt place s → (whole p).stmt place (f s))
    (hparts : ∀ {place s}, (whole p).MetParts place s.parts →
      (whole p).MetParts place (f s).parts) :
    Transform.Carries { expr := g, stmt := fun _ s => [f s] } (whole p) (whole p) := by
  refine .of_stmt (whole p).stmt (fun _ => rfl) (fun _ _ parts => hg (.expr trivial parts))
    (fun h => absurd h Bool.true_eq_false.mp) ?_ (fun h => Demand.met_stmts_iff.mpr ⟨h, trivial⟩)
    (fun _ _ => trivial)
  intro place s own parts made hmade
  obtain rfl := List.mem_singleton.mp hmade
  refine ⟨hown ?_, hparts parts⟩
  -- A `switch` that is a value has the cases of the one before it, and its last values stay last.
  intro found' hfound' hvalue
  obtain ⟨found, hfound, -, houtline⟩ := sameOutline_mapParts _ s found' hfound'
  cases s with
  | switchStmt subject cases target span =>
    obtain rfl := Option.some.inj hfound'
    obtain rfl := Option.some.inj hfound
    obtain ⟨hp, hends⟩ := own _ rfl (Option.isSome_map.symm.trans hvalue)
    rw [houtline]
    exact ⟨hp, List.forall_mem_map.mpr fun c hc => endsInValue_onStmts hf (hends c hc) _⟩
  | _ => exact absurd hfound' (Option.not_mem_none _)

end

theorem dropBreaks_of_endsInValue {subject : Expr} {cases : List SwitchCase}
    {target : Option SwitchTarget} {span : Option Span} (h : ∀ c ∈ cases, EndsInValue c.body) :
    dropBreaks (.switchStmt subject cases target span) = .switchStmt subject cases target span := by
  have hkept : cases.map (fun c => { c with body := dropBreak c.body }) = cases.map id := by
    refine List.map_congr_left fun c hc => ?_
    obtain ⟨e, span, hlast⟩ := h c hc
    have hbody : dropBreak c.body = c.body := by rw [dropBreak, hlast]
    cases c
    rw [hbody]
    rfl
  have hfull : ∀ c ∈ cases, (!isIdle c) = true := by
    intro c hc
    obtain ⟨e, span, hlast⟩ := h c hc
    have hbody : c.body ≠ [] := fun hnil => by simp [hnil] at hlast
    simp [isIdle, hbody]
  rw [dropBreaks, hkept, List.map_id, List.filter_eq_self.mpr hfull]

theorem whole_dropBreaks {place : Place} {s : Stmt} (own : (whole p).stmt place s) :
    (whole p).stmt place (dropBreaks s) := by
  cases s with
  | switchStmt subject cases target span =>
    cases target with
    | none =>
      intro found hfound hvalue
      obtain rfl := Option.some.inj hfound
      exact absurd hvalue Bool.false_ne_true
    | some target =>
      rw [dropBreaks_of_endsInValue (own _ rfl rfl).2]
      exact own
  | _ => exact own

theorem carries_after (registry : Registry) :
    ∀ pass ∈ PassId.transforming.drop 11, (pass.transform registry).Carries
    (whole p) (whole p) := by
  have hmild : (whole p).IsMild := isMild_of_stmt
  have hexpr : ∀ {g : Bool → Expr → Expr},
      (∀ {place called e}, (whole p).Met place (.expr called e) →
      (whole p).Met place (.expr called (g called e))) →
        Transform.Carries { expr := g } (whole p) (whole p) :=
    fun hg => carries_whole hg (fun _ _ => rfl) id id
  show ∀ pass ∈ [PassId.removeBreaksInSwitches, .callLabelsToParameterNames, .pureCalls,
    .impureSwitchSubjects, .mutableValueTypes, .standardLibrary], _
  simp only [List.forall_mem_cons]
  refine ⟨carries_whole id (fun _ _ => rfl) whole_dropBreaks (metParts_dropBreaks fun _ => trivial),
    hexpr (met_nameArguments hmild registry), hexpr (met_markPure hmild registry),
    hexpr id, hexpr id,
    hexpr (met_replaceReference_of hmild id), fun _ h => absurd h List.not_mem_nil⟩

end Pass

/-! ## The whole run -/

/-- In a file none of whose switches is a value, every `switch` that all passes make a value of has
all the cases of one that stood there in the file, in their order, and a value at the end of
each. -/
theorem whole_of_mem_switches (registry : Registry) (file : SourceFile)
    (hfile : ∀ found ∈ switches.ofFile file, found.target = none) :
    ∀ found ∈ switches.ofFile (Stage.lastFile file (Pipeline.transform [] registry file)),
      found.target.isSome = true →
        (∃ origin ∈ switches.ofFile file, found.outline = origin.outline) ∧
          ∀ c ∈ found.cases, EndsInValue c.body := by
  let p (outline : SwitchOutline) : Prop :=
    ∃ origin ∈ switches.ofFile file, outline = origin.outline
  have hstart : (Pass.outlined p).MetFile file :=
    metFile_ofSwitches_iff.mpr fun found hfound => ⟨hfile found hfound, found, hfound, rfl⟩
  have hearly := Pipeline.metFile_changed (Pass.carries_early registry) hstart
  have hvalues := Pass.carries_switchesToExpressions_outlined.metFile hearly
  have hend := Pipeline.metFile_changed (Pass.carries_after registry) hvalues
  have hpasses : PassId.transforming = PassId.transforming.take 10 ++
      .switchesToExpressions :: PassId.transforming.drop 11 := rfl
  rw [Pipeline.transform_eq, Pipeline.lastFile_transformFrom, hpasses, Pipeline.changed_append,
    Pipeline.changed, List.foldl_cons]
  exact metFile_ofSwitches_iff.mp hend

def gradedFile : SourceFile where
  path := "graded"
  statements :=
    [.declare (.simple "grade" (some "Int") none false),
      .switchStmt (.name "points" false false {})
        [⟨[.literal (.int 1) {}, .literal (.int 2) {}],
            [.assign (.name "grade" false false {}) (.literal (.int 6) {}) none], some ⟨30, 60⟩⟩,
          ⟨[], [.expression (.call (.name "log" false false {}) (.tuple [] {}) false false {}) none,
            .assign (.name "grade" false false {}) (.literal (.int 1) {}) none], some ⟨61, 99⟩⟩]
        none (some ⟨15, 100⟩)]

/-- The `switch` becomes a value with both of its cases. -/
theorem whole_gradedFile :
    (∀ found ∈ switches.ofFile gradedFile, found.target = none) ∧
      let made := switches.ofFile (Stage.lastFile gradedFile (Pipeline.transform [] {} gradedFile))
      (made.map fun found => (found.target.isSome, found.outline)) =
          [(true, ⟨[⟨2, some ⟨30, 60⟩⟩, ⟨0, some ⟨61, 99⟩⟩], some ⟨15, 100⟩⟩)] ∧
        ∀ found ∈ made, found.target.isSome = true →
          (∃ origin ∈ switches.ofFile gradedFile, found.outline = origin.outline) ∧
            ∀ c ∈ found.cases, EndsInValue c.body := by
  have hfile : ∀ found ∈ switches.ofFile gradedFile, found.target = none := by
    intro found hfound
    obtain rfl := List.mem_singleton.mp hfound
    rfl
  exact ⟨hfile, by decide, whole_of_mem_switches {} gradedFile hfile⟩

end Ferry
