/-
  Ferry.Proofs.Pass.Pipeline

  The stages of a run.  Each pass is given the file that the one before it leaves, so the file after
  some passes is got by running them one after the other (`lastFile_transformFrom`), and a run of
  two lists of passes is a run of the first and then of the second (`transformFrom_append`).
-/
import Ferry.Pass.Pipeline

namespace Ferry

namespace Stage

theorem lastFile_cons (file : SourceFile) (stage : Stage) (stages : List Stage) :
    lastFile file (stage :: stages) = lastFile stage.file stages := by
  rw [lastFile, lastFile, List.getLast?_cons]
  cases stages.getLast? <;> rfl

end Stage

/-- The changing passes that are run before calls are named. -/
def PassId.beforeNaming : List PassId := PassId.transforming.take 12

theorem PassId.transforming_eq :
    transforming = beforeNaming ++
      [callLabelsToParameterNames, pureCalls, impureSwitchSubjects, mutableValueTypes,
        standardLibrary] :=
  rfl

section

variable {P : PassId → Prop}

/-- The passes up to the one that turns initializers into factories, each with its own fact. -/
theorem PassId.forall_mem_early_iff : (∀ pass ∈ transforming.take 4, P pass) ↔
    P removeParentheses ∧ P defersToFinally ∧ P removeExtensions ∧ P optionalInitsToFactories := by
  simp [transforming]

theorem PassId.forall_mem_late_iff : (∀ pass ∈ transforming.drop 4, P pass) ↔
    P staticMembersToCompanion ∧ P anonymousParameters ∧ P doubleNegativesInGuards ∧
      P returnIfNil ∧ P capitalizeEnumCases ∧ P isChecksForPayloadCases ∧ P switchesToExpressions ∧
      P removeBreaksInSwitches ∧ P callLabelsToParameterNames ∧ P pureCalls ∧
      P impureSwitchSubjects ∧ P mutableValueTypes ∧ P standardLibrary := by
  simp [transforming]

end

namespace Pipeline

def changed (registry : Registry) (passes : List PassId) (file : SourceFile) : SourceFile :=
  passes.foldl (fun file pass => (pass.transform registry).onFile file) file

theorem changed_append (registry : Registry) (passes more : List PassId) (file : SourceFile) :
    changed registry (passes ++ more) file = changed registry more (changed registry passes file) :=
  List.foldl_append

theorem changed_induction {registry : Registry} {passes : List PassId} {P : SourceFile → Prop}
    (hpasses : ∀ pass ∈ passes, ∀ {file}, P file → P ((pass.transform registry).onFile file))
    {file : SourceFile} (h : P file) : P (changed registry passes file) := by
  induction passes generalizing file with
  | nil => exact h
  | cons pass rest ih =>
    exact ih (fun pass hpass => hpasses pass (List.mem_cons_of_mem _ hpass))
      (hpasses pass List.mem_cons_self h)

theorem lastFile_transformFrom (registry : Registry) (passes : List PassId) (file : SourceFile) :
    Stage.lastFile file (transformFrom registry passes file) = changed registry passes file := by
  induction passes generalizing file with
  | nil => rfl
  | cons pass rest ih =>
    rw [transformFrom, Stage.lastFile_cons, ih]
    rfl

theorem transformFrom_append (registry : Registry) (passes more : List PassId) (file : SourceFile) :
    transformFrom registry (passes ++ more) file =
      transformFrom registry passes file ++
        transformFrom registry more (changed registry passes file) := by
  induction passes generalizing file with
  | nil => rfl
  | cons pass rest ih =>
    rw [List.cons_append, transformFrom, transformFrom, ih, List.cons_append]
    rfl

/-- A file as the changing passes are given it. -/
def collected (file : SourceFile) : SourceFile := Stage.lastFile file (collect [] file).1

theorem collected_eq (file : SourceFile) :
    collected file = Pass.classifyEnums.onFile (Pass.cleanInheritances.onFile file) :=
  rfl

/-- A file right before its switches are turned into values. -/
def beforeSwitches (registry : Registry) (file : SourceFile) : SourceFile :=
  changed registry (PassId.beforeNaming.take 10) (collected file)

/-- A file right before its calls are put under the names of parameters. -/
def beforeNaming (registry : Registry) (file : SourceFile) : SourceFile :=
  changed registry PassId.beforeNaming (collected file)

def finished (registry : Registry) (file : SourceFile) : SourceFile :=
  Stage.lastFile (collected file) (transform [] registry (collected file))

theorem transform_eq (registry : Registry) (file : SourceFile) :
    transform [] registry file = transformFrom registry PassId.transforming file :=
  rfl

theorem finished_eq_changed (registry : Registry) (file : SourceFile) :
    finished registry file = changed registry PassId.transforming (collected file) := by
  rw [finished, transform_eq, lastFile_transformFrom]

theorem finished_eq (registry : Registry) (file : SourceFile) :
    finished registry file = changed registry [.callLabelsToParameterNames, .pureCalls,
      .impureSwitchSubjects, .mutableValueTypes, .standardLibrary]
      (beforeNaming registry file) := by
  rw [finished_eq_changed, PassId.transforming_eq, changed_append]
  rfl

end Pipeline

end Ferry
