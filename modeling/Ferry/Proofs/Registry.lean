/-
  Ferry.Proofs.Registry

  What a registry answers after it has recorded facts.  About functions, one fact changes the answer
  for its own key only (`parameterNames?_record`, `isPure_record`); after many facts the last one
  with names for the key decides, and a key is pure if some fact says so.

  In general every fact has a subject, and a registry holds at most one fact about each, the last
  (`about_record`).  What it holds about all subjects decides all its answers (`SameAnswers`).
-/
import Ferry.Registry

namespace Ferry

def Fact.namesFor? (key : String) : Fact → Option (List String)
  | .function k names => if key = k then some names else none
  | _ => none

def Fact.isOfFunction : Fact → Bool
  | .function .. | .pureFunction _ => true
  | _ => false

namespace Registry

theorem parameterNames?_record (registry : Registry) (fact : Fact) (key : String) :
    (registry.record fact).parameterNames? key =
      (fact.namesFor? key).or (registry.parameterNames? key) := by
  cases fact with
  | function k names =>
    show (Association.put k names registry.functions).lookup key = _
    rw [Association.lookup_put, Fact.namesFor?]
    by_cases h : key = k
    · simp [h]
    · simp [h, parameterNames?]
  | _ => rfl

theorem isPure_record (registry : Registry) (fact : Fact) (key : String) :
    (registry.record fact).isPure key = true ↔
      fact = .pureFunction key ∨ registry.isPure key = true := by
  cases fact with
  | pureFunction k =>
    show (Association.add k registry.pureFunctions).contains key = true ↔ _
    rw [Association.contains_add, Bool.or_eq_true, beq_iff_eq, Fact.pureFunction.injEq, eq_comm]
    rfl
  | _ => simp [record, isPure]

theorem parameterNames?_recordAll (registry : Registry) (facts : List Fact) (key : String) :
    (registry.recordAll facts).parameterNames? key =
      (facts.filterMap (Fact.namesFor? key)).getLast?.or (registry.parameterNames? key) := by
  induction facts generalizing registry with
  | nil => rfl
  | cons fact rest ih =>
    show ((registry.record fact).recordAll rest).parameterNames? key = _
    rw [ih, parameterNames?_record]
    cases hnames : fact.namesFor? key with
    | none => rw [List.filterMap_cons_none hnames, Option.none_or]
    | some names =>
      rw [List.filterMap_cons_some hnames, List.getLast?_cons]
      cases (rest.filterMap (Fact.namesFor? key)).getLast? <;> rfl

theorem isPure_recordAll (registry : Registry) (facts : List Fact) (key : String) :
    (registry.recordAll facts).isPure key = true ↔
      registry.isPure key = true ∨ .pureFunction key ∈ facts := by
  induction facts generalizing registry with
  | nil => simp [recordAll]
  | cons fact rest ih =>
    show ((registry.record fact).recordAll rest).isPure key = true ↔ _
    rw [ih, isPure_record, List.mem_cons, or_assoc, or_left_comm,
      @eq_comm _ fact]

end Registry

/-! ## Subjects -/

/-- What a fact is about. -/
inductive Subject where
  | enumeration (name : String)
  | protocolType (name : String)
  | function (key : String)
  | pureFunction (key : String)
  | structType (name : String)
  | classType (name : String)
deriving DecidableEq

/-- A fact about the same subject as an earlier one replaces it. -/
def Fact.subject : Fact → Subject
  | .enumeration name _ _ => .enumeration name
  | .protocolType name => .protocolType name
  | .function key _ => .function key
  | .pureFunction key => .pureFunction key
  | .structType name => .structType name
  | .classType name => .classType name

namespace Registry

def about (registry : Registry) : Subject → Option Fact
  | .enumeration name =>
    (registry.enumFacts? name).map fun facts => .enumeration name facts.kind facts.cases
  | .protocolType name => if registry.isProtocol name then some (.protocolType name) else none
  | .function key => (registry.parameterNames? key).map (.function key)
  | .pureFunction key => if registry.isPure key then some (.pureFunction key) else none
  | .structType name => if registry.isStruct name then some (.structType name) else none
  | .classType name => if registry.isClass name then some (.classType name) else none

theorem about_empty (subject : Subject) : empty.about subject = none := by
  cases subject <;> rfl

theorem ite_contains_add {α β : Type} [DecidableEq α] (member other : α) (members : List α)
    (fact : α → β) :
    (if (Association.add member members).contains other then some (fact other) else none) =
      if member = other then some (fact member)
      else if members.contains other then some (fact other) else none := by
  rw [Association.contains_add]
  by_cases h : member = other
  · simp [h]
  · simp [h, Ne.symm h]

theorem about_record (registry : Registry) (fact : Fact) (subject : Subject) :
    (registry.record fact).about subject =
      if fact.subject = subject then some fact else registry.about subject := by
  -- facts of one kind leave the other kinds alone
  cases fact with
  | enumeration name kind cases =>
    cases subject with
    | enumeration other =>
      show ((Association.put name ⟨kind, cases⟩ registry.enums).lookup other).map _ = _
      rw [Association.lookup_put, Fact.subject]
      by_cases h : other = name
      · simp [h]
      · simp [h, Ne.symm h, about, enumFacts?]
    | _ => rfl
  | function key names =>
    cases subject with
    | function other =>
      show ((Association.put key names registry.functions).lookup other).map _ = _
      rw [Association.lookup_put, Fact.subject]
      by_cases h : other = key
      · simp [h]
      · simp [h, Ne.symm h, about, parameterNames?]
    | _ => rfl
  | protocolType name =>
    cases subject with
    | protocolType other =>
      simp only [Fact.subject, Subject.protocolType.injEq]
      exact ite_contains_add name other registry.protocols Fact.protocolType
    | _ => rfl
  | pureFunction key =>
    cases subject with
    | pureFunction other =>
      simp only [Fact.subject, Subject.pureFunction.injEq]
      exact ite_contains_add key other registry.pureFunctions Fact.pureFunction
    | _ => rfl
  | structType name =>
    cases subject with
    | structType other =>
      simp only [Fact.subject, Subject.structType.injEq]
      exact ite_contains_add name other registry.structs Fact.structType
    | _ => rfl
  | classType name =>
    cases subject with
    | classType other =>
      simp only [Fact.subject, Subject.classType.injEq]
      exact ite_contains_add name other registry.classes Fact.classType
    | _ => rfl

theorem about_recordAll (registry : Registry) (facts : List Fact) (subject : Subject) :
    (registry.recordAll facts).about subject =
      ((empty.recordAll facts).about subject).or (registry.about subject) := by
  induction facts generalizing registry with
  | nil => rw [recordAll, recordAll, List.foldl_nil, List.foldl_nil, about_empty, Option.none_or]
  | cons fact rest ih =>
    show ((registry.record fact).recordAll rest).about subject =
      (((empty.record fact).recordAll rest).about subject).or _
    rw [ih, ih (empty.record fact), about_record, about_record, about_empty, Option.or_assoc]
    congr 1
    split <;> rfl

/-- That two registries answer every question alike. -/
structure SameAnswers (registry other : Registry) : Prop where
  enumKind? : ∀ name, registry.enumKind? name = other.enumKind? name
  enumFacts? : ∀ name, registry.enumFacts? name = other.enumFacts? name
  isEnumCase : ∀ enum case, registry.isEnumCase enum case = other.isEnumCase enum case
  isProtocol : ∀ name, registry.isProtocol name = other.isProtocol name
  parameterNames? : ∀ key, registry.parameterNames? key = other.parameterNames? key
  isPure : ∀ key, registry.isPure key = other.isPure key
  isStruct : ∀ name, registry.isStruct name = other.isStruct name
  isClass : ∀ name, registry.isClass name = other.isClass name

theorem sameAnswers_of_about {registry other : Registry}
    (h : ∀ subject, registry.about subject = other.about subject) : SameAnswers registry other := by
  have henums (name : String) : registry.enumFacts? name = other.enumFacts? name := by
    refine Option.map_injective (f := fun facts : EnumFacts =>
      Fact.enumeration name facts.kind facts.cases) ?_ (h (.enumeration name))
    rintro ⟨kind, cases⟩ ⟨kind', cases'⟩ heq
    simpa using heq
  -- A set answers by what it holds, so two that hold the same of a subject agree on it.
  have hset {p q : Prop} [Decidable p] [Decidable q] {fact : Fact}
      (heq : (if p then some fact else none) = if q then some fact else none) : p ↔ q := by
    by_cases hp : p <;> by_cases hq : q <;> simp [hp, hq] at heq ⊢
  exact {
    enumKind? := fun name => congrArg (·.map EnumFacts.kind) (henums name)
    enumFacts? := henums
    isEnumCase := fun enum case =>
      congrArg (·.any fun facts => facts.cases.contains case) (henums enum)
    isProtocol := fun name => Bool.eq_iff_iff.mpr (hset (h (.protocolType name)))
    parameterNames? := fun key =>
      Option.map_injective (fun _ _ heq => (Fact.function.inj heq).2) (h (.function key))
    isPure := fun key => Bool.eq_iff_iff.mpr (hset (h (.pureFunction key)))
    isStruct := fun name => Bool.eq_iff_iff.mpr (hset (h (.structType name)))
    isClass := fun name => Bool.eq_iff_iff.mpr (hset (h (.classType name))) }

theorem recordAll_append (registry : Registry) (facts more : List Fact) :
    registry.recordAll (facts ++ more) = (registry.recordAll facts).recordAll more :=
  List.foldl_append

theorem recordAll_concat (registry : Registry) (facts : List Fact) (fact : Fact) :
    registry.recordAll (facts ++ [fact]) = (registry.recordAll facts).record fact :=
  recordAll_append registry facts [fact]

end Registry

end Ferry
