/-
  Ferry.Proofs.Source.Matching

  What patterns match.  `Matches` gives the rules: when a pattern matches a value, and which names
  it binds to which parts of it.  A pattern is read as a test and declarations, and `Decides` says
  that these do the same: the test always has a value, it is true exactly for the values that match,
  and then the names stand for the matched parts.

  The declarations are made one after the other.  So a name that the subject mentions may be
  declared before the subject is used for the last time, and then the later names get something
  else; all is well if the subject keeps its value while all but the last name are declared
  (`decides_pattern_site`).
-/
import Ferry.Proofs.Program.Evaluation
import Ferry.Proofs.Source.Outcome
import Ferry.Proofs.Source.Site

namespace Ferry.Source

open Adapter World

/-! ## Rules -/

def testedType (n : Node) : String :=
  (n.typeText? "type").getD n.text

/-- The enumeration that a case pattern is about: written, resolved for the pattern, or the type of
the subject. -/
def namedEnum (tables : SideTables) (n : Node) (ty : Option String) : String :=
  unwrappedType
    ((n.typeText? "type" <|> tables.types.get? n.head.offset n.head.length <|> ty).getD "")

def declaredLabels (tables : SideTables) (n : Node) : List (Option String) :=
  (((tables.symbols.get? n.head.offset).bind SymbolEntry.declaration).map payloadLabels).getD []

/-- The part of the data of a case that an argument is about: by its label, or else by its place. -/
def argumentPart (payload : Fields) (argument : Node) (index : Nat) : Option Value :=
  match argumentLabel argument with
  | some label => payload.named? label
  | none => payload.at? index

section

variable (w : World) (env : Environment) (tables : SideTables)

/-- That an expression is read as one with a value. -/
def Denotes (n : Node) (v : Value) : Prop :=
  ∀ e, Yields tables n.site.expr e → w.eval env e = some v

mutual

/-- That a pattern matches a value and binds names to parts of it. -/
inductive Matches : Node → Bool → Value → List Bound → Prop where
  | wildcard {n : Node} {isLet : Bool} {v : Value} (hkind : n.kind = .wildcardPattern) :
      Matches n isLet v []
  | identifier {n : Node} {isLet : Bool} {v : Value} (hkind : n.kind = .identifierPattern) :
      Matches n isLet v [⟨n.text, v, isLet⟩]
  | binding {n inner : Node} {isLet : Bool} {v : Value} {bound : List Bound}
      (hkind : n.kind = .valueBindingPattern) (hinner : n.children.head? = some inner)
      (h : Matches inner (n.text != "var") v bound) : Matches n isLet v bound
  | expression {n inner : Node} {isLet : Bool} {v : Value} (hkind : n.kind = .expressionPattern)
      (hinner : n.children.head? = some inner) (h : Denotes w env tables inner v) :
      Matches n isLet v []
  | enumCase {n : Node} {isLet : Bool} {owner : String} {payload : Fields}
      {bound : List Bound} (hkind : n.kind = .enumCasePattern)
      (h : MatchesPayload payload isLet 0 (n.childrenOf .patternArgument) bound) :
      Matches n isLet (.enumCase owner n.text payload) bound
  | tuple {n : Node} {isLet : Bool} {components : Fields} {bound : List Bound}
      (hkind : n.kind = .tuplePattern) (h : MatchesElements isLet n.children components bound) :
      Matches n isLet (.tuple components) bound
  | isType {n : Node} {isLet : Bool} {v : Value} (hkind : n.kind = .isTypePattern)
      (h : w.isInstance v (testedType n) = true) : Matches n isLet v []
  | asType {n inner : Node} {isLet : Bool} {v : Value} {ty : String} {bound : List Bound}
      (hkind : n.kind = .asPattern) (hinner : n.child? "pattern" = some inner)
      (hty : n.typeText? "type" = some ty) (his : w.isInstance v ty = true)
      (h : Matches inner isLet v bound) : Matches n isLet v bound

/-- The same for the elements of a tuple. -/
inductive MatchesElements : Bool → List Node → Fields → List Bound → Prop where
  | nil {isLet : Bool} : MatchesElements isLet [] .nil []
  | cons {isLet : Bool} {n : Node} {rest : List Node} {label : Option String} {v : Value}
      {others : Fields} {first bound : List Bound} (h : Matches n isLet v first)
      (hrest : MatchesElements isLet rest others bound) :
      MatchesElements isLet (n :: rest) (.cons label v others) (first ++ bound)

/-- The same for the arguments of a case, counted from an index. -/
inductive MatchesPayload : Fields → Bool → Nat → List Node → List Bound → Prop where
  | nil {payload : Fields} {isLet : Bool} {index : Nat} : MatchesPayload payload isLet index [] []
  | empty {payload : Fields} {isLet : Bool} {index : Nat} {argument : Node} {rest : List Node}
      {bound : List Bound} (hinner : argument.children.head? = none)
      (hrest : MatchesPayload payload isLet (index + 1) rest bound) :
      MatchesPayload payload isLet index (argument :: rest) bound
  | cons {payload : Fields} {isLet : Bool} {index : Nat} {argument inner : Node} {rest : List Node}
      {v : Value} {first bound : List Bound} (hinner : argument.children.head? = some inner)
      (hpart : argumentPart payload argument index = some v) (h : Matches inner isLet v first)
      (hrest : MatchesPayload payload isLet (index + 1) rest bound) :
      MatchesPayload payload isLet index (argument :: rest) (first ++ bound)

end

mutual

/-- That a value is of a type that a pattern can be matched with, for a subject whose type may be
    known: expressions have values, a tuple has as many components as the pattern, arguments are
    about parts of the data of a case, and a case is one of the enumeration that the pattern
    names. -/
inductive Fits : Node → Option String → Value → Prop where
  | wildcard {n : Node} {ty : Option String} {v : Value} (hkind : n.kind = .wildcardPattern) :
      Fits n ty v
  | identifier {n : Node} {ty : Option String} {v : Value} (hkind : n.kind = .identifierPattern) :
      Fits n ty v
  | binding {n inner : Node} {ty : Option String} {v : Value}
      (hkind : n.kind = .valueBindingPattern) (hinner : n.children.head? = some inner)
      (h : Fits inner ty v) : Fits n ty v
  | expression {n inner : Node} {ty : Option String} {u v : Value}
      (hkind : n.kind = .expressionPattern) (hinner : n.children.head? = some inner)
      (h : Denotes w env tables inner u) : Fits n ty v
  | plainCase {n : Node} {ty : Option String} {v : Value} (hkind : n.kind = .enumCasePattern)
      (harguments : n.childrenOf .patternArgument = [])
      (hstatic : w.static (namedEnum tables n ty) n.text =
        some (.enumCase (namedEnum tables n ty) n.text .nil))
      (hcase : ∀ owner payload, v = .enumCase owner n.text payload →
        owner = namedEnum tables n ty ∧ payload = .nil) : Fits n ty v
  | enumCase {n : Node} {ty : Option String} {v : Value} (hkind : n.kind = .enumCasePattern)
      (harguments : n.childrenOf .patternArgument ≠ [])
      (howner : ∀ owner payload, v = .enumCase owner n.text payload → owner = namedEnum tables n ty)
      (hpayload : ∀ owner payload, v = .enumCase owner n.text payload →
        FitsPayload (declaredLabels tables n) payload 0 (n.childrenOf .patternArgument)) :
      Fits n ty v
  | tuple {n : Node} {ty : Option String} {components : Fields} (hkind : n.kind = .tuplePattern)
      (h : FitsElements n.children components) : Fits n ty (.tuple components)
  | isType {n : Node} {ty : Option String} {v : Value} (hkind : n.kind = .isTypePattern) :
      Fits n ty v
  | asType {n inner : Node} {ty : Option String} {v : Value} {cast : String}
      (hkind : n.kind = .asPattern) (hinner : n.child? "pattern" = some inner)
      (hty : n.typeText? "type" = some cast) (h : w.isInstance v cast = true → Fits inner none v) :
      Fits n ty v

/-- The same for the elements of a tuple. -/
inductive FitsElements : List Node → Fields → Prop where
  | nil : FitsElements [] .nil
  | cons {n : Node} {rest : List Node} {label : Option String} {v : Value} {others : Fields}
      (h : Fits n none v) (hrest : FitsElements rest others) :
      FitsElements (n :: rest) (.cons label v others)

/-- The same for the arguments of a case; what is declared for the place of an argument without a
    label is the label of the part at that place. -/
inductive FitsPayload : List (Option String) → Fields → Nat → List Node → Prop where
  | nil {declared : List (Option String)} {payload : Fields} {index : Nat} :
      FitsPayload declared payload index []
  | empty {declared : List (Option String)} {payload : Fields} {index : Nat} {argument : Node}
      {rest : List Node} (hinner : argument.children.head? = none)
      (hrest : FitsPayload declared payload (index + 1) rest) :
      FitsPayload declared payload index (argument :: rest)
  | cons {declared : List (Option String)} {payload : Fields} {index : Nat}
      {argument inner : Node} {rest : List Node} {v : Value}
      (hinner : argument.children.head? = some inner)
      (hpart : argumentPart payload argument index = some v)
      (hlabel : ∀ label, (declared[index]?).join = some label → argumentLabel argument = none →
        payload.named? label = some v)
      (h : Fits inner none v) (hrest : FitsPayload declared payload (index + 1) rest) :
      FitsPayload declared payload index (argument :: rest)

end

end

/-! ## Matches that decide -/

/-- Names bound by one match and then by another. -/
def Then (P Q : List Bound → Prop) (bound : List Bound) : Prop :=
  ∃ first rest, P first ∧ Q rest ∧ bound = first ++ rest

theorem then_assoc (P Q R : List Bound → Prop) : Then (Then P Q) R = Then P (Then Q R) := by
  funext bound
  refine propext ⟨?_, ?_⟩
  · rintro ⟨_, c, ⟨a, b, ha, hb, rfl⟩, hc, rfl⟩
    exact ⟨a, b ++ c, ha, ⟨b, c, hb, hc, rfl⟩, List.append_assoc a b c⟩
  · rintro ⟨a, _, ha, ⟨b, c, hb, hc, rfl⟩, rfl⟩
    exact ⟨a ++ b, c, ⟨a, b, ha, hb, rfl⟩, hc, (List.append_assoc a b c).symm⟩

theorem then_eq_nil (P : List Bound → Prop) : Then P (· = []) = P := by
  funext bound
  refine propext ⟨?_, fun h => ⟨bound, [], h, rfl, (List.append_nil bound).symm⟩⟩
  rintro ⟨a, _, ha, rfl, rfl⟩
  rwa [List.append_nil]

theorem nil_then (P : List Bound → Prop) : Then (· = []) P = P := by
  funext bound
  refine propext ⟨?_, fun h => ⟨[], bound, rfl, h, rfl⟩⟩
  rintro ⟨_, b, rfl, hb, rfl⟩
  exact hb

/-- The second match matters only if there is a first one. -/
theorem then_congr {P Q R : List Bound → Prop} (h : (∃ bound, P bound) → Q = R) :
    Then P Q = Then P R := by
  by_cases hP : ∃ bound, P bound
  · rw [h hP]
  · have hnone (S : List Bound → Prop) (bound : List Bound) : ¬Then P S bound :=
      fun ⟨first, _, hfirst, _⟩ => hP ⟨first, hfirst⟩
    funext bound
    exact propext ⟨fun h => (hnone Q bound h).elim, fun h => (hnone R bound h).elim⟩

/-- That an environment gives a subject its value. -/
def Keeps (w : World) (subject : Expr) (v : Value) (env : Environment) : Prop :=
  w.eval env subject = some v

/-- That the test of a match has a value, which is true exactly if something is matched, and that
its names then stand for what is matched in all of some environments. -/
structure Decides (w : World) (env : Environment) (same : Environment → Prop) (found : PatternMatch)
    (matched : List Bound → Prop) : Prop where
  test : ∃ b, w.holds? env found.condition = some (.bool b) ∧ (b = true ↔ ∃ bound, matched bound)
  stands : ∀ bound, matched bound → List.Forall₂ (w.Stands same) found.bindings bound

section

variable {w : World} {env : Environment} {same : Environment → Prop} {found other : PatternMatch}
  {P Q : List Bound → Prop}

theorem holds?_absorb {b : Bool} (h : w.holds? env found.condition = some (.bool b)) :
    w.holds? env (found.absorb other).condition =
      conjunction (some (.bool b)) (w.holds? env other.condition) := by
  rw [PatternMatch.absorb]
  cases other.condition with
  | none =>
    show w.holds? env found.condition = conjunction _ (some (.bool true))
    rw [h]
    cases b <;> rfl
  | some test =>
    show w.holds? env (found.require test).condition = conjunction _ (w.eval env test)
    rw [PatternMatch.require]
    cases hcondition : found.condition with
    | none =>
      -- Without a test the first match is true.
      rw [hcondition] at h
      obtain rfl := Value.bool.inj (Option.some.inj h)
      rfl
    | some before =>
      rw [hcondition] at h
      show w.eval env (plainBinary before "&&" test) = _
      rw [eval_conjunction, show w.eval env before = _ from h]

theorem bindings_absorb (found other : PatternMatch) :
    (found.absorb other).bindings = found.bindings ++ other.bindings := by
  rw [PatternMatch.absorb]
  cases other.condition <;> rfl

namespace Decides

theorem nothing : Decides w env same {} (· = []) where
  test := ⟨true, rfl, by simp⟩
  stands := by
    rintro _ rfl
    exact .nil

theorem ofTest {test : Expr} {b : Bool} (h : w.eval env test = some (.bool b)) :
    Decides w env same (.ofTest test) (fun bound => b = true ∧ bound = []) where
  test := ⟨b, h, by simp⟩
  stands := by
    rintro _ ⟨-, rfl⟩
    exact .nil

theorem name {subject : Expr} {v : Value} (name : String) (isLet : Bool) :
    Decides w env (Keeps w subject v) { bindings := [⟨name, subject, isLet⟩] }
      (· = [⟨name, v, isLet⟩]) where
  test := ⟨true, rfl, by simp⟩
  stands := by
    rintro _ rfl
    exact .cons ⟨rfl, rfl, fun _ h => h⟩ .nil

theorem mono {same' : Environment → Prop} (h : Decides w env same' found P)
    (hsame : ∀ env', same env' → same' env') : Decides w env same found P where
  test := h.test
  stands bound hbound := (h.stands bound hbound).imp fun _ _ hstands =>
    ⟨hstands.1, hstands.2.1, fun env' henv' => hstands.2.2 env' (hsame env' henv')⟩

/-- A second match counts only if the first one matches, so it need only be right then. -/
theorem absorb (h : Decides w env same found P)
    (hother : (∃ bound, P bound) → Decides w env same other Q) :
    Decides w env same (found.absorb other) (Then P Q) where
  test := by
    obtain ⟨b, hb, hmatched⟩ := h.test
    rw [holds?_absorb hb]
    cases b with
    | false =>
      -- The first test is false: nothing is matched, and the second one is not evaluated.
      refine ⟨false, rfl, fun h => (Bool.false_ne_true h).elim, ?_⟩
      rintro ⟨_, first, -, hfirst, -⟩
      exact (Bool.false_ne_true (hmatched.mpr ⟨first, hfirst⟩)).elim
    | true =>
      -- The first test is true, so the second one decides.
      obtain ⟨first, hfirst⟩ := hmatched.mp rfl
      obtain ⟨c, hc, hothers⟩ := (hother ⟨first, hfirst⟩).test
      refine ⟨c, hc, hothers.trans ⟨?_, ?_⟩⟩
      · rintro ⟨rest, hrest⟩
        exact ⟨first ++ rest, first, rest, hfirst, hrest, rfl⟩
      · rintro ⟨_, _, rest, -, hrest, -⟩
        exact ⟨rest, hrest⟩
  stands := by
    rintro _ ⟨first, rest, hfirst, hrest, rfl⟩
    rw [bindings_absorb]
    exact List.rel_append (h.stands first hfirst) ((hother ⟨first, hfirst⟩).stands rest hrest)

end Decides

end

/-! ## The rules by kind -/

section

variable {w : World} {env : Environment} {tables : SideTables} {n inner argument : Node}
  {nodes : List Node} {isLet : Bool} {v : Value} {payload : Fields} {index : Nat}

theorem matches_wildcard (hkind : n.kind = .wildcardPattern) :
    Matches w env tables n isLet v = (· = []) := by
  funext bound
  refine propext ⟨fun h => ?_, ?_⟩
  · cases h <;> simp_all
  · rintro rfl
    exact .wildcard hkind

theorem matches_identifier (hkind : n.kind = .identifierPattern) :
    Matches w env tables n isLet v = (· = [⟨n.text, v, isLet⟩]) := by
  funext bound
  refine propext ⟨fun h => ?_, ?_⟩
  · cases h <;> simp_all
  · rintro rfl
    exact .identifier hkind

theorem matches_binding (hkind : n.kind = .valueBindingPattern)
    (hinner : n.children.head? = some inner) :
    Matches w env tables n isLet v = Matches w env tables inner (n.text != "var") v := by
  funext bound
  refine propext ⟨fun h => ?_, .binding hkind hinner⟩
  cases h <;> simp_all

theorem matches_expression (hkind : n.kind = .expressionPattern)
    (hinner : n.children.head? = some inner) :
    Matches w env tables n isLet v = fun bound => Denotes w env tables inner v ∧ bound = [] := by
  funext bound
  refine propext ⟨fun h => ?_, ?_⟩
  · cases h <;> simp_all
  · rintro ⟨h, rfl⟩
    exact .expression hkind hinner h

theorem matches_isType (hkind : n.kind = .isTypePattern) :
    Matches w env tables n isLet v =
      fun bound => w.isInstance v (testedType n) = true ∧ bound = [] := by
  funext bound
  refine propext ⟨fun h => ?_, ?_⟩
  · cases h <;> simp_all
  · rintro ⟨h, rfl⟩
    exact .isType hkind h

theorem matches_asType {ty : String} (hkind : n.kind = .asPattern)
    (hinner : n.child? "pattern" = some inner) (hty : n.typeText? "type" = some ty) :
    Matches w env tables n isLet v =
      Then (fun bound => w.isInstance v ty = true ∧ bound = [])
      (Matches w env tables inner isLet v) := by
  funext bound
  refine propext ⟨fun h => ?_, ?_⟩
  · cases h <;> simp_all [Then]
  · rintro ⟨_, rest, ⟨his, rfl⟩, h, rfl⟩
    exact .asType hkind hinner hty his h

theorem matches_tuple {components : Fields} (hkind : n.kind = .tuplePattern) :
    Matches w env tables n isLet (.tuple components) =
      MatchesElements w env tables isLet n.children components := by
  funext bound
  refine propext ⟨fun h => ?_, .tuple hkind⟩
  cases h <;> simp_all

theorem matches_enumCase {owner : String} (hkind : n.kind = .enumCasePattern) :
    Matches w env tables n isLet (.enumCase owner n.text payload) =
      MatchesPayload w env tables payload isLet 0 (n.childrenOf .patternArgument) := by
  funext bound
  refine propext ⟨fun h => ?_, .enumCase hkind⟩
  cases h <;> simp_all

theorem matchesElements_nil : MatchesElements w env tables isLet [] .nil = (· = []) := by
  funext bound
  refine propext ⟨fun h => ?_, ?_⟩
  · cases h
    rfl
  · rintro rfl
    exact .nil

theorem matchesElements_cons {label : Option String} {others : Fields} :
    MatchesElements w env tables isLet (n :: nodes) (.cons label v others) =
      Then (Matches w env tables n isLet v) (MatchesElements w env tables isLet nodes others) := by
  funext bound
  refine propext ⟨fun h => ?_, ?_⟩
  · cases h with
    | cons h hrest => exact ⟨_, _, h, hrest, rfl⟩
  · rintro ⟨_, _, h, hrest, rfl⟩
    exact .cons h hrest

/-- That the pattern in an argument matches the part that the argument is about. -/
def MatchesArgument (w : World) (env : Environment) (tables : SideTables) (payload : Fields)
    (isLet : Bool) (index : Nat) (argument inner : Node) (bound : List Bound) : Prop :=
  ∃ part, argumentPart payload argument index = some part ∧ Matches w env tables inner
    isLet part bound

theorem matchesArgument_eq (hpart : argumentPart payload argument index = some v) :
    MatchesArgument w env tables payload isLet index argument inner =
      Matches w env tables inner isLet v := by
  funext bound
  simp only [MatchesArgument, hpart, Option.some.injEq, exists_eq_left']

theorem matchesPayload_nil : MatchesPayload w env tables payload isLet index [] = (· = []) := by
  funext bound
  refine propext ⟨fun h => ?_, ?_⟩
  · cases h
    rfl
  · rintro rfl
    exact .nil

theorem matchesPayload_empty (hinner : argument.children.head? = none) :
    MatchesPayload w env tables payload isLet index (argument :: nodes) =
      MatchesPayload w env tables payload isLet (index + 1) nodes := by
  funext bound
  refine propext ⟨fun h => ?_, .empty hinner⟩
  cases h <;> simp_all

theorem matchesPayload_cons (hinner : argument.children.head? = some inner) :
    MatchesPayload w env tables payload isLet index (argument :: nodes) =
      Then (MatchesArgument w env tables payload isLet index argument inner)
        (MatchesPayload w env tables payload isLet (index + 1) nodes) := by
  funext bound
  refine propext ⟨fun h => ?_, ?_⟩
  · cases h with
    | empty hempty => rw [hinner] at hempty; cases hempty
    | cons hinner' hpart h hrest =>
      obtain rfl := Option.some.inj (hinner.symm.trans hinner')
      exact ⟨_, _, ⟨_, hpart, h⟩, hrest, rfl⟩
  · rintro ⟨_, _, ⟨part, hpart, h⟩, hrest, rfl⟩
    exact .cons hinner hpart h hrest

end

/-! ## Readings -/

section

variable {ε α β : Type} {tables : SideTables}

theorem yields_run_lift {first : Adapter α} {a : α}
    (h : Yields tables (liftM first : ExceptT ε Adapter α).run (.ok a)) :
    Yields tables first a := by
  obtain ⟨b, hb, heq⟩ := yields_map (show Yields tables (Except.ok <$> first) _ from h)
  obtain rfl := Except.ok.inj heq
  exact hb

theorem yields_run_bind {first : ExceptT ε Adapter α} {next : α → ExceptT ε Adapter β} {b : β}
    (h : Yields tables (first >>= next).run (.ok b)) :
    ∃ a, Yields tables first.run (.ok a) ∧ Yields tables (next a).run (.ok b) := by
  rw [ExceptT.run_bind] at h
  obtain ⟨found, hfound, h⟩ := yields_bind h
  cases found with
  | error x => cases yields_pure h
  | ok a => exact ⟨a, hfound, h⟩

theorem not_yields_refusePattern {n : Node} {code : Code} {message : String} {a : α} :
    ¬Yields tables (refusePattern n code message : ExceptT Diagnostic Adapter α).run (.ok a) := by
  intro h
  obtain ⟨diagnostic, -, h⟩ := yields_run_bind h
  cases yields_pure h

end

section

variable {w : World} {env : Environment} {tables : SideTables} {n : Node} {nodes : List Node}
  {subject : Expr} {v : Value} {isLet : Bool} {found result : PatternMatch}
  {P : List Bound → Prop} {payload : Fields} {index : Nat}

/-- That a pattern is read as what decides whether a subject matches. -/
def Decided (w : World) (env : Environment) (tables : SideTables) (n : Node) : Prop :=
  ∀ subject v isLet found, w.eval env subject = some v → Fits w env tables n subject.ty v →
    Yields tables (n.site.pattern subject .condition isLet).run (.ok found) →
      Decides w env (Keeps w subject v) found (Matches w env tables n isLet v)

/-- A part of the subject keeps its value where the subject does. -/
theorem Decided.component {name : String} {part : Value} {inner : PatternMatch}
    (h : Decided w env tables n) (hsubject : w.eval env subject = some v)
    (hpart : v.component? name = some part) (hfits : Fits w env tables n none part)
    (hread : Yields tables (n.site.pattern (plainMember subject name) .condition isLet).run
      (.ok inner)) :
    Decides w env (Keeps w subject v) inner (Matches w env tables n isLet part) :=
  (h _ part isLet inner (eval_component hsubject hpart) hfits hread).mono
    fun _ hkeeps => eval_component hkeeps hpart

theorem component?_tuple {components : Fields} (i : Nat) (name : String)
    (h : tupleComponents[i]? = some name) :
    (Value.tuple components).component? name = components.at? i := by
  match i, h with
  | 0, h => cases h; rfl
  | 1, h => cases h; rfl
  | 2, h => cases h; rfl

theorem decides_destructureElements {names : List String} {components : Fields}
    (hsubject : w.eval env subject = some v) (hnodes : ∀ n ∈ nodes, Decided w env tables n)
    (hnames : ∀ i name, names[i]? = some name → v.component? name = components.at? i)
    (hlength : nodes.length ≤ names.length) (hfits : FitsElements w env tables nodes components)
    (hfound : Decides w env (Keeps w subject v) found P)
    (h : Yields tables
      (destructureElements subject isLet found ((nodes.map Node.site).zip names)).run
      (.ok result)) :
    Decides w env (Keeps w subject v) result
      (Then P (MatchesElements w env tables isLet nodes components)) := by
  induction nodes generalizing names components found P with
  | nil =>
    cases hfits
    obtain rfl := Except.ok.inj (yields_pure h)
    rwa [matchesElements_nil, then_eq_nil]
  | cons n rest ih =>
    cases hfits with
    | @cons _ _ label part others hfit hfits =>
      cases names with
      | nil => cases hlength
      | cons name names =>
        obtain ⟨inner, hinner, h⟩ := yields_run_bind h
        obtain ⟨hn, hrest⟩ := List.forall_mem_cons.mp hnodes
        have hpart : v.component? name = some part := hnames 0 name rfl
        have hinner := hn.component hsubject hpart hfit hinner
        rw [matchesElements_cons, ← then_assoc]
        exact ih hrest (fun i name hname => hnames (i + 1) name hname)
          (Nat.le_of_succ_le_succ hlength) hfits (hfound.absorb fun _ => hinner) h

theorem fitsPayload_cons {argument inner : Node} {declared : List (Option String)}
    (hinner : argument.children.head? = some inner)
    (h : FitsPayload w env tables declared payload index (argument :: nodes)) :
    ∃ part, argumentPart payload argument index = some part ∧
      (∀ label, (argumentLabel argument <|> (declared[index]?).join) = some label →
        payload.named? label = some part) ∧
      Fits w env tables inner none part ∧
      FitsPayload w env tables declared payload (index + 1) nodes := by
  cases h with
  | empty hempty => rw [hinner] at hempty; cases hempty
  | @cons _ _ _ _ inner' _ part hinner' hpart hlabel hfit hrest =>
    obtain rfl := Option.some.inj (hinner.symm.trans hinner')
    refine ⟨part, hpart, fun label hnamed => ?_, hfit, hrest⟩
    rw [argumentPart] at hpart
    -- The label that is written, or the one declared for the place: both lead to the same part.
    cases hown : argumentLabel argument with
    | some own =>
      rw [hown] at hnamed hpart
      obtain rfl := Option.some.inj hnamed
      exact hpart
    | none =>
      rw [hown] at hnamed
      exact hlabel label hnamed hown

/-- The arguments of a case are tested and bound one after the other, once it is known that it is
    this case. -/
theorem decides_destructurePayload {caseName : String} {declared : List (Option String)}
    (hsubject : w.eval env subject = some v)
    (hnodes : ∀ argument ∈ nodes, ∀ n ∈ argument.children, Decided w env tables n)
    (hcase : (∃ bound, P bound) → ∃ owner, v = .enumCase owner caseName payload)
    (hfits : (∃ bound, P bound) → FitsPayload w env tables declared payload index nodes)
    (hfound : Decides w env (Keeps w subject v) found P)
    (h : Yields tables (destructurePayload caseName subject isLet declared found index
      (nodes.map Node.site)).run (.ok result)) :
    Decides w env (Keeps w subject v) result
      (Then P (MatchesPayload w env tables payload isLet index nodes)) := by
  induction nodes generalizing index found P with
  | nil =>
    obtain rfl := Except.ok.inj (yields_pure h)
    rwa [matchesPayload_nil, then_eq_nil]
  | cons argument rest ih =>
    obtain ⟨hargument, hrest⟩ := List.forall_mem_cons.mp hnodes
    rw [List.map_cons, destructurePayload, children_site, List.head?_map] at h
    cases hinner : argument.children.head? with
    | none =>
      rw [hinner] at h
      rw [matchesPayload_empty hinner]
      refine ih hrest hcase (fun hP => ?_) hfound h
      cases hfits hP with
      | empty _ hfits => exact hfits
      | cons hinner' => rw [hinner] at hinner'; cases hinner'
    | some inner =>
      rw [hinner, Option.map_some, node_site] at h
      dsimp only at h
      rw [kind_site] at h
      have hparts (hP : ∃ bound, P bound) := fitsPayload_cons hinner (hfits hP)
      rw [matchesPayload_cons hinner]
      split at h
      next label hlabel =>
        obtain ⟨bound, hbound, h⟩ := yields_run_bind h
        rw [← then_assoc]
        refine ih hrest (fun ⟨_, first, _, hfirst, _⟩ => hcase ⟨first, hfirst⟩)
          (fun ⟨_, first, _, hfirst, _⟩ => ?_) (hfound.absorb fun hP => ?_) h
        · obtain ⟨-, -, -, -, hrests⟩ := hparts ⟨first, hfirst⟩
          exact hrests
        -- The part is evaluated only if the test before it was true, and then it is this case.
        · obtain ⟨owner, rfl⟩ := hcase hP
          obtain ⟨part, hpart, hnamed, hfit, -⟩ := hparts hP
          rw [matchesArgument_eq hpart]
          exact (hargument inner (List.mem_of_head? hinner)).component hsubject
            (hnamed label hlabel) hfit hbound
      next =>
        split at h
        next hkind =>
          -- The part of a wildcard need not be reached to match.
          have hskip :
              Then P (Then (MatchesArgument w env tables payload isLet index argument inner)
              (MatchesPayload w env tables payload isLet (index + 1) rest)) =
              Then P (MatchesPayload w env tables payload isLet (index + 1) rest) := by
            refine then_congr fun hP => ?_
            obtain ⟨part, hpart, -⟩ := hparts hP
            rw [matchesArgument_eq hpart, matches_wildcard hkind, nil_then]
          rw [hskip]
          refine ih hrest hcase (fun hP => ?_) hfound h
          obtain ⟨-, -, -, -, hrests⟩ := hparts hP
          exact hrests
        next => exact absurd h not_yields_refusePattern

/-- The owner that is found is the enumeration that the pattern names, if it names one. -/
theorem yields_caseOwner {owner : Option String} (h : Yields tables (caseOwner n subject) owner) :
    owner = if namedEnum tables n subject.ty = "" then none
      else some (namedEnum tables n subject.ty) := by
  obtain ⟨resolved, hresolved, h⟩ := yields_bind h
  obtain ⟨found, hfound, hresolved⟩ := yields_bind hresolved
  obtain rfl := yields_read hfound
  obtain rfl := yields_pure hresolved
  exact yields_pure h

theorem eq_namedEnum_of_caseOwner {owner : String}
    (h : Yields tables (caseOwner n subject) (some owner)) :
    owner = namedEnum tables n subject.ty := by
  have h := yields_caseOwner h
  split at h
  next => cases h
  next => exact Option.some.inj h

theorem not_matches_of_ne {bound : List Bound} (hkind : n.kind = .enumCasePattern)
    (hv : ∀ owner payload, v ≠ .enumCase owner n.text payload) :
    ¬Matches w env tables n isLet v bound := by
  intro h
  cases h <;> simp_all

theorem decides_plainCase (hkind : n.kind = .enumCasePattern)
    (harguments : n.childrenOf .patternArgument = []) {owner : String}
    (hstatic : w.static owner n.text = some (.enumCase owner n.text .nil))
    (hcase : ∀ o payload, v = .enumCase o n.text payload → o = owner ∧ payload = .nil)
    (hsubject : w.eval env subject = some v) :
    Decides w env (Keeps w subject v)
      (.ofTest (plainBinary subject "==" (plainMember (.typeName owner {}) n.text)))
      (Matches w env tables n isLet v) := by
  have hnamed : w.eval env (plainMember (.typeName owner {}) n.text) =
      some (.enumCase owner n.text .nil) := by rw [eval_static, hstatic]
  have hmatches : Matches w env tables n isLet v =
      fun bound => decide (v = .enumCase owner n.text .nil) = true ∧ bound = [] := by
    funext bound
    rw [decide_eq_true_eq]
    refine propext ⟨fun h => ?_, ?_⟩
    -- Only a value of this case can match, and it carries no data.
    · by_cases hv : ∃ o payload, v = .enumCase o n.text payload
      · obtain ⟨o, payload, rfl⟩ := hv
        obtain ⟨rfl, rfl⟩ := hcase o payload rfl
        rw [matches_enumCase hkind, harguments, matchesPayload_nil] at h
        exact ⟨rfl, h⟩
      · exact absurd h (not_matches_of_ne hkind fun o payload heq => hv ⟨o, payload, heq⟩)
    · rintro ⟨rfl, rfl⟩
      rw [matches_enumCase hkind, harguments]
      exact .nil
  rw [hmatches]
  exact .ofTest (eval_equal hsubject hnamed)

/-- A case with arguments is matched if it is that case and its data match them. -/
theorem then_isCase_eq {owner : String} (hkind : n.kind = .enumCasePattern)
    (hcase : ∀ o p, v = .enumCase o n.text p → o = owner ∧ p = payload) :
    Then (fun bound => v.isCase owner n.text = true ∧ bound = [])
      (MatchesPayload w env tables payload isLet 0 (n.childrenOf .patternArgument)) =
        Matches w env tables n isLet v := by
  by_cases hv : ∃ o p, v = .enumCase o n.text p
  · obtain ⟨o, p, rfl⟩ := hv
    obtain ⟨rfl, rfl⟩ := hcase o p rfl
    simp only [Value.isCase, beq_self_eq_true, Bool.and_self, true_and, nil_then,
      matches_enumCase hkind]
  · funext bound
    refine propext ⟨?_, fun h =>
      (not_matches_of_ne hkind (fun o p heq => hv ⟨o, p, heq⟩) h).elim⟩
    rintro ⟨_, _, ⟨his, -⟩, -⟩
    obtain ⟨p, hp⟩ := Value.exists_of_isCase his
    exact (hv ⟨owner, p, hp⟩).elim

theorem yields_of_destructureCase {context : PatternContext}
    (h : Yields tables
      (destructureCase n (n.children.map Node.site) subject context isLet).run (.ok result)) :
    let named := plainMember (.typeName (namedEnum tables n subject.ty) {}) n.text
    (n.childrenOf .patternArgument = [] → result = .ofTest (valueTest subject context named)) ∧
      (n.childrenOf .patternArgument ≠ [] → Yields tables
        (destructurePayload n.text subject isLet (declaredLabels tables n)
          (.ofTest (plainBinary subject "is" named)) 0
          ((n.childrenOf .patternArgument).map Node.site)).run (.ok result)) := by
  obtain ⟨owner, howner, h⟩ := yields_run_bind h
  have howner := yields_run_lift howner
  cases owner with
  | none => exact absurd h not_yields_refusePattern
  | some owner =>
    obtain rfl := eq_namedEnum_of_caseOwner howner
    rw [ofKind_map_site] at h
    cases harguments : n.childrenOf .patternArgument with
    | nil =>
      rw [harguments] at h
      exact ⟨fun _ => Except.ok.inj (yields_pure h), fun hne => absurd rfl hne⟩
    | cons first rest =>
      rw [harguments] at h
      obtain ⟨read, hread, h⟩ := yields_run_bind h
      obtain rfl := yields_read (yields_run_lift hread)
      exact ⟨fun hnil => (List.cons_ne_nil first rest hnil).elim, fun _ => h⟩

theorem decides_enumCase {owner : String} (hkind : n.kind = .enumCasePattern)
    (hinner : ∀ argument ∈ n.childrenOf .patternArgument, ∀ inner ∈ argument.children,
      Decided w env tables inner)
    (howner : ∀ o payload, v = .enumCase o n.text payload → o = owner)
    (hpayload : ∀ o payload, v = .enumCase o n.text payload →
      FitsPayload w env tables (declaredLabels tables n) payload 0 (n.childrenOf .patternArgument))
    (hsubject : w.eval env subject = some v)
    (h : Yields tables
      (destructurePayload n.text subject isLet (declaredLabels tables n)
        (.ofTest (plainBinary subject "is" (plainMember (.typeName owner {}) n.text))) 0
        ((n.childrenOf .patternArgument).map Node.site)).run (.ok result)) :
    Decides w env (Keeps w subject v) result (Matches w env tables n isLet v) := by
  have htest : Decides w env (Keeps w subject v)
      (.ofTest (plainBinary subject "is" (plainMember (.typeName owner {}) n.text)))
      (fun bound => v.isCase owner n.text = true ∧ bound = []) :=
    .ofTest (eval_isCase owner n.text hsubject)
  -- The data of the value, if it is of this case at all.
  obtain ⟨payload, hcase⟩ : ∃ payload, ∀ o p, v = .enumCase o n.text p → o = owner ∧
    p = payload := by
    cases v with
    | enumCase o name payload =>
      refine ⟨payload, fun o' p heq => ⟨howner o' p heq, ?_⟩⟩
      exact (Value.enumCase.inj heq).2.2.symm
    | _ => exact ⟨.nil, fun o p heq => by cases heq⟩
  rw [← then_isCase_eq hkind hcase]
  refine decides_destructurePayload hsubject hinner ?_ ?_ htest h
  all_goals
    rintro ⟨_, his, -⟩
    obtain ⟨p, rfl⟩ := Value.exists_of_isCase his
    obtain rfl := (hcase owner p rfl).2
  · exact ⟨owner, rfl⟩
  · exact hpayload owner p rfl

theorem decides_expression {inner : Node} {e : Expr} {u : Value}
    (hkind : n.kind = .expressionPattern)
    (hinner : n.children.head? = some inner) (hdenotes : Denotes w env tables inner u)
    (he : Yields tables inner.site.expr e) (hsubject : w.eval env subject = some v) :
    Decides w env (Keeps w subject v) (.ofTest (plainBinary subject "==" e))
      (Matches w env tables n isLet v) := by
  have hvalue : Denotes w env tables inner v ↔ decide (v = u) = true := by
    rw [decide_eq_true_eq]
    refine ⟨fun h => ?_, fun heq => heq ▸ hdenotes⟩
    exact Option.some.inj ((h e he).symm.trans (hdenotes e he))
  rw [matches_expression hkind hinner]
  simp only [hvalue]
  exact .ofTest (eval_equal hsubject (hdenotes e he))

theorem decides_tuple {components : Fields} (hkind : n.kind = .tuplePattern)
    (hchildren : ∀ child ∈ n.children, Decided w env tables child)
    (hfits : FitsElements w env tables n.children components)
    (hsubject : w.eval env subject = some (.tuple components))
    (h : Yields tables (destructureTuple n (n.children.map Node.site) subject isLet).run
      (.ok result)) :
    Decides w env (Keeps w subject (.tuple components)) result
      (Matches w env tables n isLet (.tuple components)) := by
  rw [destructureTuple, List.length_map] at h
  split at h
  next => exact absurd h not_yields_refusePattern
  next hlength =>
    rw [matches_tuple hkind, ← nil_then (MatchesElements w env tables isLet n.children components)]
    exact decides_destructureElements hsubject hchildren component?_tuple (by omega)
      hfits .nothing h

theorem decides_asType {inner : Node} {ty : String} (hkind : n.kind = .asPattern)
    (hinner : n.child? "pattern" = some inner) (hty : n.typeText? "type" = some ty)
    (hdecided : Decided w env tables inner)
    (hfits : w.isInstance v ty = true → Fits w env tables inner none v)
    (hsubject : w.eval env subject = some v)
    (h : Yields tables (destructureAs n (n.children.map Node.site) subject isLet).run
      (.ok result)) :
    Decides w env (Keeps w subject v) result (Matches w env tables n isLet v) := by
  rw [destructureAs, inRole?_map_site, hinner, hty] at h
  obtain ⟨bound, hbound, h⟩ := yields_run_bind h
  obtain rfl := Except.ok.inj (yields_pure h)
  rw [matches_asType hkind hinner hty]
  refine (Decides.ofTest (eval_isType ty hsubject)).absorb ?_
  rintro ⟨_, his, -⟩
  exact (hdecided _ v isLet bound (eval_cast hsubject his) (hfits his) hbound).mono
    fun _ hkeeps => eval_cast hkeeps his

/-- Every pattern is read as what decides whether a subject matches. -/
theorem decided_site (w : World) (env : Environment) (tables : SideTables) (n : Node) :
    Decided w env tables n := by
  -- An argument of a case stands between the pattern and the one in it, so the induction goes down
  -- two steps at once.
  suffices h : Decided w env tables n ∧ ∀ child ∈ n.children, Decided w env tables child from h.1
  induction n using Node.induction with
  | h n ih =>
    have hchildren : ∀ child ∈ n.children, Decided w env tables child := fun child hchild =>
      (ih child hchild).1
    refine ⟨fun subject v isLet found hsubject hfits hread => ?_, hchildren⟩
    rw [pattern_site] at hread
    cases hfits with
    | wildcard hkind =>
      simp only [readPattern, hkind] at hread
      obtain rfl := Except.ok.inj (yields_pure hread)
      rw [matches_wildcard hkind]
      exact .nothing
    | identifier hkind =>
      simp only [readPattern, hkind] at hread
      obtain rfl := Except.ok.inj (yields_pure hread)
      rw [matches_identifier hkind]
      exact .name n.text isLet
    | @binding _ inner _ _ hkind hinner hfit =>
      simp only [readPattern, hkind, List.head?_map, hinner, Option.map_some] at hread
      rw [matches_binding hkind hinner]
      exact hchildren inner (List.mem_of_head? hinner) _ _ _ _ hsubject hfit hread
    | @expression _ inner _ u _ hkind hinner hdenotes =>
      simp only [readPattern, hkind, List.head?_map, hinner, Option.map_some] at hread
      obtain ⟨e, he, hread⟩ := yields_run_bind hread
      obtain rfl := Except.ok.inj (yields_pure hread)
      exact decides_expression hkind hinner hdenotes (yields_run_lift he) hsubject
    | plainCase hkind harguments hstatic hcase =>
      simp only [readPattern, hkind] at hread
      obtain rfl := (yields_of_destructureCase hread).1 harguments
      exact decides_plainCase hkind harguments hstatic hcase hsubject
    | enumCase hkind harguments howner hpayload =>
      simp only [readPattern, hkind] at hread
      refine decides_enumCase hkind (fun argument hargument => (ih argument ?_).2) howner hpayload
        hsubject ((yields_of_destructureCase hread).2 harguments)
      exact List.mem_of_mem_filter hargument
    | tuple hkind hfit =>
      simp only [readPattern, hkind] at hread
      exact decides_tuple hkind hchildren hfit hsubject hread
    | isType hkind =>
      simp only [readPattern, hkind] at hread
      obtain rfl := Except.ok.inj (yields_pure hread)
      rw [matches_isType hkind]
      exact .ofTest (eval_isType _ hsubject)
    | @asType _ inner _ _ _ hkind hinner hty hfit =>
      simp only [readPattern, hkind] at hread
      exact decides_asType hkind hinner hty (hchildren inner (List.mem_of_find?_eq_some hinner))
        hfit hsubject hread

/-- A pattern is read as a test that is always defined and true exactly for the values that match,
    and as declarations of the matched parts: they give the names these parts if each is made
    against the environment of the test, and one after the other if the subject keeps its value
    while all but the last name are declared. -/
theorem decides_pattern_site (hsubject : w.eval env subject = some v)
    (hfits : Fits w env tables n subject.ty v)
    (hread : Yields tables (n.site.pattern subject .condition isLet).run (.ok found)) :
    (∃ b, w.holds? env found.condition = some (.bool b) ∧
      (b = true ↔ ∃ bound, Matches w env tables n isLet v bound)) ∧
    ∀ bound, Matches w env tables n isLet v bound →
      w.boundAtOnce env found.bindings = some bound ∧
      ((∀ env', (∀ x ∉ (bound.map Bound.name).dropLast, env' x = env x) →
          w.eval env' subject = some v) →
        w.boundInOrder env found.bindings = some bound) := by
  obtain ⟨htest, hstands⟩ := decided_site w env tables n subject v isLet found hsubject hfits hread
  refine ⟨htest, fun bound hbound => ⟨?_, fun hkeeps => ?_⟩⟩
  · exact boundAtOnce_of_stands hsubject (hstands bound hbound)
  · exact boundInOrder_of_stands (hstands bound hbound) hkeeps

end

/-- The pattern `let (y, x)`. -/
def pairPattern : Node :=
  .node { kind := .valueBindingPattern, text := some "let" }
    [.node { kind := .tuplePattern }
      [.node { kind := .identifierPattern, text := some "y" } [],
        .node { kind := .identifierPattern, text := some "x" } []]]

def pairValue : Value :=
  .tuple (.cons none (.object 1) (.cons none (.object 2) .nil))

/-- A world without types and members. -/
def plainWorld : World where
  isInstance _ _ := false
  static _ _ := none
  field _ _ := none
  other _ _ := none

/-- A pair under two names. -/
def pairEnvironment : Environment :=
  (Environment.set (fun _ => none) "p" pairValue).set "y" pairValue

def pairBindings (subject : Expr) : List PatternVariable :=
  [⟨"y", plainMember subject "first", true⟩, ⟨"x", plainMember subject "second", true⟩]

/-- Matched with `p`, the names get the components.  Matched with `y` they do not: `x` is declared
    when `y` is the first component already. -/
theorem boundInOrder_pairPattern :
    let p : Expr := .name "p" false false {}
    let y : Expr := .name "y" false false {}
    let bound : List Bound := [⟨"y", .object 1, true⟩, ⟨"x", .object 2, true⟩]
    Matches plainWorld pairEnvironment {} pairPattern true pairValue bound ∧
      Yields {} (pairPattern.site.pattern p .condition true).run
        (.ok { bindings := pairBindings p }) ∧
      plainWorld.boundInOrder pairEnvironment (pairBindings p) = some bound ∧
      Yields {} (pairPattern.site.pattern y .condition true).run
        (.ok { bindings := pairBindings y }) ∧
      plainWorld.boundAtOnce pairEnvironment (pairBindings y) = some bound ∧
      plainWorld.boundInOrder pairEnvironment (pairBindings y) = none := by
  intro p y bound
  have hmatches : Matches plainWorld pairEnvironment {} pairPattern true pairValue bound :=
    .binding rfl rfl (.tuple rfl (.cons (.identifier rfl) (.cons (.identifier rfl) .nil)))
  have hfits (ty : Option String) : Fits plainWorld pairEnvironment {} pairPattern ty pairValue :=
    .binding rfl rfl (.tuple rfl (.cons (.identifier rfl) (.cons (.identifier rfl) .nil)))
  have hp : Yields {} (pairPattern.site.pattern p .condition true).run
      (.ok { bindings := pairBindings p }) := ⟨{}, {}, Exchange.reaches_alone _⟩
  have hy : Yields {} (pairPattern.site.pattern y .condition true).run
      (.ok { bindings := pairBindings y }) := ⟨{}, {}, Exchange.reaches_alone _⟩
  obtain ⟨-, hpbound⟩ := decides_pattern_site (by decide) (hfits none) hp
  obtain ⟨-, hybound⟩ := decides_pattern_site (by decide) (hfits none) hy
  refine ⟨hmatches, hp, (hpbound bound hmatches).2 fun env' henv' => ?_, hy,
    (hybound bound hmatches).1, by decide⟩
  exact henv' "p" (by decide)

end Ferry.Source
