/-
  Ferry.Proofs.Target.RawValue

  The raw values of enumerations.  The type of the values is the first inherited type if the writer
  knows it as one (`rawTypes`); else it is a supertype, and the cases have no values.  Five of the
  types by which enumerations are classified (`Pass.rawValueTypes`) are not known to the writer, so
  not every enumeration of raw values keeps them (`hasRawValues_iff`).

  A case without a value of its own counts on from the cases before it (`enumEntries_eq_zipWith`),
  but only from a literal that is read as a signed integer.  A negated literal is an operator with
  an operand, and the case after it goes on from the one before it (`writes_of_reads_integers`).
-/
import Ferry.Pass.Collect
import Ferry.Proofs.Source.ForetoldDeclaration
import Ferry.Proofs.Target.CaseName
import Mathlib.Data.List.Induction

namespace Ferry

namespace Target

/-- A constant that stands for a value. -/
def valuedEntry (element : EnumElement) (raw : Document) : Document :=
  .cat [.text (upperSnake element.name ++ "("), raw, .text ")"]

def rawClause (ty : String) : String :=
  "(val rawValue: " ++ typeText ty ++ ")"

section

variable (registry : Registry) (receiver : Option String) (isValue : Bool) (head : TypeHead)
  (kind : Option EnumKind) (elements : List EnumElement) (members : List Stmt) (span : Option Span)

/-- An enumeration class from what stands between its name and its body, and its constants. -/
def enumClass (clause : String) (entries : List Document) : Piece :=
  .plain .other [.ofDocument (.cat [
    .text (accessText head.access ++ "enum class " ++ head.name ++ clause ++ " "),
    .block "\x7b" (entryRows (!members.isEmpty) entries ++
      memberRows (!members.isEmpty) (assemble (pieces registry none false members)))])]

theorem zip_rawDocuments :
    elements.zip (rawDocuments registry elements) =
      elements.map fun element =>
      (element, element.rawValue.map (exprDocument registry .value)) := by
  induction elements with
  | nil => rfl
  | cons element rest ih =>
    obtain ⟨name, payload, rawValue, span⟩ := element
    cases rawValue <;> exact congrArg (_ :: ·) ih

/-- The constants of an enumeration with raw values of a type, or with none. -/
def entriesOf (rawType : Option String) : List Document :=
  enumEntries rawType (some 0)
    (elements.map fun element => (element, element.rawValue.map (exprDocument registry .value)))

variable {head kind elements}

theorem piece_enumClass {rawType : Option String}
    (hclass : isSealed registry head.name kind elements = false)
    (htype : head.inherits.head?.filter rawTypes.contains = rawType) :
    piece registry receiver isValue (.enumDecl head kind elements members span) =
      enumClass registry head members
        (rawType.elim "" rawClause ++
          supertypesText registry (head.inherits.filter fun ty => some ty ≠ rawType))
        (entriesOf registry elements rawType) := by
  have hpiece : piece registry receiver isValue (.enumDecl head kind elements members span) =
      .plain .other [.ofDocument (enumDocument registry head kind elements
        (rawDocuments registry elements) (!members.isEmpty)
        (assemble (pieces registry none false members)))] := rfl
  rw [hpiece, enumDocument, hclass, if_neg Bool.false_ne_true, zip_rawDocuments, htype]
  cases rawType <;> simp [enumClass, rawClause, entriesOf, String.append_assoc]

theorem entriesOf_none :
    entriesOf registry elements none = elements.map fun element =>
    .text (upperSnake element.name) := by
  unfold entriesOf
  induction elements with
  | nil => rfl
  | cons element rest ih => exact congrArg (_ :: ·) ih

/-- Every constant of an enumeration with raw values is given one. -/
theorem exists_enumEntries_eq_zipWith (ty : String) (next : Option Int)
    (list : List (EnumElement × Option Document)) :
    ∃ raws : List Document, raws.length = list.length ∧
      enumEntries (some ty) next list = List.zipWith valuedEntry (list.map Prod.fst) raws := by
  fun_induction enumEntries (some ty) next list with
  | case1 => exact ⟨[], rfl, rfl⟩
  | case2 next element written rest name htype => cases htype
  | case3 next element written rest name ty htype raw next' hraw ih =>
    cases htype
    obtain ⟨raws, hlength, hraws⟩ := ih
    exact ⟨raw :: raws, congrArg (· + 1) hlength, congrArg (_ :: ·) hraws⟩

/-! ## Types -/

variable (head kind elements)

/-- That an enumeration is written as a class whose constructor takes a raw value of a type, that
    inherits from nothing, and each of whose constants is given one value. -/
def HasRawValues (ty : String) (written : Piece) : Prop :=
  ∃ raws : List Document, raws.length = elements.length ∧
    written = enumClass registry head members (rawClause ty)
    (List.zipWith valuedEntry elements raws)

/-- The types by which enumerations are classified but not written. -/
def unwrittenTypes : List String :=
  ["UInt8", "UInt16", "UInt32", "UInt64", "Bool"]

/-- What is written after the name tells a raw value from a supertype. -/
theorem not_hasRawValues_of_supertype {ty super : String} {entries : List Document} :
    ¬HasRawValues registry head elements members ty
      (enumClass registry head members (supertypesText registry [super]) entries) := by
  rintro ⟨raws, -, h⟩
  simp [enumClass, rawClause, supertypesText, Row.ofDocument, String.ext_iff] at h

theorem mem_rawTypes_iff {ty : String} (h : ty ∈ Pass.rawValueTypes) :
    ty ∈ rawTypes ↔ ty ∉ unwrittenTypes := by
  revert h ty
  decide

/-- An enumeration without payload that inherits from one type is written with raw values of this
    type unless it is one of five; with each of those the type is written as a supertype, and no
    constant is given a value. -/
theorem hasRawValues_iff (ty : String) (hty : Pass.cleaned head.inherits = [ty])
    (hkind : Pass.classify { head with inherits := Pass.cleaned head.inherits } elements =
      .payloadFree) :
    let written := piece registry receiver isValue
      (Pass.classifyStmt (Pass.cleanStmt (.enumDecl head kind elements members span)))
    (HasRawValues registry head elements members ty written ↔ ty ∉ unwrittenTypes) ∧
      (ty ∈ unwrittenTypes →
        written = enumClass registry head members (supertypesText registry [ty])
          (elements.map fun element => .text (upperSnake element.name))) := by
  intro written
  have hmem : ty ∈ Pass.rawValueTypes := by
    simp [Pass.classify, hty] at hkind
    exact hkind.2
  have hwritten : written = piece registry receiver isValue
      (.enumDecl { head with inherits := [ty] } (some .payloadFree) elements members span) := by
    rw [← hkind, ← hty]
    rfl
  have hclass : isSealed registry { head with inherits := [ty] }.name (some .payloadFree) elements =
      false := rfl
  -- The type is one that raw values are written for, or it is one of the five.
  by_cases hraw : ty ∈ rawTypes
  · have hshown : ty ∉ unwrittenTypes := (mem_rawTypes_iff hmem).mp hraw
    refine ⟨iff_of_true ?_ hshown, fun h => absurd h hshown⟩
    obtain ⟨raws, hlength, hraws⟩ := exists_enumEntries_eq_zipWith ty (some 0)
      (elements.map fun element => (element, element.rawValue.map (exprDocument registry .value)))
    have htype : ([ty] : List String).head?.filter rawTypes.contains = some ty := by simp [hraw]
    refine ⟨raws, by simpa using hlength, ?_⟩
    rw [hwritten, piece_enumClass registry receiver isValue members span hclass htype,
      entriesOf, hraws]
    simp [enumClass, supertypesText, Function.comp_def]
  · have hshown : ty ∈ unwrittenTypes := not_not.mp fun h => hraw ((mem_rawTypes_iff hmem).mpr h)
    have hplain : written = enumClass registry head members (supertypesText registry [ty])
        (elements.map fun element => .text (upperSnake element.name)) := by
      have htype : ([ty] : List String).head?.filter rawTypes.contains = none := by simp [hraw]
      rw [hwritten, piece_enumClass registry receiver isValue members span hclass htype,
        entriesOf_none]
      simp [enumClass]
    refine ⟨iff_of_false ?_ (not_not.mpr hshown), fun _ => hplain⟩
    rw [hplain]
    exact not_hasRawValues_of_supertype registry head elements members

def levelHead : TypeHead :=
  { name := "Level", generics := [], inherits := ["UInt8", "CaseIterable"], access := none }

def levelElements : List EnumElement :=
  [⟨"low", [], some (.literal (.int 1) {}), none⟩, ⟨"high", [], none, none⟩]

/-- The type of `Level` is a supertype in the target, and the value of the first case is lost. -/
theorem not_hasRawValues_level :
    let written := piece .empty none false
      (Pass.classifyStmt (Pass.cleanStmt (.enumDecl levelHead none levelElements [] none)))
    ¬HasRawValues .empty levelHead levelElements [] "UInt8" written ∧
      written = enumClass .empty levelHead [] (supertypesText .empty ["UInt8"])
        (levelElements.map fun element => .text (upperSnake element.name)) := by
  have hlevel := hasRawValues_iff .empty none false levelHead none levelElements [] none "UInt8"
    (by decide) (by decide)
  exact ⟨fun h => absurd (hlevel.1.mp h) (by decide), hlevel.2 (by decide)⟩

/-! ## Counting -/

variable {elements}

/-- The raw value that comes after a case, if `next` is the one that it goes on with. Only a signed
integer is counted on from. -/
def countAfter (next : Int) (element : EnumElement) : Int :=
  match element.rawValue with
  | none => next + 1
  | some (.literal (.int value) _) => value + 1
  | some _ => next

/-- A raw value that was counted to, or an error if it is too large. -/
def countedDocument (value : Int) : Document :=
  if value ≤ greatestRawValue then .text (toString value)
  else .marker ("no raw value follows " ++ toString greatestRawValue)

/-- The raw value of a case that goes on with `next` if it has none of its own. -/
def rawDocument (next : Int) (element : EnumElement) : Document :=
  (element.rawValue.map (exprDocument registry .value)).getD (countedDocument next)

variable (elements) in
/-- The raw values of cases, each of which goes on with what counting over those before it comes
to. -/
def rawDocumentsFrom (next : Int) : List Document :=
  elements.mapIdx fun i element =>
    rawDocument registry ((elements.take i).foldl countAfter next) element

theorem getElem?_rawDocumentsFrom {element : EnumElement} {after : List EnumElement} {i : Nat}
    (h : elements.drop i = element :: after) :
    (rawDocumentsFrom registry elements 0)[i]? =
      some (rawDocument registry ((elements.take i).foldl countAfter 0) element) := by
  have helement : elements[i]? = some element := by
    rw [← List.head?_drop, h, List.head?_cons]
  rw [rawDocumentsFrom, List.getElem?_mapIdx, helement, Option.map_some]

/-- The counter of the entries, which stops after the largest value. -/
def counter (next : Int) : Option Int :=
  if next ≤ greatestRawValue then some next else none

theorem successor?_eq_counter (value : Int) : successor? value = counter (value + 1) := by
  unfold successor? counter
  split_ifs <;> first | rfl | omega

theorem enumEntries_cons {ty : String} (hty : ty ≠ "String") (next : Int) (element : EnumElement)
    (rest : List (EnumElement × Option Document)) :
    enumEntries (some ty) (counter next)
        ((element, element.rawValue.map (exprDocument registry .value)) :: rest) =
      valuedEntry element (rawDocument registry next element) ::
        enumEntries (some ty) (counter (countAfter next element)) rest := by
  obtain ⟨name, payload, rawValue, span⟩ := element
  cases rawValue with
  | none =>
    by_cases hnext : next ≤ greatestRawValue
    · have hcounter : counter next = some next := if_pos hnext
      simp [enumEntries, hty, hcounter, hnext, rawDocument, countedDocument,
        valuedEntry, countAfter, successor?_eq_counter]
    -- Beyond the largest value there is no next one, and none after it either.
    · have hcounter : counter next = none := if_neg hnext
      have hafter : counter (next + 1) = none := if_neg (by omega)
      simp [enumEntries, hty, hcounter, hafter, hnext, rawDocument, countedDocument, valuedEntry,
        countAfter]
  | some e =>
    cases e with
    | literal value info =>
      cases value with
      | int value =>
        show _ :: enumEntries (some ty) (successor? value) rest = _
        rw [successor?_eq_counter]
        rfl
      | _ => rfl
    | _ => rfl

theorem enumEntries_eq_zipWith {ty : String} (hty : ty ≠ "String") (next : Int) :
    enumEntries (some ty) (counter next)
        (elements.map fun element =>
          (element, element.rawValue.map (exprDocument registry .value))) =
      List.zipWith valuedEntry elements (rawDocumentsFrom registry elements next) := by
  induction elements generalizing next with
  | nil => rfl
  | cons element rest ih =>
    rw [List.map_cons, enumEntries_cons registry hty, ih, rawDocumentsFrom, rawDocumentsFrom,
      List.mapIdx_cons]
    rfl

end

end Target

namespace Source

open Adapter Target

/-! ## Integers -/

def Node.ownValue? (case : Node) : Option Node :=
  case.child? "raw_value"

/-- The value of an integer literal, maybe with a minus before it. -/
def Node.integer? (n : Node) : Option Int :=
  match n.kind with
  | .integerLiteral => (integerValue? n.text).map Int.ofNat
  | .prefixOperator => do
    let operand ← n.child? "operand"
    let value ← integerValue? operand.text
    if n.text = "-" ∧ operand.kind = .integerLiteral then some (-Int.ofNat value) else none
  | _ => none

/-- One more than the value of a case, which is `next` if it has none of its own. -/
def valueFrom (next : Int) (case : Node) : Int :=
  (case.ownValue?.bind Node.integer?).getD next + 1

/-- The value that a case without one has after others: one more than the last of them, or 0. -/
def valueAfter (cases : List Node) : Int :=
  cases.foldl valueFrom 0

/-- Whether the next case goes on from this one: it has no value of its own, or a literal that is
read as a signed integer. -/
def isCounted (tables : SideTables) (case : Node) : Bool :=
  match case.ownValue? with
  | none => true
  | some own =>
    own.kind == .integerLiteral && (tables.directives.payload? own.head.offset .literal).isNone &&
      (integerValue? own.text).any fun value =>
        integerLiteral (tables.types.get? own.head.offset own.head.length) value = .int value

variable {tables : SideTables}

structure ReadsElement (tables : SideTables) (case : Node) (element : EnumElement) : Prop where
  name : element.name = case.text
  own : Option.Rel (fun own e => Yields tables own.site.expr e) case.ownValue? element.rawValue

theorem readsElement_of_yields {case : Node} {element : EnumElement}
    (h : Yields tables (readElement case.site) element) : ReadsElement tables case element := by
  obtain ⟨rawValue, hvalue, h⟩ := yields_bind h
  obtain ⟨span, -, h⟩ := yields_bind h
  obtain rfl := yields_pure h
  refine ⟨congrArg Node.text (node_site case), ?_⟩
  rw [Site.child?, children_site, inRole?_map_site] at hvalue
  exact rel_of_yields_mapM_map hvalue

theorem reads_of_readDeclaration {n : Node} {stmts : List Stmt} {before after : AdapterState}
    (hkind : n.kind = .enumDecl)
    (h : Runs tables (readDeclaration n (n.children.map Node.site)) before stmts after) :
    ∃ elements members span, stmts = [.enumDecl (typeHead n) none elements members span] ∧
      after.pending = before.pending ∧ List.Forall₂ (ReadsElement tables) n.cases elements := by
  obtain ⟨hpending, -⟩ := foretold_plainDeclaration (fun m _ => foretold tables m)
    (by simp [hkind]) (by simp [hkind]) _ _ _ h
  obtain ⟨span, -, h⟩ := yields_bind ⟨_, _, h⟩
  simp only [hkind] at h
  obtain ⟨elements, helements, h⟩ := yields_bind h
  obtain ⟨members, -, h⟩ := yields_bind h
  rw [elementSites_map_site] at helements
  refine ⟨elements, members, some span, yields_pure h, hpending, ?_⟩
  exact (List.forall₂_map_left_iff.mp (yields_mapM helements)).imp fun _ _ => readsElement_of_yields

/-- Code may be supplied for an expression; else it is read against the type of its place. -/
theorem yields_expr_site {n : Node} {e : Expr} (h : Yields tables n.site.expr e) :
    ∃ span, let info : Info := ⟨tables.types.get? n.head.offset n.head.length, span⟩
      (∃ code, tables.directives.payload? n.head.offset .literal = some code ∧
        e = .code code info) ∨ tables.directives.payload? n.head.offset .literal = none ∧
          Yields tables (readPlainExpr n (n.children.map Node.site) info) e := by
  rw [expr_site] at h
  obtain ⟨info, hinfo, h⟩ := yields_bind h
  obtain ⟨ty, hty, hinfo⟩ := yields_bind hinfo
  obtain ⟨span, -, hinfo⟩ := yields_bind hinfo
  obtain rfl := yields_pure hinfo
  obtain ⟨found, hfound, hty⟩ := yields_bind hty
  obtain rfl := yields_read hfound
  obtain rfl := yields_pure hty
  obtain ⟨again, hagain, h⟩ := yields_bind h
  obtain rfl := yields_read hagain
  refine ⟨some span, ?_⟩
  split at h
  next code hcode => exact .inl ⟨code, hcode, yields_pure h⟩
  next hcode => exact .inr ⟨hcode, h⟩

theorem eq_of_integerLiteral {ty : Option String} {value : Nat} {other : Int}
    (h : integerLiteral ty value = .int other) : other = value := by
  unfold integerLiteral at h
  split at h
  · cases h
  · cases h
  · split_ifs at h
    exact (Literal.int.inj h).symm

theorem countAfter_of_literal {own : Node} {e : Expr} {value : Nat} (next : Int)
    (hkind : own.kind = .integerLiteral) (hvalue : integerValue? own.text = some value)
    (h : Yields tables own.site.expr e) {element : EnumElement}
    (helement : element.rawValue = some e) :
    countAfter next element =
      if (tables.directives.payload? own.head.offset .literal).isNone &&
        decide (integerLiteral (tables.types.get? own.head.offset own.head.length) value =
          .int value)
      then Int.ofNat value + 1 else next := by
  obtain ⟨span, ⟨code, hcode, rfl⟩ | ⟨hcode, h⟩⟩ := yields_expr_site h
  · simp [countAfter, helement, hcode]
  · simp only [readPlainExpr, hkind, readInteger, hvalue] at h
    obtain rfl := yields_pure h
    rw [countAfter, helement, hcode]
    generalize hliteral : integerLiteral _ value = literal
    cases literal with
    | int other =>
      obtain rfl := eq_of_integerLiteral hliteral
      simp
    | _ => simp

theorem countAfter_of_operator {own : Node} {e : Expr} (next : Int)
    (hkind : own.kind = .prefixOperator) (h : Yields tables own.site.expr e) {element : EnumElement}
    (helement : element.rawValue = some e) : countAfter next element = next := by
  obtain ⟨span, ⟨code, hcode, rfl⟩ | ⟨hcode, h⟩⟩ := yields_expr_site h
  · rw [countAfter, helement]
  · simp only [readPlainExpr, hkind, readUnary] at h
    split at h
    next operand _ =>
      obtain ⟨value, -, h⟩ := yields_bind h
      obtain rfl := yields_pure h
      rw [countAfter, helement]
    next =>
      obtain ⟨found, span, rfl⟩ := yields_errorExpr h
      rw [countAfter, helement]

/-- What a case with an integer for a value does to the counter. -/
theorem countAfter_of_reads {case : Node} {element : EnumElement} (next : Int)
    (hinteger : case.ownValue?.all (·.integer?.isSome) = true)
    (h : ReadsElement tables case element) :
    countAfter next element = if isCounted tables case then valueFrom next case else next := by
  have hown := h.own
  unfold isCounted valueFrom
  cases hcase : case.ownValue? with
  | none =>
    rw [hcase] at hown
    generalize hraw : element.rawValue = raw at hown
    cases hown
    simp [countAfter, hraw]
  | some own =>
    rw [hcase] at hown
    generalize hraw : element.rawValue = raw at hown
    -- An integer is a literal, which is counted if it is a signed one, or an operator and a
    -- literal.
    cases hown with
    | some hread =>
      have hsome : own.integer?.isSome = true := by rwa [hcase] at hinteger
      unfold Node.integer? at hsome
      split at hsome
      next hkind =>
        obtain ⟨value, hvalue⟩ := Option.isSome_iff_exists.mp (Option.isSome_map.symm.trans hsome)
        rw [countAfter_of_literal next hkind hvalue hread hraw]
        simp [hkind, hvalue, Node.integer?]
      next hkind =>
        rw [countAfter_of_operator next hkind hread hraw]
        simp [hkind]
      next => cases hsome

theorem foldl_countAfter {cases : List Node} {elements : List EnumElement} (next : Int)
    (hinteger : ∀ case ∈ cases, case.ownValue?.all (·.integer?.isSome) = true)
    (h : List.Forall₂ (ReadsElement tables) cases elements) :
    elements.foldl countAfter next = (cases.filter (isCounted tables)).foldl valueFrom next := by
  induction h generalizing next with
  | nil => rfl
  | @cons case element cases elements hcase hrest ih =>
    obtain ⟨hfirst, hothers⟩ := List.forall_mem_cons.mp hinteger
    rw [List.foldl_cons, ih _ hothers, countAfter_of_reads next hfirst hcase, List.filter_cons]
    split_ifs <;> rfl

/-- Leaving out cases that are not counted changes nothing if the last value written is. -/
theorem valueAfter_filter {cases : List Node}
    (hinteger : ∀ case ∈ cases, case.ownValue?.all (·.integer?.isSome) = true)
    (h : ∀ last, (cases.filter (·.ownValue?.isSome)).getLast? = some last →
      isCounted tables last = true) :
    valueAfter (cases.filter (isCounted tables)) = valueAfter cases := by
  -- From the end: only the last value that is written matters.
  induction cases using List.reverseRecOn with
  | nil => rfl
  | append_singleton cases case ih =>
    obtain ⟨hothers, hlast⟩ := List.forall_mem_append.mp hinteger
    cases hcase : case.ownValue? with
    | none =>
      have hcounted : isCounted tables case = true := by simp [isCounted, hcase]
      have hsame := ih hothers fun last hlast => h last (by simpa [hcase] using hlast)
      simp only [valueAfter] at hsame ⊢
      simp [hcounted, valueFrom, hcase, hsame]
    | some own =>
      have hcounted : isCounted tables case = true := h case (by simp [hcase])
      have hinteger := hlast case List.mem_cons_self
      rw [hcase] at hinteger
      obtain ⟨value, hvalue⟩ := Option.isSome_iff_exists.mp hinteger
      simp [valueAfter, hcounted, valueFrom, hcase, hvalue]

/-- An enumeration with raw values of type `Int`, written as integers, that is read and then written
    as a class: a value that is written stays as it is read.  A case without one counts on from 0 or
    from the last literal that is read as a signed integer, up to the largest value, with an error
    after it; this is the value after the case before unless a value that is not counted, such as a
    negative one, was written since. -/
theorem writes_of_reads_integers {n : Node} {stmts : List Stmt} {start finish : AdapterState}
    (hkind : n.kind = .enumDecl) (htype : (n.textsOf .inheritedType).head? = some "Int")
    (hinteger : ∀ case ∈ n.cases, case.ownValue?.all (·.integer?.isSome) = true)
    (hread : Runs tables (readDeclaration n (n.children.map Node.site)) start stmts finish)
    (registry : Registry) (receiver : Option String) (isValue : Bool) :
    ∃ elements members span,
      stmts = [.enumDecl (typeHead n) none elements members span] ∧
      finish.pending = start.pending ∧
      elements.map EnumElement.name = n.cases.map Node.text ∧
      (isSealed registry n.text none elements = false →
        ∃ raws : List Document, raws.length = elements.length ∧
          piece registry receiver isValue (.enumDecl (typeHead n) none elements members span) =
            enumClass registry (typeHead n) members
              (rawClause "Int" ++ supertypesText registry
                ((n.textsOf .inheritedType).filter (· ≠ "Int")))
              (List.zipWith valuedEntry elements raws) ∧
          ∀ before case after, n.cases = before ++ case :: after →
            (∀ own, case.ownValue? = some own → ∃ e, Yields tables own.site.expr e ∧
              raws[before.length]? = some (exprDocument registry .value e)) ∧
            (case.ownValue? = none →
              raws[before.length]? =
                some (countedDocument (valueAfter (before.filter (isCounted tables)))) ∧
              ((∀ last, (before.filter (·.ownValue?.isSome)).getLast? = some last →
                isCounted tables last = true) →
                raws[before.length]? = some (countedDocument (valueAfter before))))) := by
  obtain ⟨elements, members, span, rfl, hpending, hreads⟩ := reads_of_readDeclaration hkind hread
  have hnames : elements.map EnumElement.name = n.cases.map Node.text := by
    symm
    rw [← List.forall₂_eq_eq_eq, List.forall₂_map_left_iff, List.forall₂_map_right_iff]
    exact hreads.imp fun _ _ h => h.name.symm
  refine ⟨elements, members, span, rfl, hpending, hnames, fun hclass => ?_⟩
  have hinherits : (typeHead n).inherits = n.textsOf .inheritedType := rfl
  have hraw : (typeHead n).inherits.head?.filter rawTypes.contains = some "Int" := by
    rw [hinherits, htype]
    rfl
  refine ⟨rawDocumentsFrom registry elements 0, List.length_mapIdx, ?_, ?_⟩
  · have hentries : entriesOf registry elements (some "Int") =
        List.zipWith valuedEntry elements (rawDocumentsFrom registry elements 0) :=
      enumEntries_eq_zipWith registry (by decide) 0
    rw [piece_enumClass registry receiver isValue members span hclass hraw, hentries, hinherits]
    simp
  · intro before case after hcases
    have hdrop := List.forall₂_drop before.length hreads
    have htake := List.forall₂_take before.length hreads
    rw [hcases, List.drop_left] at hdrop
    rw [hcases, List.take_left] at htake
    -- The case in question with the element read from it.
    obtain ⟨element, rest, hcase, -, hrest⟩ := List.forall₂_cons_left_iff.mp hdrop
    have hown := hcase.own
    have hbefore : ∀ other ∈ before, other.ownValue?.all (·.integer?.isSome) = true :=
      fun other hother => hinteger other (by simp [hcases, hother])
    rw [getElem?_rawDocumentsFrom registry hrest, foldl_countAfter 0 hbefore htake]
    constructor
    · intro own hsome
      rw [hsome] at hown
      generalize hraw : element.rawValue = raw at hown
      cases hown with
      | some hvalue => exact ⟨_, hvalue, by simp [rawDocument, hraw]⟩
    · intro hnone
      rw [hnone] at hown
      generalize hraw : element.rawValue = raw at hown
      cases hown
      have hcounted : rawDocument registry (valueAfter (before.filter (isCounted tables))) element =
          countedDocument (valueAfter (before.filter (isCounted tables))) := by
        simp [rawDocument, hraw]
      refine ⟨congrArg some hcounted, fun hlast => congrArg some (hcounted.trans ?_)⟩
      rw [valueAfter_filter hbefore hlast]

/-- The declaration `enum Shift: Int { case left = -5, right }`. -/
def shiftEnum : Node :=
  .node { kind := .enumDecl, text := some "Shift", length := 41 }
    [.node { kind := .inheritedType, text := some "Int", offset := 12, length := 3 } [],
      .node { kind := .enumCaseDecl, offset := 18, length := 21 }
        [.node { kind := .enumCaseElement, text := some "left", offset := 23, length := 9 }
          [.node { kind := .prefixOperator, text := some "-", role := some "raw_value",
                   offset := 30, length := 2 }
            [.node { kind := .integerLiteral, text := some "5", role := some "operand",
                     offset := 31, length := 1 } []]],
          .node { kind := .enumCaseElement, text := some "right", offset := 34, length := 5 } []]]

def shiftElements : List EnumElement :=
  [⟨"left", [], some (.prefixOp "-" (.literal (.int 5) { span := some ⟨31, 32⟩ })
      { span := some ⟨30, 32⟩ }), some ⟨23, 32⟩⟩,
    ⟨"right", [], none, some ⟨34, 39⟩⟩]

/-- The second case goes on with 0, and not with the value after -5. -/
theorem writes_of_reads_shift :
    Runs {} (readDeclaration shiftEnum (shiftEnum.children.map Node.site)) {}
      [.enumDecl (typeHead shiftEnum) none shiftElements [] (some ⟨0, 41⟩)] {} ∧
    ∃ clause, ∃ raws : List Document,
      piece .empty none false
          (.enumDecl (typeHead shiftEnum) none shiftElements [] (some ⟨0, 41⟩)) =
        enumClass .empty (typeHead shiftEnum) [] clause
          (List.zipWith valuedEntry shiftElements raws) ∧
      raws[1]? = some (.text "0") ∧ valueAfter (shiftEnum.cases.take 1) = -4 := by
  have hread : Runs {} (readDeclaration shiftEnum (shiftEnum.children.map Node.site)) {}
      [.enumDecl (typeHead shiftEnum) none shiftElements [] (some ⟨0, 41⟩)] {} :=
    Exchange.reaches_alone _
  obtain ⟨elements, members, span, heq, -, -, hwritten⟩ :=
    writes_of_reads_integers rfl (by decide) (by decide) hread .empty none false
  obtain ⟨-, -, rfl, rfl, rfl⟩ := Stmt.enumDecl.inj (List.head_eq_of_cons_eq heq)
  obtain ⟨raws, -, hpiece, hraws⟩ := hwritten (by decide)
  exact ⟨hread, _, raws, hpiece, ((hraws [_] _ [] rfl).2 rfl).1, by decide⟩

end Source

end Ferry
