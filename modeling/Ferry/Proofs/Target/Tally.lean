/-
  Ferry.Proofs.Target.Tally

  What is left of a tree in its documents.  Markers and branches are tallied, each with a weight.
  An expression writes each of its parts once (`tally_expr`).  So do most statements
  (`tally_piece`); but some leave parts out or write them more than once (`writtenOf`), and some
  leave markers of their own (`stmtTally`).
-/
import Ferry.Proofs.Target.Branch
import Ferry.Proofs.Target.RawValue
import Ferry.Proofs.Traverse.ErrorCount

namespace Ferry.Target

open Document (joinWith)

/-- What a marker and a branch count for. -/
structure Weight where
  marker : Nat
  branch : Nat

variable {w : Weight}

attribute [simp] Row.ofDocument Row.ofText Row.ofMarker

/-! ## Documents -/

mutual

@[simp] def Document.tally (w : Weight) : Document → Nat
  | .text _ => 0
  | .marker _ => w.marker
  | .cat parts => tallyAll w parts
  | .list head items tail => head.tally w + tallyAll w items + tail.tally w
  | .block _ rows => tallyRows w rows
  | .lambda _ value => value.tally w
  | .branch _ rows => w.branch + tallyRows w rows

@[simp] def tallyAll (w : Weight) : List Document → Nat
  | [] => 0
  | d :: rest => d.tally w + tallyAll w rest

@[simp] def tallyRows (w : Weight) : List Row → Nat
  | [] => 0
  | ⟨_, content⟩ :: rest => content.tally w + tallyRows w rest

end

theorem tallyAll_eq_sum (ds : List Document) : tallyAll w ds = (ds.map (Document.tally w)).sum := by
  induction ds <;> simp_all

@[simp] theorem tallyAll_append (ds more : List Document) :
    tallyAll w (ds ++ more) = tallyAll w ds + tallyAll w more := by
  simp [tallyAll_eq_sum]

@[simp] theorem tallyAll_map {α : Type} (f : α → Document) (list : List α) :
    tallyAll w (list.map f) = (list.map fun a => (f a).tally w).sum := by
  simp [tallyAll_eq_sum, Function.comp_def]

@[simp] theorem tallyRows_cons (row : Row) (rest : List Row) :
    tallyRows w (row :: rest) = row.content.tally w + tallyRows w rest := by
  cases row
  rfl

@[simp] theorem tallyRows_append (rows more : List Row) :
    tallyRows w (rows ++ more) = tallyRows w rows + tallyRows w more := by
  induction rows <;> simp_all [Nat.add_assoc]

@[simp] theorem tallyRows_map {α : Type} (f : α → Row) (list : List α) :
    tallyRows w (list.map f) = (list.map fun a => (f a).content.tally w).sum := by
  induction list <;> simp_all

@[simp] theorem tallyAll_joinWith (separator : String) (ds : List Document) :
    tallyAll w (joinWith separator ds) = tallyAll w ds := by
  fun_induction joinWith separator ds <;> simp_all

@[simp] theorem tally_operand (e : Expr) (d : Document) (parent : Precedence) (tieWraps : Bool) :
    (operand e d parent tieWraps).tally w = d.tally w := by
  rw [operand]
  split <;> simp [Document.parenthesized]

@[simp] theorem tally_binaryDocument (lhs : Expr) (op : String) (rhs : Expr)
    (left right : Document) :
    (binaryDocument lhs op rhs left right).tally w = left.tally w + right.tally w := by
  simp [binaryDocument]

@[simp] theorem tally_tupleDocument (ds : List Document) :
    (tupleDocument ds).tally w = tallyAll w ds := by
  fun_cases tupleDocument ds <;> simp

theorem tally_callDocument (callee : Document) (arguments : List WrittenArgument)
    (hasTrailing : Bool) : (callDocument callee arguments hasTrailing).tally w =
      callee.tally w + (arguments.map fun argument => argument.value.tally w).sum := by
  have hdocument : ∀ argument : WrittenArgument, argument.document.tally w =
      argument.value.tally w := by
    intro argument
    rw [WrittenArgument.document]
    split <;> simp
  unfold callDocument
  dsimp only
  split
  next last hlast =>
    obtain ⟨init, rfl⟩ := List.getLast?_eq_some_iff.mp hlast
    split
    · split
      next hlength =>
        obtain rfl : init = [] := by simpa using hlength
        simp
      next => simp [hdocument, Nat.add_assoc]
    · simp [hdocument]
  next => simp [hdocument]

/-! ## Pieces -/

@[simp] def Piece.tally (w : Weight) : Piece → Nat
  | plain _ rows => tallyRows w rows
  | attempt body cleanup => body.tally w + tallyAll w cleanup.toList
  | handler _ body => body.tally w

/-- Pieces one after the other; a handler that follows no guarded block is a marker. -/
@[simp] def tallyPieces (w : Weight) : (isGuarded : Bool) → List Piece → Nat
  | _, [] => 0
  | _, .plain _ rows :: rest => tallyRows w rows + tallyPieces w false rest
  | _, .attempt body cleanup :: rest =>
    (Piece.attempt body cleanup).tally w + tallyPieces w true rest
  | isGuarded, .handler _ body :: rest =>
    (if isGuarded then body.tally w else w.marker) + tallyPieces w isGuarded rest

theorem tally_attemptRow (body : Document) (handlers : List (String × Document))
    (cleanup : Option Document) :
    (attemptRow body handlers cleanup).content.tally w =
      body.tally w + (handlers.map fun handler => handler.2.tally w).sum +
        tallyAll w cleanup.toList := by
  have hhandlers (f : String × Document → List Document)
      (hf : ∀ error body, tallyAll w (f (error, body)) = body.tally w) :
      tallyAll w (handlers.flatMap f) = (handlers.map fun handler => handler.2.tally w).sum := by
    induction handlers <;> simp_all
  rw [attemptRow]
  split
  next hnone =>
    rw [Bool.and_eq_true, List.isEmpty_iff, Option.isNone_iff_eq_none] at hnone
    simp [hnone]
  next => cases cleanup <;> simp [hhandlers, Nat.add_assoc]

def tallyParagraphs (w : Weight) (paragraphs : List Paragraph) : Nat :=
  (paragraphs.map fun paragraph => tallyRows w paragraph.rows).sum

theorem tally_separated (previous : Option Family) (paragraphs : List Paragraph) :
    tallyRows w (separated previous paragraphs) = tallyParagraphs w paragraphs := by
  fun_induction separated previous paragraphs with
  | case1 => rfl
  | case2 previous first last rows rest hrows ih =>
    simp [ih, tallyParagraphs, List.isEmpty_iff.mp hrows]
  | case3 previous first last rows rest hrows ih =>
    rw [tallyRows_append, tallyRows_append, ih]
    split <;> simp [tallyParagraphs, Row.blank]

theorem tally_assemble (pieces : List Piece) :
    tallyRows w (assemble pieces) = tallyPieces w false pieces := by
  -- Handlers wait until it is known what they follow: a guarded block, or nothing.
  have hgathered : let gathered := pieces.foldr Gathered.step {}
      (gathered.waiting.map fun handler => handler.2.tally w).sum +
          tallyParagraphs w gathered.paragraphs = tallyPieces w true pieces ∧
        tallyParagraphs w gathered.settled = tallyPieces w false pieces := by
    induction pieces with
    | nil => exact ⟨rfl, rfl⟩
    | cons piece rest ih =>
      obtain ⟨hguarded, hstray⟩ := ih
      cases piece with
      | plain =>
        simp_all [Gathered.step, Gathered.settled, tallyParagraphs]
      | handler =>
        simp_all [Gathered.step, Gathered.settled, tallyParagraphs, strayHandler]
        omega
      | attempt body cleanup =>
        simp [Gathered.step, Gathered.settled, tallyParagraphs, tally_attemptRow, ← hguarded]
        omega
  rw [assemble, tally_separated]
  exact hgathered.2

/-! ## Expressions -/

@[simp] def tallyOf (registry : Registry) (w : Weight) : Fragment → Nat
  | .expr _ e => (exprDocument registry .value e).tally w
  | .stmts list => tallyPieces w false (pieces registry none false list)

variable {registry : Registry}

theorem tally_variableDocument (receiver : Option String) (item : Variable) :
    (variableDocument registry receiver item).tally w =
      (item.initializer.toList.map fun e => (exprDocument registry .value e).tally w).sum := by
  obtain ⟨name, ty, _ | value, isLet, isStatic, getter, setter, access, own, span⟩ := item <;>
    simp [variableDocument]

/-- What is written of a list does not depend on what it is a part of. -/
theorem tallyPieces_pieces (receiver : Option String) (isValue isGuarded : Bool)
    (list : List Stmt) : tallyPieces w isGuarded (pieces registry receiver isValue list) =
      tallyPieces w isGuarded (pieces registry none false list) := by
  induction list generalizing isGuarded with
  | nil => rfl
  | cons s rest ih =>
    have hrest : ∀ p, tallyPieces w isGuarded (p :: pieces registry receiver isValue rest) =
        tallyPieces w isGuarded (p :: pieces registry none false rest) := by
      intro p
      cases p <;> simp [ih]
    cases s with
    | returnStmt value span =>
      cases value <;> cases isValue <;> cases rest <;>
        simp_all [pieces, piece]
    | function head parameters body span =>
      cases body <;> simp [pieces, piece, ih]
    | declare item => simp [pieces, piece, tally_variableDocument, ih]
    | _ => exact hrest _

theorem tally_writtenArguments (e : Expr) : (exprDocument registry .value e).tally w =
    ((writtenArguments e).map fun a => (exprDocument registry .value a.2).tally w).sum := by
  cases e with
  | tuple elements info =>
    simp [exprDocument, argumentItems_eq_map, writtenArguments, argumentItem,
      WrittenArgument.ofExpr, Function.comp_def]
  | shuffle slots info =>
    simp [exprDocument, slotItems_eq_flatMap, writtenArguments, argumentItem,
      WrittenArgument.ofExpr, Function.comp_def, List.map_flatMap, tallyAll_eq_sum]
  | paren inner info => simp [exprDocument, writtenArguments, Document.parenthesized]
  | _ => simp [writtenArguments]

theorem tally_member (base : Expr) (n : String) (isLibrary : Bool) (style : Option EnumKind)
    (info : Info) : (exprDocument registry .value (.member base n isLibrary style info)).tally w =
      (exprDocument registry .value base).tally w := by
  cases base with
  | name name isLibrary isImplicit info =>
    show (if _ then _ else _ : Document).tally w = 0
    split <;> simp [exprDocument]
  | optional inner info =>
    show (Document.cat [_, _]).tally w = _
    simp [exprDocument]
  | _ =>
    show (Document.cat [_, _]).tally w = _
    simp

theorem tally_segmentDocuments (segments : List Segment) :
    tallyAll w (segmentDocuments registry segments) =
      ((segments.flatMap Segment.values).map fun e =>
        (exprDocument registry .value e).tally w).sum := by
  induction segments with
  | nil => rfl
  | cons segment rest ih =>
    cases segment with
    | text text => simp [segmentDocuments, Segment.values, ih]
    | value e =>
      have hsegment : (segmentDocument e (exprDocument registry .value e) rest).tally w =
          (exprDocument registry .value e).tally w := by
        fun_cases segmentDocument e (exprDocument registry .value e) rest <;> simp
      simp [segmentDocuments, Segment.values, ih, hsegment]

def ownTally (w : Weight) : Expr → Nat
  | .error .. => w.marker
  | _ => 0

/-- An expression writes each of its parts once. -/
theorem tally_expr (e : Expr) : (exprDocument registry .value e).tally w =
    ownTally w e + (e.seen.map fun part => tallyOf registry w part.2).sum := by
  cases e
  case call callee arguments hasTrailing isPure info =>
    have hcallee : (calleeDocument registry callee).tally w =
        (exprDocument registry .value callee).tally w := by
      fun_cases calleeDocument registry callee <;> simp [tally_member]
    rw [exprDocument_call_items, tally_callDocument, hcallee, List.map_map]
    simp only [ownTally, Expr.seen, Expr.parts, Part.value, List.map_cons, List.sum_cons, tallyOf,
      tally_writtenArguments arguments]
    simp [argumentItem, WrittenArgument.ofExpr, Function.comp_def]
  case closure parameters body info =>
    -- A single value, returned or not, is a lambda; all else is a block of rows.
    unfold exprDocument
    split <;> simp [ownTally, Expr.seen, Expr.parts, tallyOf, pieces, piece, tally_assemble,
      tallyPieces_pieces]
  case tuple =>
    rw [tally_writtenArguments]
    simp [ownTally, Expr.seen, Expr.parts, Part.value, writtenArguments, Function.comp_def]
  case shuffle slots info =>
    have hslot : ∀ slot, (slotArguments slot).map
        (fun a => (exprDocument registry .value a.2).tally w) =
        slot.values.map fun e => (exprDocument registry .value e).tally w := by
      intro slot
      cases slot <;> simp [slotArguments, Slot.values]
    rw [tally_writtenArguments]
    simp [ownTally, Expr.seen, Expr.parts, Part.value, writtenArguments, Function.comp_def,
      List.map_flatMap, hslot]
  case dictionary keys values info =>
    have hentries := sum_zipWith_add (fun e => (exprDocument registry .value e).tally w)
      (fun e => (exprDocument registry .value e).tally w) keys values
    rw [exprDocument]
    split
    next hkeys => simp [ownTally, Expr.seen, List.isEmpty_iff.mp hkeys]
    next =>
      rw [exprDocuments_eq_map, exprDocuments_eq_map, List.zipWith_map_right, List.zipWith_self,
        List.zipWith_map_right, List.zipWith_self]
      simpa [ownTally, Expr.seen, Part.value, tallyAll_eq_sum, List.map_zipWith, List.zipWith_map,
        Function.comp_def] using hentries
  case member => simp [tally_member, ownTally, Expr.seen, Expr.parts, Part.value]
  case interpolation =>
    simp [exprDocument, tally_segmentDocuments, ownTally, Expr.seen, Expr.parts, Part.value,
      Function.comp_def, List.map_flatMap]
  case subscript base index info =>
    cases index <;> simp [exprDocument, ownTally, Expr.seen, Expr.parts, Part.value]
  case prefixOp | array =>
    rw [exprDocument]
    split <;> simp_all [exprDocuments_eq_map, ownTally, Expr.seen, Expr.parts, Part.value,
      Function.comp_def]
  all_goals simp [exprDocument, ownTally, Expr.seen, Expr.parts, Part.value, Document.parenthesized]

/-! ## Statements -/

def rawTypeOf (head : TypeHead) : Option String :=
  head.inherits.head?.filter rawTypes.contains

/-- The initializers of members that become parameters of the primary constructor. -/
def storedValues (members : List Stmt) : List Expr :=
  members.flatMap fun
    | .declare item => if isStored (.declare item) then item.initializer.toList else []
    | _ => []

/-- Members of a protocol that are written as they are: all but variables. -/
def requirements (members : List Stmt) : List Fragment :=
  members.flatMap fun
    | .declare _ => []
    | member => [.stmts [member]]

/-- The branches of a statement, and its markers that stand for no part of it. -/
@[simp] def stmtTally (registry : Registry) (w : Weight) : Stmt → Nat
  | .errorStmt .. | .deferBlock .. => w.marker
  | .switchStmt _ cases _ _ => (cases.map fun c => if c.body.isEmpty then 0 else w.branch).sum
  | .enumDecl head kind elements _ _ =>
    if isSealed registry head.name kind elements then 0
    else tallyAll w (enumEntries (rawTypeOf head) (some 0)
      (elements.map fun element => (element, element.rawValue.map fun _ => .text "")))
  | _ => 0

/-- The fragments that a statement writes, each as often as it is written. -/
@[simp] def writtenOf (registry : Registry) : Stmt → List Fragment
  | .structDecl _ members _ =>
    (storedValues members).map (.expr false) ++ [.stmts (members.filter (!isStored ·))]
  | .protocolDecl _ members _ => requirements members
  | .enumDecl head kind elements members _ =>
    (if isSealed registry head.name kind elements || (rawTypeOf head).isNone then []
      else elements.flatMap fun element => element.rawValue.toList.map (.expr false)) ++
      [.stmts members]
  | .switchStmt subject cases target _ =>
    let usesTests := Switch.usesTests subject cases
    (match target with
      | some (.assigned lhs) => [.expr false lhs]
      | _ => []) ++
      (if usesTests then [] else [.expr false subject]) ++
      cases.flatMap fun c =>
        (c.patterns.flatMap fun e =>
          ((branchOf subject usesTests e).exprs subject usesTests).map (.expr false)) ++
          [.stmts c.body]
  | .catchBlock _ body _ => [.stmts body]
  | .deferBlock .. => []
  | s => s.parts.map Prod.snd

def tallyAllOf (registry : Registry) (w : Weight) (fragments : List Fragment) : Nat :=
  (fragments.map (tallyOf registry w)).sum

theorem tallyAllOf_flatMap {α : Type} (f : α → List Fragment) (list : List α) :
    tallyAllOf registry w (list.flatMap f) =
      (list.map fun a => tallyAllOf registry w (f a)).sum := by
  induction list <;> simp_all [tallyAllOf]

theorem tally_body (receiver : Option String) (isValue : Bool) (list : List Stmt) :
    tallyRows w (assemble (pieces registry receiver isValue list)) =
      tallyOf registry w (.stmts list) := by
  rw [tally_assemble, tallyPieces_pieces, tallyOf]

theorem tally_rows (p : Piece) : tallyRows w p.rows = tallyPieces w false [p] := by
  cases p <;> simp [Piece.rows, tally_attemptRow, strayHandler]

theorem tally_variable (receiver : Option String) (item : Variable) :
    (variableDocument registry receiver item).tally w + tallyRows w (accessorRows registry item) =
      tallyAllOf registry w (item.parts.map Prod.snd) := by
  rw [tally_variableDocument]
  obtain ⟨name, ty, initializer, isLet, isStatic, getter, setter, access, own, span⟩ := item
  cases initializer <;> cases getter <;> cases setter <;>
    simp [accessorRows, tallyAllOf, Variable.parts, Part.value, Part.body, tally_body]

theorem tally_parameterDocuments (parameters : List Parameter) :
    tallyAll w (parameterDocuments registry parameters) = tallyAllOf registry w
      (parameters.flatMap fun parameter => parameter.default.toList.map (.expr false)) := by
  induction parameters with
  | nil => rfl
  | cons parameter rest ih =>
    obtain ⟨label, name, ty, _ | value, isVariadic⟩ := parameter <;>
      simp_all [parameterDocuments, tallyAllOf]

theorem tally_conditions (conditions : List Condition) :
    tallyRows w (bindingRows registry conditions) +
        ((conditionItems registry conditions).map fun item => item.written.tally w).sum =
      tallyAllOf registry w ((conditions.flatMap Condition.parts).map Prod.snd) := by
  induction conditions with
  | nil => rfl
  | cons c rest ih =>
    cases c with
    | test e =>
      simp_all [bindingRows, conditionItems, tallyAllOf, Condition.parts, Part.value]
      omega
    | binding item =>
      have hitem : (variableDocument registry none item).tally w + _ = _ := tally_variable none item
      simp_all [bindingRows, conditionItems, tallyAllOf, Condition.parts]
      omega

theorem tally_conditionOperand (item : WrittenCondition) (parent : Precedence) :
    (item.operand parent).tally w = item.written.tally w := by
  rw [WrittenCondition.operand]
  split <;> simp

@[simp] theorem tally_conjunction (items : List WrittenCondition) :
    (conjunction items).tally w = (items.map fun item => item.written.tally w).sum := by
  simp [conjunction, tally_conditionOperand]

theorem tally_ifCondition (registry : Registry) (isGuard : Bool) (conditions : List Condition) :
    (ifCondition isGuard conditions (conditionItems registry conditions)).tally w =
      ((conditionItems registry conditions).map fun item => item.written.tally w).sum := by
  have hbindings : conditions.all Condition.isBinding →
      ((conditionItems registry conditions).map fun item => item.written.tally w).sum = 0 := by
    intro h
    induction conditions with
    | nil => rfl
    | cons c rest ih => cases c <;> simp_all [Condition.isBinding, conditionItems]
  unfold ifCondition
  split
  next => rw [tally_conjunction]
  next =>
    split
    next hall => rw [hbindings hall, Document.tally]
    next => split <;> simp_all [tally_conditionOperand]

theorem bindingRows_of_tests {conditions : List Condition}
    (h : conditions.any Condition.isBinding = false) : bindingRows registry conditions = [] := by
  induction conditions with
  | nil => rfl
  | cons c rest ih => cases c <;> simp_all [Condition.isBinding, bindingRows]

/-- An `if` right after `else` is written like one that stands alone. -/
theorem tally_elseDocuments (list : List Stmt) :
    tallyAll w (elseDocuments registry list) = tallyOf registry w (.stmts list) := by
  rw [elseDocuments.eq_def]
  split
  next => rfl
  next s rest =>
    split
    next hchains =>
      unfold chainsIf at hchains
      split at hchains
      next conditions body otherwise isGuard span heq =>
        cases heq
        rw [Bool.and_eq_true, Bool.not_eq_true', Bool.not_eq_true'] at hchains
        have hcondition : (ifCondition isGuard conditions _).tally w = _ :=
          tally_ifCondition registry isGuard conditions
        cases otherwise <;>
          simp [chainedDocuments, pieces, piece, hcondition, bindingRows_of_tests hchains.2]
      next => cases hchains
    next => simpa [pieces] using tally_body none false (s :: rest)

theorem tally_storedDocuments (members : List Stmt) :
    tallyAll w (storedDocuments registry members) =
      tallyAllOf registry w ((storedValues members).map (.expr false)) := by
  induction members with
  | nil => rfl
  | cons s rest ih =>
    cases s with
    | declare item =>
      rw [storedDocuments]
      split <;> simp_all [tallyAllOf, storedValues, tally_variableDocument, Function.comp_def]
    | _ => exact ih

theorem tally_requirementRows (members : List Stmt) :
    tallyRows w (requirementRows registry members) =
      tallyAllOf registry w (requirements members) := by
  induction members with
  | nil => rfl
  | cons s rest ih =>
    have hblank : tallyRows w (if rest.isEmpty then [] else [Row.blank]) = 0 := by
      split <;> simp [Row.blank]
    cases s with
    | declare item =>
      show tallyRows w ([Row.ofText _] ++ _ ++ requirementRows registry rest) = _
      rw [tallyRows_append, tallyRows_append, hblank, ih]
      simp [requirements]
    | _ =>
      show tallyRows w (Piece.rows _ ++ _ ++ requirementRows registry rest) = _
      rw [tallyRows_append, tallyRows_append, hblank, ih, tally_rows]
      rfl

theorem otherMembers_pieces (members : List Stmt) :
    otherMembers members (pieces registry none false members) =
      pieces registry none false (members.filter (!isStored ·)) := by
  induction members with
  | nil => rfl
  | cons s rest ih =>
    simp only [otherMembers, pieces, Bool.false_and, List.zip_cons_cons, List.filterMap_cons,
      List.filter_cons] at ih ⊢
    cases hstored : isStored s <;> simp [ih, pieces]

theorem tally_entryRows (hasMembers : Bool) (entries : List Document) :
    tallyRows w (entryRows hasMembers entries) = tallyAll w entries := by
  fun_induction entryRows hasMembers entries <;> simp_all

/-- Markers among the entries do not depend on what is written as raw values. -/
theorem tally_enumEntries (registry : Registry) (rawType : Option String) (next : Option Int)
    (elements : List EnumElement) :
    tallyAll w (enumEntries rawType next (elements.map fun element =>
        (element, element.rawValue.map (exprDocument registry .value)))) =
      tallyAll w (enumEntries rawType next (elements.map fun element =>
        (element, element.rawValue.map fun _ => .text ""))) +
        tallyAllOf registry w (if rawType.isNone then []
          else elements.flatMap fun element => element.rawValue.toList.map (.expr false)) := by
  induction elements generalizing next with
  | nil => cases rawType <;> rfl
  | cons element rest ih =>
    obtain ⟨name, payload, rawValue, span⟩ := element
    cases rawType with
    | none => simpa [enumEntries] using ih next
    | some ty =>
      simp only [Option.isNone_some, Bool.false_eq_true, if_false] at ih ⊢
      cases rawValue with
      | none => simp [enumEntries, ih, tallyAllOf, Nat.add_assoc]
      | some value =>
        simp only [List.map_cons, Option.map_some, enumEntries]
        split <;> simp_all [tallyAllOf, Nat.add_left_comm]

theorem tally_enumDecl (head : TypeHead) (kind : Option EnumKind) (elements : List EnumElement)
    (members : List Stmt) (span : Option Span) :
    (piece registry none false (.enumDecl head kind elements members span)).tally w =
      stmtTally registry w (.enumDecl head kind elements members span) +
        tallyAllOf registry w (writtenOf registry (.enumDecl head kind elements members span)) := by
  have hrows : tallyRows w (memberRows (!members.isEmpty)
      (assemble (pieces registry none false members))) = tallyOf registry w (.stmts members) := by
    cases members with
    | nil => rfl
    | cons s rest => simpa [memberRows, Row.blank] using tally_body none false (s :: rest)
  have hsealed : ∀ element, (sealedCase head.name element).content.tally w = 0 := by
    intro element
    rw [sealedCase]
    split <;> simp
  have hentries : tallyAll w (enumEntries (rawTypeOf head) (some 0) _) = _ :=
    tally_enumEntries registry (rawTypeOf head) (some 0) elements
  simp only [piece, Row.ofDocument, enumDocument, zip_rawDocuments, stmtTally, writtenOf]
  split
  next hkind => simp [tallyAllOf, hkind, hrows, hsealed]
  next hkind =>
    unfold rawTypeOf at hentries ⊢
    simp [tally_entryRows, hrows, hentries, hkind, tallyAllOf, Nat.add_assoc]

theorem tally_branch (subject : Expr) (usesTests : Bool) (branch : Branch) :
    (branch.document registry subject usesTests).tally w =
      tallyAllOf registry w ((branch.exprs subject usesTests).map (.expr false)) := by
  cases branch <;> cases usesTests <;>
    simp [Branch.document, Branch.exprs, tallyAllOf, exprDocument, Source.plainBinary]

theorem tally_labelOf (subject : Expr) (usesTests : Bool) (c : SwitchCase) :
    tallyAll w (labelOf registry subject usesTests c) = tallyAllOf registry w
      (c.patterns.flatMap fun e =>
        ((branchOf subject usesTests e).exprs subject usesTests).map (.expr false)) := by
  rw [labelOf]
  split
  next hnone => simp [List.isEmpty_iff.mp hnone, tallyAllOf]
  next => simp [tally_branch, tallyAllOf_flatMap]

theorem tally_branchDocument (body : List Stmt) :
    (branchDocument body (assemble (pieces registry none false body))).tally w =
      (if body.isEmpty then 0 else w.branch) + tallyOf registry w (.stmts body) := by
  rw [branchDocument]
  split
  next hempty => simp [List.isEmpty_iff.mp hempty, pieces]
  next => rw [Document.tally, tally_body]

theorem tally_switchStmt (subject : Expr) (cases : List SwitchCase) (target : Option SwitchTarget)
    (span : Option Span) :
    (piece registry none false (.switchStmt subject cases target span)).tally w =
      stmtTally registry w (.switchStmt subject cases target span) +
        tallyAllOf registry w (writtenOf registry (.switchStmt subject cases target span)) := by
  have hcases (usesTests : Bool) : tallyRows w (caseRows registry subject
      (exprDocument registry .value subject) usesTests cases) =
        (cases.map fun c => if c.body.isEmpty then 0 else w.branch).sum +
          tallyAllOf registry w (cases.flatMap fun c => (c.patterns.flatMap fun e =>
            ((branchOf subject usesTests e).exprs subject usesTests).map (.expr false)) ++
              [.stmts c.body]) := by
    rw [caseRows_eq]
    induction cases with
    | nil => rfl
    | cons c rest ih =>
      simp_all [tally_labelOf, tally_branchDocument, tallyAllOf]
      omega
  rcases target with _ | _ | _ | _ <;>
  · simp only [piece, stmtTally, writtenOf, Row.ofDocument]
    cases Switch.usesTests subject cases <;> simp [hcases, tallyAllOf] <;> omega

theorem tally_piece (s : Stmt) : (piece registry none false s).tally w =
    stmtTally registry w s + tallyAllOf registry w (writtenOf registry s) := by
  have hmembers (members : List Stmt) : (memberBlock (!members.isEmpty)
      (assemble (pieces registry none false members))).tally w = tallyOf registry w
      (.stmts members) := by
    cases members with
    | nil => rfl
    | cons s rest =>
      simp only [memberBlock, List.isEmpty_cons, Bool.not_false, if_true, Document.tally, tallyAll,
        tally_body]
      omega
  cases s
  case enumDecl => exact tally_enumDecl ..
  case switchStmt => exact tally_switchStmt ..
  case declare item => simpa [piece, Stmt.parts] using tally_variable none item
  case ifStmt conditions body otherwise isGuard span =>
    have hconditions : tallyRows w (bindingRows registry conditions) + _ = _ :=
      tally_conditions conditions
    have hcondition : (ifCondition isGuard conditions _).tally w = _ :=
      tally_ifCondition registry isGuard conditions
    cases otherwise <;>
      simp_all [piece, Stmt.parts, Part.body, tallyAllOf, tally_body, tally_elseDocuments] <;> omega
  case function head parameters body span =>
    cases body <;>
      simp [piece, Stmt.parts, Part.value, Part.body, tallyAllOf, tally_parameterDocuments,
        tally_body, List.map_flatMap, Function.comp_def]
  case structDecl head members span =>
    have hothers := hmembers (members.filter (!isStored ·))
    have hstored : tallyAll w (storedDocuments registry members) = _ :=
      tally_storedDocuments members
    have hempty : ∀ list : List Stmt, (pieces registry none false list).isEmpty = list.isEmpty := by
      intro list
      cases list <;> rfl
    simp only [piece, Row.ofDocument, otherMembers_pieces, hempty]
    split
    next hnone =>
      rw [List.isEmpty_iff.mp hnone] at hstored
      simp [hothers, tallyAllOf] at hstored ⊢
      omega
    next => simp_all [tallyAllOf]
  case protocolDecl head members span =>
    cases members with
    | nil => rfl
    | cons s rest => simp [piece, memberBlock, tally_requirementRows]
  case returnStmt value span =>
    cases value <;> simp [piece, Stmt.parts, Part.value, tallyAllOf]
  case forEach item collection body span =>
    cases item <;>
      simp [piece, Stmt.parts, Part.value, Part.body, tallyAllOf, tally_body,
        Document.parenthesized, exprDocument]
  case doBlock body cleanup span =>
    simp only [piece, stmtTally, writtenOf, Stmt.parts, Part.body]
    split
    next hempty => simp [List.isEmpty_iff.mp hempty, tallyAllOf, tally_body, pieces]
    next => simp [tallyAllOf, tally_body]
  case comment => simp [piece, Stmt.parts, tallyAllOf]
  case importDecl =>
    rw [piece]
    split <;> simp [Stmt.parts, tallyAllOf]
  all_goals simp [piece, Stmt.parts, Part.value, Part.body, tallyAllOf, tally_body, hmembers]

end Ferry.Target
