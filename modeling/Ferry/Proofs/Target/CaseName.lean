/-
  Ferry.Proofs.Target.CaseName

  The names of cases in the target language: where an enumeration declares a case (`DeclaresCase`)
  and where an expression refers to one (`RefersTo`).  A declaration takes the name from its own
  kind (`declaresCases_piece`), a reference from the style it was given (`refersTo_member`).  As the
  callee of a call a member is written as anywhere else, but for one named `init`, which is left out
  (`refersTo_callee`).
-/
import Mathlib.Data.List.Forall2
import Ferry.Proofs.Target.Call

namespace Ferry.Target

/-- The row by which an enumeration declares a case under a name: a subclass of its own type, or a
constant, maybe with a raw value, and the mark that follows it. -/
inductive DeclaresCase (parent name : String) : Row → Prop where
  | object : DeclaresCase parent name (.ofText ("object " ++ name ++ (" : " ++ parent ++ "()")))
  | subclass (fields : List Document) :
      DeclaresCase parent name
        (.ofDocument (.list (.text ("class " ++ name)) fields (.text (" : " ++ parent ++ "()"))))
  | constant {mark : String} (hmark : mark ∈ ["", ",", ";"]) :
      DeclaresCase parent name (.ofDocument (.cat [.text name, .text mark]))
  | valued (raw : Document) {mark : String} (hmark : mark ∈ ["", ",", ";"]) :
      DeclaresCase parent name
        (.ofDocument (.cat [.cat [.text (name ++ "("), raw, .text ")"], .text mark]))

/-- The text of an enumeration that declares cases under names, in this order and before all
else. -/
def DeclaresCases (parent : String) (names : List String) (written : Piece) : Prop :=
  ∃ opening rows rest,
    written = .plain .other [.ofDocument (.cat [.text opening, .block "\x7b" (rows ++ rest)])] ∧
      List.Forall₂ (DeclaresCase parent) names rows

/-- The wording of a reference to a member by a name. -/
inductive RefersTo (name : String) : Document → Prop where
  | bare : RefersTo name (.text name)
  | member (base : Document) : RefersTo name (.cat [base, .text ("." ++ name)])
  | chained (base : Document) : RefersTo name (.cat [base, .text ("?." ++ name)])

/-! ## Declarations -/

theorem declaresCase_sealedCase (parent : String) (element : EnumElement) :
    DeclaresCase parent (capitalized element.name) (sealedCase parent element) := by
  unfold sealedCase
  dsimp only
  split
  next => exact .object
  next => exact .subclass _

/-- An entry of an enumeration class. -/
def IsEntry (name : String) (entry : Document) : Prop :=
  entry = .text name ∨ ∃ raw, entry = .cat [.text (name ++ "("), raw, .text ")"]

theorem isEntry_enumEntries (rawType : Option String) (next : Option Int)
    (elements : List (EnumElement × Option Document)) :
    List.Forall₂ (fun element entry => IsEntry (upperSnake element.name) entry)
      (elements.map Prod.fst) (enumEntries rawType next elements) := by
  fun_induction enumEntries rawType next elements with
  | case1 => exact .nil
  | case2 next element written rest name htype ih =>
    subst htype
    exact .cons (.inl rfl) ih
  | case3 next element written rest name ty htype raw next' hraw ih =>
    subst htype
    exact .cons (.inr ⟨raw, rfl⟩) ih

theorem declaresCase_of_isEntry {parent name mark : String} {entry : Document}
    (h : IsEntry name entry) (hmark : mark ∈ ["", ",", ";"]) :
    DeclaresCase parent name (.ofDocument (.cat [entry, .text mark])) := by
  obtain rfl | ⟨raw, rfl⟩ := h
  · exact .constant hmark
  · exact .valued raw hmark

theorem forall₂_entryRows {α : Type} {name : α → String} (parent : String) (hasMembers : Bool)
    {elements : List α} {entries : List Document}
    (h : List.Forall₂ (fun element entry => IsEntry (name element) entry) elements entries) :
    List.Forall₂ (fun element row => DeclaresCase parent (name element) row) elements
      (entryRows hasMembers entries) := by
  induction h with
  | nil => exact .nil
  | @cons element entry elements entries hentry hrest ih =>
    cases entries with
    | nil =>
      obtain rfl := List.forall₂_nil_right_iff.mp hrest
      refine .cons (declaresCase_of_isEntry hentry ?_) .nil
      cases hasMembers <;> decide
    | cons next rest => exact .cons (declaresCase_of_isEntry hentry (by decide)) ih

theorem length_rawDocuments (registry : Registry) (elements : List EnumElement) :
    (rawDocuments registry elements).length = elements.length := by
  induction elements with
  | nil => rfl
  | cons element rest ih =>
    obtain ⟨name, payload, rawValue, span⟩ := element
    cases rawValue <;> exact congrArg (· + 1) ih

theorem declaresCases_piece (registry : Registry) (receiver : Option String) (isValue : Bool)
    (head : TypeHead) (kind : EnumKind) (elements : List EnumElement) (members : List Stmt)
    (span : Option Span) :
    DeclaresCases head.name (elements.map fun element => caseName element.name kind)
      (piece registry receiver isValue (.enumDecl head (some kind) elements members span)) := by
  have hpiece : piece registry receiver isValue (.enumDecl head (some kind) elements members span) =
      .plain .other [.ofDocument (enumDocument registry head (some kind) elements
        (rawDocuments registry elements) (!members.isEmpty)
        (assemble (pieces registry none false members)))] := rfl
  rw [hpiece]
  cases kind with
  | hasPayload =>
    have hsealed : isSealed registry head.name (some .hasPayload) elements = true := rfl
    rw [enumDocument, if_pos hsealed]
    refine ⟨_, elements.map (sealedCase head.name), _, rfl, ?_⟩
    rw [List.forall₂_map_left_iff, List.forall₂_map_right_iff]
    exact List.forall₂_same.mpr fun element _ => declaresCase_sealedCase head.name element
  | payloadFree =>
    have hsealed : ¬isSealed registry head.name (some .payloadFree) elements = true :=
      Bool.false_ne_true
    rw [enumDocument, if_neg hsealed]
    refine ⟨_, _, _, rfl, List.forall₂_map_left_iff.mpr (forall₂_entryRows head.name _ ?_)⟩
    -- There is one raw value for each element, so no element is cut off.
    have helements : (elements.zip (rawDocuments registry elements)).map Prod.fst = elements :=
      List.map_fst_zip (Nat.le_of_eq (length_rawDocuments registry elements).symm)
    have hentries := isEntry_enumEntries (head.inherits.head?.filter rawTypes.contains) (some 0)
      (elements.zip (rawDocuments registry elements))
    rw [helements] at hentries
    exact hentries

/-! ## References -/

section

variable (registry : Registry) (base : Expr) (n : String) (isLibrary : Bool)
  (style : Option EnumKind) (info : Info)

theorem refersTo_member (role : Role) :
    RefersTo (memberName n style)
    (exprDocument registry role (.member base n isLibrary style info)) := by
  cases base with
  | optional inner info => exact .chained _
  | name n' isLibrary' isImplicit info' =>
    -- Only a name may be the object that is left out.
    show RefersTo _ (if isImplicitSelf (.name n' isLibrary' isImplicit info') = true then _ else _)
    split
    next => exact .bare
    next => exact .member _
  | _ => exact .member _

theorem refersTo_callee (h : n ≠ "init") :
    RefersTo (memberName n style)
      (calleeDocument registry (.member base n isLibrary style info)) := by
  have hinitializer : ¬isInitializer n = true := fun h' => h (beq_iff_eq.mp h')
  rw [calleeDocument, if_neg hinitializer]
  exact refersTo_member registry base n isLibrary style info .value

end

end Ferry.Target
