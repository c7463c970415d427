/-
  Ferry.Proofs.Target.Layout

  What the layout of the text leaves alone.  A document is rendered to the same code at every line
  limit and under every blank indentation (`Document.ink_render`), unless it holds a branch of a
  `when`, which gets braces only where it does not fit.  Branches are made of `switch` statements
  alone, so that without one the layout decides only where blanks stand (`ink_emit_congr`).
-/
import Ferry.Proofs.Pass.SwitchOutline
import Ferry.Proofs.Target.Tally

namespace Ferry.Target

/-! ## What is written apart from blanks -/

/-- The characters of a text that are not blank. -/
def ink (text : String) : List Char :=
  text.toList.filter (!Text.isBlank ·)

/-- That lines are indented by blanks. -/
def Layout.IsBlank (layout : Layout) : Prop :=
  ink layout.indentation = []

@[simp] theorem ink_append (a b : String) : ink (a ++ b) = ink a ++ ink b := by
  simp [ink]

theorem ink_join (texts : List String) : ink (String.join texts) = (texts.map ink).flatten := by
  induction texts with
  | nil => rfl
  | cons text texts ih => simp [ih]

theorem ink_intercalate (separator : String) (texts : List String) :
    ink (separator.intercalate texts) = (ink separator).intercalate (texts.map ink) := by
  induction texts with
  | nil => rfl
  | cons text texts ih =>
    cases texts with
    | nil => simp
    | cons next rest => simp_all [List.intercalate_cons_cons, String.intercalate_cons_cons]

@[simp] theorem ink_marks : ink "" = [] ∧ ink "\n" = [] ∧ ink " " = [] ∧ ink "(" = ['('] ∧
    ink "(\n" = ['('] ∧ ink ", " = [','] ∧ ink ",\n" = [','] ∧ ink ")" = [')'] ∧
    ink "\x7d" = ['\x7d'] ∧ ink " \x7d" = ['\x7d'] := by
  decide

section

variable {layout : Layout} (h : layout.IsBlank)

include h

theorem ink_indent (level : Nat) : ink (layout.indent level) = [] := by
  rw [Layout.indent, ink_join, List.map_replicate, show ink layout.indentation = [] from h]
  simp

theorem ink_line (level : Nat) (text : String) : ink (layout.line level text) = ink text := by
  rw [Layout.line]
  split
  next hempty => simp [String.isEmpty_iff.mp hempty]
  next => simp [ink_indent h]

end

namespace Document

mutual

/-- What a document says, blanks aside. -/
def code : Document → List Char
  | .text words => ink words
  | .marker message => ink ("<<Error: " ++ message ++ ">>")
  | .cat parts => (codes parts).flatten
  | .list head items tail =>
    code head ++ '(' :: [','].intercalate (codes items) ++ ')' :: code tail
  | .block opening rows => ink opening ++ codeOfRows rows ++ ['\x7d']
  | .lambda opening value => ink opening ++ code value ++ ['\x7d']
  | .branch _ rows => codeOfRows rows

def codes : List Document → List (List Char)
  | [] => []
  | d :: rest => code d :: codes rest

def codeOfRows : List Row → List Char
  | [] => []
  | ⟨_, content⟩ :: rest => code content ++ codeOfRows rest

end

variable {layout : Layout}

/-- Branches alone: whether one has braces changes the code, not only where lines are broken. -/
abbrev branches : Weight := ⟨0, 1⟩

mutual

theorem ink_render (hl : layout.IsBlank) : ∀ (d : Document) (level : Nat), d.tally branches = 0 →
    ink (d.render layout level) = d.code
  | .text _, _, _ | .marker _, _, _ => rfl
  | .cat parts, level, h => by rw [render, ink_join, ink_renderAll hl parts level h, code]
  | .list head items tail, level, h => by
    rw [tally, Nat.add_eq_zero_iff, Nat.add_eq_zero_iff] at h
    obtain ⟨⟨hhead, hitems⟩, htail⟩ := h
    rw [render]
    -- On one line or one item a line: the same head, items and tail.
    split <;>
      simp [code, ink_intercalate, ink_indent hl, Function.comp_def, ink_render hl head _ hhead,
        ink_renderAll hl items _ hitems, ink_render hl tail _ htail]
  | .block opening rows, level, h => by
    simp [render, code, ink_indent hl, ink_renderRows hl rows _ h]
  | .lambda opening value, level, h => by
    rw [render]
    split <;> simp [code, ink_line hl, ink_indent hl, ink_render hl value _ h]
  | .branch _ _, _, h => by simp at h

theorem ink_renderAll (hl : layout.IsBlank) : ∀ (ds : List Document) (level : Nat),
    tallyAll branches ds = 0 → (renderAll layout ds level).map ink = codes ds
  | [], _, _ => rfl
  | d :: rest, level, h => by
    rw [tallyAll, Nat.add_eq_zero_iff] at h
    simp [renderAll, codes, ink_render hl d level h.1, ink_renderAll hl rest level h.2]

theorem ink_renderRows (hl : layout.IsBlank) : ∀ (rows : List Row) (level : Nat),
    tallyRows branches rows = 0 → ink (renderRows layout rows level) = codeOfRows rows
  | [], _, _ => rfl
  | ⟨_, content⟩ :: rest, level, h => by
    rw [tallyRows, Nat.add_eq_zero_iff] at h
    simp [renderRows, codeOfRows, ink_line hl, ink_render hl content _ h.1,
      ink_renderRows hl rest level h.2]

end

end Document

/-! ## Trees without branches -/

open Document (branches)

variable {registry : Registry}

/-- That no branch is written of a tree, wherever it stands. -/
def IsFixed (registry : Registry) : Fragment → Prop
  | .expr _ e => (exprDocument registry .value e).tally branches = 0
  | .stmts list => ∀ s ∈ list, (piece registry none false s).tally branches = 0

theorem IsFixed.tallyOf_eq {fragment : Fragment} (h : IsFixed registry fragment) :
    tallyOf registry branches fragment = 0 := by
  cases fragment with
  | expr called e => exact h
  | stmts list =>
    have hpieces (isGuarded : Bool) :
        tallyPieces branches isGuarded (pieces registry none false list) = 0 := by
      induction list generalizing isGuarded with
      | nil => rfl
      | cons s rest ih =>
        obtain ⟨hs, hrest⟩ := List.forall_mem_cons.mp h
        have hlater := ih hrest
        rw [pieces, Bool.false_and]
        generalize piece registry none false s = p at hs
        cases p <;> cases isGuarded <;> simp_all [tallyPieces]
    exact hpieces false

theorem tallyAllOf_eq_zero {fragments : List Fragment} (h : ∀ f ∈ fragments, IsFixed registry f) :
    tallyAllOf registry branches fragments = 0 := by
  refine List.sum_eq_zero (List.forall_mem_map.mpr fun f hf => (h f hf).tallyOf_eq)

theorem tally_enumEntries_branches {rawType : Option String} {next : Option Int}
    {entries : List (EnumElement × Option Document)}
    (h : ∀ entry ∈ entries, tallyAll branches entry.2.toList = 0) :
    tallyAll branches (enumEntries rawType next entries) = 0 := by
  induction entries generalizing next with
  | nil => rfl
  | cons entry rest ih =>
    obtain ⟨hentry, hrest⟩ := List.forall_mem_cons.mp h
    obtain ⟨element, written⟩ := entry
    cases rawType with
    | none => simpa [enumEntries] using ih hrest
    | some ty =>
      simp only [enumEntries, tallyAll, ih hrest]
      -- A raw value that is written, the name as a text, or the counter.
      cases written with
      | some written => split <;> simp_all
      | none =>
        dsimp only
        split
        next => rfl
        next => cases next <;> rfl

/-- Without branches of its own a statement writes only what stands in its parts. -/
theorem isFixed_writtenOf {s : Stmt} (hs : s.switch? = none)
    (h : ∀ part ∈ s.parts, IsFixed registry part.2) :
    ∀ f ∈ writtenOf registry s, IsFixed registry f := by
  cases s with
  | switchStmt => cases hs
  | structDecl head members span =>
    have hmembers : IsFixed registry (.stmts members) := h _ (List.mem_singleton_self _)
    refine List.forall_mem_append.mpr ⟨List.forall_mem_map.mpr fun e he => ?_,
      List.forall_mem_singleton.mpr fun s hs => hmembers s (List.mem_filter.mp hs).1⟩
    obtain ⟨member, hmember, he⟩ := List.mem_flatMap.mp he
    have hfixed := hmembers member hmember
    cases member <;> simp_all [piece, tally_variableDocument, Row.ofDocument, IsFixed]
  | protocolDecl head members span =>
    intro f hf
    obtain ⟨member, hmember, hf⟩ := List.mem_flatMap.mp hf
    have hfixed : IsFixed registry (.stmts [member]) := fun s hs =>
      List.mem_singleton.mp hs ▸ h _ (List.mem_singleton_self _) member hmember
    cases member <;> simp_all
  | enumDecl head kind elements members span =>
    obtain ⟨hvalues, hmembers⟩ := List.forall_mem_append.mp h
    refine List.forall_mem_append.mpr ⟨?_, List.forall_mem_singleton.mpr (hmembers _ (.head _))⟩
    split
    next => exact List.forall_mem_nil _
    next => simpa only [List.forall_mem_flatMap, List.forall_mem_map] using hvalues
  | catchBlock item body span =>
    exact List.forall_mem_singleton.mpr (h _ (List.mem_append_right _ (List.mem_singleton_self _)))
  | deferBlock body span => exact List.forall_mem_nil _
  | _ => exact List.forall_mem_map.mpr h

theorem isFixed_of_met {place : Place} {fragment : Fragment}
    (h : (Demand.ofSwitches fun _ => False).Met place fragment) : IsFixed registry fragment := by
  induction h with
  | @expr place called e _ _ ih =>
    have hparts : ∀ f ∈ e.seen.map Prod.snd, IsFixed registry f :=
      List.forall_mem_map.mpr fun part hpart => ih part (e.seen_subset hpart)
    have hsum := tallyAllOf_eq_zero hparts
    rw [tallyAllOf, List.map_map] at hsum
    have hown : ownTally branches e = 0 := by cases e <;> rfl
    rw [IsFixed, tally_expr, hown, Nat.zero_add]
    exact hsum
  | stmts own _ _ ih =>
    intro s hs
    have hswitch := Option.eq_none_iff_forall_not_mem.mpr (own s hs)
    have hown : stmtTally registry branches s = 0 := by
      cases s with
      | switchStmt => cases hswitch
      | enumDecl head kind elements members span =>
        rw [stmtTally]
        split
        · rfl
        · refine tally_enumEntries_branches (List.forall_mem_map.mpr fun element _ => ?_)
          cases element.rawValue <;> rfl
      | _ => rfl
    rw [tally_piece, hown, tallyAllOf_eq_zero (isFixed_writtenOf hswitch (ih s hs))]

theorem tally_fileRows {w : Weight} (file : SourceFile) :
    tallyRows w (fileRows registry file) =
      tallyOf registry w (.stmts file.declarations) + tallyOf registry w
      (.stmts file.statements) := by
  rw [fileRows]
  split
  next hnone => rw [tally_body, List.isEmpty_iff.mp hnone]; rfl
  next =>
    have hblank (rows : List Row) : tallyRows w (if rows.isEmpty then [] else [Row.blank]) = 0 := by
      split <;> simp [Row.blank]
    rw [tallyRows_append, tallyRows_append, hblank]
    simp [Row.ofDocument, tally_body]

/-- Without a `switch` the layout decides only where blanks stand. -/
theorem ink_emit_congr {registry : Registry} {file : SourceFile} {layout layout' : Layout}
    (h : switches.ofFile file = []) (hl : layout.IsBlank) (hl' : layout'.IsBlank) :
    ink (emit registry layout file) = ink (emit registry layout' file) := by
  have hmet : (Demand.ofSwitches fun _ => False).MetFile file :=
    metFile_ofSwitches_iff.mpr (by simp [h])
  have hdeclarations : IsFixed registry (.stmts file.declarations) := fun s hs =>
    isFixed_of_met (hmet.1 s hs) s (List.mem_singleton_self s)
  have hfixed : tallyRows branches (fileRows registry file) = 0 := by
    rw [tally_fileRows, hdeclarations.tallyOf_eq, (isFixed_of_met hmet.2).tallyOf_eq]
  rw [emit, emit, Document.ink_renderRows hl _ 0 hfixed, Document.ink_renderRows hl' _ 0 hfixed]

def longCallFile : SourceFile where
  path := "long"
  statements :=
    [.expression (.call (.name "f" false false {}) (.tuple [⟨none, .name "a" false false {}⟩,
      ⟨none, .closure [] [.expression (.name "b" false false {}) none] {}⟩] {})
      false false {}) none]

/-- The call is broken over lines, and its closure with it. -/
theorem ink_emit_longCallFile :
    let narrow : Layout := ⟨1, "\t"⟩
    switches.ofFile longCallFile = [] ∧ Layout.IsBlank {} ∧ narrow.IsBlank ∧
      emit {} {} longCallFile ≠ emit {} narrow longCallFile ∧
      ink (emit {} {} longCallFile) = ink (emit {} narrow longCallFile) := by
  have hblank : ink "    " = [] ∧ ink "\t" = [] := by decide
  exact ⟨rfl, hblank.1, hblank.2, by decide +kernel, ink_emit_congr rfl hblank.1 hblank.2⟩

end Ferry.Target
