/-
  Ferry.Proofs.Target.Marker

  Markers and error nodes.  The documents of a tree have a marker for each error node as long as
  every statement writes each of its error nodes once (`Faithful`).  Some do not: the initializer of
  a requirement is left out, and the subject of a `when` without one is copied into its tests.

  Rendering adds no markers: apart from words that look like one, the text has those of the
  documents (`marks_render`).  With what is known about reading a tree and about the passes this
  says how many markers a tree ends up with.
-/
import Ferry.Proofs.Pass.Placeholder
import Ferry.Proofs.Source.ForetoldDeclaration
import Ferry.Proofs.Target.Layout
import Ferry.Target.Output

namespace Ferry.Target

variable {registry : Registry}

/-- Markers alone. -/
abbrev markers : Weight := ⟨1, 0⟩

/-! ## Texts -/

/-- That a text has `n` openings of markers, whatever follows it. -/
def Marks (text : String) (n : Nat) : Prop :=
  ∀ rest, Text.countFrom "<<Error:".toList 0 (text.toList ++ rest) =
    n + Text.countFrom "<<Error:".toList 0 rest

/-- Whether a marker may start in a text. -/
def hasOpening : List Char → Bool
  | '<' :: '<' :: _ | ['<'] => true
  | _ :: rest => hasOpening rest
  | [] => false

namespace Marks

variable {a b s : String} {n m : Nat}

theorem append (ha : Marks a n) (hb : Marks b m) : Marks (a ++ b) (n + m) := by
  intro rest
  rw [String.toList_append, List.append_assoc, ha, hb, Nat.add_assoc]

theorem after (ha : Marks a 0) (hb : Marks b n) : Marks (a ++ b) n :=
  Nat.zero_add n ▸ ha.append hb

theorem of_words (h : hasOpening s.toList = false) : Marks s 0 := by
  intro rest
  rw [Nat.zero_add]
  generalize s.toList = cs at h
  fun_induction hasOpening cs with
  | case1 | case2 => cases h
  | case3 c cs hdouble hlast ih =>
    rw [List.cons_append, Text.countFrom, if_neg, ih h]
    cases cs <;> simp_all [@eq_comm _ '<']
  | case4 => rfl

theorem join {texts : List String} {counts : List Nat} (h : List.Forall₂ Marks texts counts) :
    Marks (String.join texts) counts.sum := by
  induction h with
  | nil => exact of_words rfl
  | cons hfirst _ ih =>
    rw [String.join_cons]
    exact hfirst.append ih

theorem intercalate (hs : Marks s 0) {texts : List String} {counts : List Nat}
    (h : List.Forall₂ Marks texts counts) : Marks (s.intercalate texts) counts.sum := by
  induction h with
  | nil => exact of_words rfl
  | cons hfirst hrest ih =>
    cases hrest with
    | nil => simpa using hfirst
    | cons => exact String.intercalate_cons_cons ▸ (hfirst.append hs).append ih

end Marks

mutual

/-- That the words of a document bring no marker of their own.  A branch without braces loses the
blanks around it, so it counts what its words end with then. -/
def Document.Plain (layout : Layout) : Document → Prop
  | .text words | .marker words => Marks words 0
  | .cat parts => PlainAll layout parts
  | .list head items tail => head.Plain layout ∧ PlainAll layout items ∧ tail.Plain layout
  | .block opening rows => Marks opening 0 ∧ PlainRows layout rows
  | .lambda opening value => Marks opening 0 ∧ value.Plain layout
  | .branch _ rows =>
      PlainRows layout rows ∧ ∀ level n, Marks (Document.renderRows layout rows level) n →
      Marks (Text.trimmed (Document.renderRows layout rows level)) n

def PlainAll (layout : Layout) : List Document → Prop
  | [] => True
  | d :: rest => d.Plain layout ∧ PlainAll layout rest

def PlainRows (layout : Layout) : List Row → Prop
  | [] => True
  | ⟨_, content⟩ :: rest => content.Plain layout ∧ PlainRows layout rest

end

section

variable {layout : Layout}

theorem marks_indent (hl : Marks layout.indentation 0) (level : Nat) :
    Marks (layout.indent level) 0 := by
  rw [Layout.indent]
  induction level with
  | zero => exact .of_words rfl
  | succ level ih => rw [List.replicate_succ, String.join_cons]; exact hl.after ih

theorem marks_line (hl : Marks layout.indentation 0) {text : String} {n : Nat} (h : Marks text n)
    (level : Nat) : Marks (layout.line level text) n := by
  rw [Layout.line]
  split
  next hempty =>
    rw [String.isEmpty_iff.mp hempty] at h
    obtain rfl : 0 = n := h []
    exact .of_words rfl
  next => exact ((marks_indent hl level).after h).append (.of_words rfl)

mutual

theorem marks_render (hl : Marks layout.indentation 0) :
    ∀ (d : Document) (level : Nat), d.Plain layout → Marks (d.render layout level) (d.tally markers)
  | .text _, _, h => h
  | .marker message, _, h =>
    have hopening : Marks "<<Error: " 1 := fun rest => rfl
    (hopening.append h).append (.of_words rfl)
  | .cat parts, level, h => by
    rw [Document.render, Document.tally, tallyAll_eq_sum]
    exact .join (marks_renderAll hl parts level h)
  | .list head items tail, level, ⟨hhead, hitems, htail⟩ => by
    have hbefore := marks_render hl head level hhead
    have hafter := marks_render hl tail level htail
    rw [Document.render, Document.tally, tallyAll_eq_sum]
    split
    next =>
      have hflat := Marks.intercalate (s := ", ") (.of_words rfl)
        (marks_renderAll hl items level hitems)
      exact (((hbefore.append (.of_words rfl)).append hflat).append (.of_words rfl)).append hafter
    next =>
      have hlines := (marks_renderAll hl items (level + 1) hitems).imp fun _ _ h =>
        (marks_indent hl (level + 1)).after h
      have hbroken := Marks.intercalate (s := ",\n") (.of_words rfl)
        (List.forall₂_map_left_iff.mpr hlines)
      exact (((((hbefore.append (.of_words rfl)).append hbroken).append (.of_words rfl)).append
        (marks_indent hl level)).append (.of_words rfl)).append hafter
  | .block opening rows, level, ⟨hopening, hrows⟩ =>
    ((Marks.after (hopening.append (.of_words rfl))
      (marks_renderRows hl rows (level + 1) hrows)).append
      (marks_indent hl level)).append (.of_words rfl)
  | .lambda opening value, level, ⟨hopening, hvalue⟩ => by
    rw [Document.render]
    split
    next =>
      exact (Marks.after (hopening.append (.of_words rfl))
        (marks_render hl value level hvalue)).append (.of_words rfl)
    next =>
      have hline := marks_line hl (marks_render hl value (level + 1) hvalue) (level + 1)
      exact ((Marks.after (hopening.append (.of_words rfl)) hline).append
        (marks_indent hl level)).append (.of_words rfl)
  | .branch isShort rows, level, ⟨hrows, htrimmed⟩ => by
    have hbraces := ((Marks.after (.of_words rfl : Marks "\x7b\n" 0)
      (marks_renderRows hl rows (level + 1) hrows)).append (marks_indent hl level)).append
        (.of_words rfl : Marks "\x7d" 0)
    rw [Document.render, Document.tally, Nat.zero_add]
    cases isShort with
    | false => exact hbraces
    | true =>
      rw [if_pos rfl]
      split
      next => exact htrimmed level _ (marks_renderRows hl rows level hrows)
      next => exact hbraces

theorem marks_renderAll (hl : Marks layout.indentation 0) : ∀ (ds : List Document) (level : Nat),
    PlainAll layout ds →
      List.Forall₂ Marks (Document.renderAll layout ds level) (ds.map (Document.tally markers))
  | [], _, _ => .nil
  | d :: rest, level, ⟨hd, hrest⟩ =>
    .cons (marks_render hl d level hd) (marks_renderAll hl rest level hrest)

theorem marks_renderRows (hl : Marks layout.indentation 0) : ∀ (rows : List Row) (level : Nat),
    PlainRows layout rows → Marks (Document.renderRows layout rows level) (tallyRows markers rows)
  | [], _, _ => .of_words rfl
  | ⟨_, content⟩ :: rest, level, ⟨hcontent, hrest⟩ =>
    (marks_line hl (marks_render hl content _ hcontent) _).append
      (marks_renderRows hl rest level hrest)

end

end

theorem markerCount_ofFile {layout : Layout} {file : SourceFile}
    (hl : Marks layout.indentation 0) (h : PlainRows layout (fileRows registry file)) :
    (Output.ofFile registry layout file).markerCount = tallyRows markers
    (fileRows registry file) := by
  have hmarks := marks_renderRows hl _ 0 h []
  rwa [List.append_nil] at hmarks

/-! ## Documents -/

/-- Whether every handler follows a guarded block. -/
def areGuarded : (isGuarded : Bool) → List Piece → Bool
  | _, [] => true
  | isGuarded, .handler .. :: rest => isGuarded && areGuarded isGuarded rest
  | _, .attempt .. :: rest => areGuarded true rest
  | _, .plain .. :: rest => areGuarded false rest

/-- That all that is written of a tree has its error nodes once. -/
inductive Faithful (registry : Registry) : Fragment → Prop where
  | expr {called e} (parts : ∀ part ∈ e.seen, Faithful registry part.2) :
    Faithful registry (.expr called e)
  | stmts {list} (guarded : areGuarded false (pieces registry none false list) = true)
    (own : ∀ s ∈ list, stmtTally registry markers s +
      ((writtenOf registry s).map fun f => f.errors 0).sum = s.errors 0)
    (parts : ∀ s ∈ list, ∀ f ∈ writtenOf registry s, Faithful registry f) :
    Faithful registry (.stmts list)

theorem tallyPieces_of_guarded {isGuarded : Bool} {list : List Piece}
    (h : areGuarded isGuarded list = true) :
    tallyPieces markers isGuarded list = (list.map (Piece.tally markers)).sum := by
  fun_induction areGuarded isGuarded list with
  | case2 isGuarded error body rest ih =>
    obtain ⟨rfl, hrest⟩ := Bool.and_eq_true_iff.mp h
    simp [tallyPieces, ih hrest]
  | _ => simp_all [tallyPieces]

theorem pieces_eq_map (list : List Stmt) :
    pieces registry none false list = list.map (piece registry none false) := by
  induction list <;> simp_all [pieces]

theorem Faithful.tally_eq {fragment : Fragment} (h : Faithful registry fragment) :
    tallyOf registry markers fragment = fragment.errors 0 := by
  induction h with
  | @expr called e parts ih =>
    have hown : ownTally markers e = e.ownErrors 0 := by cases e <;> rfl
    rw [tallyOf, tally_expr, errors_expr, Expr.errors_eq, hown, partErrors, List.map_congr_left ih]
  | @stmts list guarded own parts ih =>
    have hstmts : ∀ s ∈ list, (piece registry none false s).tally markers = s.errors 0 := by
      intro s hs
      rw [tally_piece, ← own s hs, tallyAllOf, List.map_congr_left (ih s hs)]
    rw [tallyOf, tallyPieces_of_guarded guarded, pieces_eq_map, List.map_map, errors_stmts,
      stmtErrors_eq_sum]
    exact congrArg List.sum (List.map_congr_left hstmts)

/-! ## From trees to markers -/

/-- How many markers the text has that a tree is translated to.  Each error node is written once,
but for those that reading, the passes or writing copy or leave out. -/
theorem markerCount_translated (path : String) (root : Source.Node) (tables : Source.SideTables)
    (origins : Option Source.OriginCache) (registry : Registry) (layout : Layout) :
    let file := (Source.adapt path root tables origins).file
    let done := Pipeline.finished registry file
    let output := Output.ofFile registry layout done
    file.placeholders.length = root.errors tables ∧
    done.placeholders.length + Pipeline.dropped registry file =
      root.errors tables + Pipeline.copied registry file ∧
    (Marks layout.indentation 0 → PlainRows layout (fileRows registry done) →
      output.markerCount = tallyOf registry markers (.stmts done.declarations) +
        tallyOf registry markers (.stmts done.statements) ∧
      (Faithful registry (.stmts done.declarations) → Faithful registry (.stmts done.statements) →
        output.markerCount + Pipeline.dropped registry file =
          root.errors tables + Pipeline.copied registry file)) := by
  have hread := Source.length_placeholders_adapt path root tables origins
  generalize (Source.adapt path root tables origins).file = file at hread ⊢
  have hdone := Pipeline.placeholders_finished registry file
  rw [hread] at hdone
  refine ⟨hread, hdone, fun hl hplain => ?_⟩
  have hcount := markerCount_ofFile hl hplain
  rw [tally_fileRows] at hcount
  refine ⟨hcount, fun hdeclarations hstatements => ?_⟩
  rw [hcount, hdeclarations.tally_eq, hstatements.tally_eq, ← hdone, length_placeholders]
  rfl

/-- Reads `if case (x, y) = ` and something unknown, which each name gets a copy of. -/
def pairNode : Source.Node :=
  .node { kind := .sourceFile } [.node { kind := .ifStmt }
    [.node { kind := .caseCondition, role := some "condition" }
      [.node { kind := .tuplePattern, role := some "pattern" }
        [.node { kind := .identifierPattern, text := some "x" } [],
          .node { kind := .identifierPattern, text := some "y" } []],
        .node { kind := .unknown, role := some "initializer" } []],
      .node { kind := .codeBlock, role := some "then" } []]]

def unknownNode : Source.Node :=
  .node { kind := .sourceFile } [.node { kind := .unknown } []]

theorem markerCount_unknown :
    let output := fun root =>
      Output.ofFile {} {} (Pipeline.finished {} (Source.adapt "" root {} none).file)
    (Source.adapt "" pairNode {} none).file.placeholders.length = 2 ∧
      (output pairNode).markerCount = 2 ∧ (output unknownNode).markerCount = 1 := by
  refine ⟨(markerCount_translated "" pairNode {} none {} {}).1.trans (by decide +kernel),
    by decide +kernel, ?_⟩
  obtain ⟨-, -, h⟩ := markerCount_translated "" unknownNode {} none {} {}
  have hplain := h (.of_words rfl)
    ⟨⟨.of_words rfl, ⟨.of_words rfl, .of_words rfl, trivial⟩, trivial⟩, trivial⟩
  have hcount := hplain.2 (.stmts rfl (List.forall_mem_nil _) (List.forall_mem_nil _))
    (.stmts rfl (List.forall_mem_singleton.mpr rfl)
      (List.forall_mem_singleton.mpr (List.forall_mem_nil _)))
  exact hcount.trans (by decide +kernel)

end Ferry.Target
