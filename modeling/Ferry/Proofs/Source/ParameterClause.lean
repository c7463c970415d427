/-
  Ferry.Proofs.Source.ParameterClause

  Parameters in the text of a declaration and as nodes of their own.  The text is cut by counting
  brackets, once to find the clause, once to find its end and once to find the commas.  Texts that
  nest their brackets properly (`nests`) are passed over by each of them, so the clause is cut into
  the parameters it was put together from, up to blanks that reading does not see
  (`parameterClause?_intercalate`).  A function is read from its nodes parameter by parameter in the
  same way, and has the same key (`functionFacts_of_clause`).
-/
import Ferry.Pass.Collect
import Ferry.Proofs.Source.Outcome
import Ferry.Proofs.Source.Site
import Ferry.Proofs.Text.Nesting
import Mathlib.Data.List.Induction

namespace Ferry

namespace Text

/-! ## Brackets -/

/-- Whether a text closes the brackets of `stack`, given by what closes them, and all that it opens
itself, each by its own kind, with no comma outside of them.  The `>` of an arrow closes nothing. -/
def nests : (stack : List Char) → (previous : Char) → List Char → Bool
  | stack, _, [] => stack.isEmpty
  | stack, previous, c :: cs =>
    match brackets.lookup c with
    | some closing => nests (closing :: stack) c cs
    | none =>
      if c = ')' ∨ c = ']' ∨ c = '>' ∧ previous ≠ '-' then stack.head? == some c &&
        nests stack.tail c cs
      else (c != ',' || !stack.isEmpty) && nests stack c cs

theorem eq_of_lookup_brackets {c closing : Char} (h : brackets.lookup c = some closing) :
    c = '(' ∧ closing = ')' ∨ c = '[' ∧ closing = ']' ∨ c = '<' ∧ closing = '>' := by
  grind [brackets]

/-- What one character does to the brackets that are open. -/
theorem nests_cons {stack : List Char} {previous c : Char} {cs : List Char}
    (h : nests stack previous (c :: cs) = true) :
    ∃ stack', nests stack' c cs = true ∧
      (stack'.length : Int) = stack.length + nestingStep previous c ∧
      (c = ',' → stack ≠ []) ∧
      (stack'.count ')' : Int) =
        stack.count ')' + if c = '(' then 1 else if c = ')' then -1 else 0 := by
  rw [nests] at h
  split at h
  next closing hlookup =>
    -- An opening bracket puts its closing one on the stack.
    refine ⟨closing :: stack, h, ?_⟩
    obtain ⟨rfl, rfl⟩ | ⟨rfl, rfl⟩ | ⟨rfl, rfl⟩ := eq_of_lookup_brackets hlookup <;>
      simp [nestingStep]
  next hlookup =>
    have hopening : c ≠ '(' ∧ c ≠ '[' ∧ c ≠ '<' := by
      refine ⟨?_, ?_, ?_⟩ <;> rintro rfl <;> cases hlookup
    split_ifs at h with hclosing
    -- A closing bracket takes itself off; `>` does so unless it ends an arrow.
    · obtain ⟨hhead, h⟩ := Bool.and_eq_true_iff.mp h
      obtain ⟨stack, rfl⟩ := List.head?_eq_some_iff.mp (beq_iff_eq.mp hhead)
      refine ⟨stack, h, ?_⟩
      obtain rfl | rfl | ⟨rfl, hprevious⟩ := hclosing <;> grind [nestingStep]
    · obtain ⟨hcomma, h⟩ := Bool.and_eq_true_iff.mp h
      refine ⟨stack, h, ?_⟩
      grind [nestingStep, List.isEmpty_iff]

theorem splitNested_of_nests {stack : List Char} {previous : Char}
    {cs rest : List Char} (depth : Int)
    (h : nests stack previous cs = true) (hdepth : depth = stack.length)
    (hrest : rest = [] ∨ rest.head? = some ',') :
    splitNested ',' depth previous (cs ++ rest) =
      Prod.map (cs ++ ·) id (splitNested ',' 0 ' ' rest) := by
  induction cs generalizing stack previous depth with
  | nil =>
    obtain rfl := List.isEmpty_iff.mp h
    cases rest with
    | nil => rfl
    | cons c rest =>
      obtain rfl : c = ',' := by simpa using hrest
      simp [splitNested, hdepth]
  | cons c cs ih =>
    obtain ⟨stack', hstack, hlength, hcomma, -⟩ := nests_cons h
    have hcut : c = ',' → depth ≠ 0 := fun hc => by simpa [hdepth] using hcomma hc
    rw [List.cons_append, splitNested_cons hcut, ih _ hstack (by omega)]
    rfl

theorem splitTopLevel_of_nests {first : List Char} {more : List (List Char)}
    (h : ∀ item ∈ first :: more, nests [] ' ' item = true) :
    splitTopLevel ',' ([',', ' '].intercalate (first :: more)) = first :: more.map (' ' :: ·) := by
  refine splitTopLevel_intercalate_of (P := fun cs => nests [] ' ' cs = true) ?_ ?_ (fun hs => hs) h
  · intro cs hcs
    have hsplit := splitNested_of_nests 0 hcs rfl (.inl rfl)
    rw [List.append_nil] at hsplit
    simp [splitTopLevel, hsplit, splitNested]
  · intro cs hcs rest
    have hsplit := splitNested_of_nests 0 hcs rfl
      (.inr (List.head?_cons (a := ',') (l := rest)))
    have hcut : splitNested ',' 0 ' ' (',' :: rest) = ([], splitTopLevel ',' rest) := by
      rw [splitNested, if_pos ⟨rfl, rfl⟩, splitNested_previous (by decide)]
      rfl
    rw [hcut] at hsplit
    simp [splitTopLevel, hsplit]

/-! ## Blanks -/

theorem ne_of_isBlank {b c : Char} (hb : isBlank b = true) (hc : isBlank c = false) : b ≠ c := by
  rintro rfl
  rw [hb] at hc
  cases hc

/-- What does not see a blank at either end does not see whether the text is trimmed. -/
theorem apply_trim {α : Type} {f : List Char → α}
    (hstart : ∀ {b}, isBlank b = true → ∀ cs, f (b :: cs) = f cs)
    (hend : ∀ {b}, isBlank b = true → ∀ cs, f (cs ++ [b]) = f cs) (cs : List Char) :
    f (trim cs) = f cs := by
  have htrimStart : f (trimStart cs) = f cs := by
    induction cs with
    | nil => rfl
    | cons c cs ih =>
      rw [trimStart, List.dropWhile_cons]
      split
      next hc => exact ih.trans (hstart hc cs).symm
      next => rfl
  have htrimEnd : ∀ cs, f (trimEnd cs) = f cs := by
    intro cs
    induction cs using List.reverseRecOn with
    | nil => rfl
    -- From the end, so that the last character is the one in question.
    | append_singleton cs c ih =>
      rw [trimEnd, dropEndWhile, List.reverse_concat, List.dropWhile_cons]
      split
      next hc => exact ih.trans (hend hc cs).symm
      next => rw [← List.reverse_concat, List.reverse_reverse]
  rw [trim, htrimEnd, htrimStart]

theorem trim_append_blank {b : Char} (hb : isBlank b = true) (cs : List Char) :
    trim (cs ++ [b]) = trim cs := by
  rw [trim, trim, trimStart, trimStart, List.dropWhile_append]
  split
  next hblank => simp [List.isEmpty_iff.mp hblank, hb]
  next => simp [trimEnd, dropEndWhile, hb]

theorem not_isEmpty_trim {cs : List Char} (h : ∃ c ∈ cs, isBlank c = false) :
    ¬(trim cs).isEmpty = true := by
  have hany : (trim cs).any (!isBlank ·) = cs.any (!isBlank ·) :=
    apply_trim (f := fun cs => cs.any (!isBlank ·)) (fun hb _ => by simp [hb])
      (fun hb _ => by simp [hb]) cs
  intro hempty
  obtain ⟨c, hc, hblank⟩ := h
  rw [List.isEmpty_iff.mp hempty, List.any_nil, eq_comm, List.any_eq_false] at hany
  exact hany c hc (by simp [hblank])

section

variable (separator : Char) {b : Char} (hb : isBlank b = true)
    (hseparator : isBlank separator = false)

include hb

theorem nestingStep_blank (previous : Char) : nestingStep previous b = 0 := by
  have hne : ∀ {c}, isBlank c = false → b ≠ c := ne_of_isBlank hb
  have hopening : b ≠ '(' ∧ b ≠ '[' ∧ b ≠ '<' := ⟨hne rfl, hne rfl, hne rfl⟩
  have hclosing : b ≠ ')' ∧ b ≠ ']' ∧ b ≠ '>' := ⟨hne rfl, hne rfl, hne rfl⟩
  simp [nestingStep, hopening, hclosing]

include hseparator

theorem splitTopLevel_blank_cons (cs : List Char) :
    ∃ first rest, splitTopLevel separator cs = first :: rest ∧
      splitTopLevel separator (b :: cs) = (b :: first) :: rest := by
  have hne := ne_of_isBlank hb hseparator
  refine ⟨_, _, rfl, ?_⟩
  rw [splitTopLevel, splitNested_cons fun h => absurd h hne, nestingStep_blank hb,
    splitNested_previous (ne_of_isBlank hb (by decide))]
  rfl

theorem splitNested_append_blank (cs : List Char) (depth : Int) (previous : Char) :
    let parts := splitNested separator depth previous cs
    let parts' := splitNested separator depth previous (cs ++ [b])
    ∃ init last, parts.1 :: parts.2 = init ++ [last] ∧
      parts'.1 :: parts'.2 = init ++ [last ++ [b]] := by
  have hne := ne_of_isBlank hb hseparator
  induction cs generalizing depth previous with
  | nil => exact ⟨[], [], by simp [splitNested, hne]⟩
  | cons c cs ih =>
    by_cases hcut : c = separator ∧ depth = 0
    -- The text is cut here; the last part is one of the rest.
    · obtain ⟨init, last, h, h'⟩ := ih depth c
      refine ⟨[] :: init, last, ?_⟩
      simp [splitNested, hcut] at h h' ⊢
      exact ⟨h, h'⟩
    · obtain ⟨init, last, h, h'⟩ := ih (depth + nestingStep previous c) c
      rw [List.cons_append, splitNested, splitNested, if_neg hcut, if_neg hcut]
      -- The character joins the first part, which may be the last one.
      cases init with
      | nil =>
        refine ⟨[], c :: last, ?_⟩
        simp at h h' ⊢
        simp [h, h']
      | cons first init =>
        refine ⟨(c :: first) :: init, last, ?_⟩
        simp at h h' ⊢
        simp [h, h']

theorem splitTopLevel_append_blank (cs : List Char) :
    ∃ init last, splitTopLevel separator cs = init ++ [last] ∧
      splitTopLevel separator (cs ++ [b]) = init ++ [last ++ [b]] :=
  splitNested_append_blank separator hb hseparator cs 0 ' '

end

end Text

namespace Source

open Text

/-! ## Clauses -/

theorem beforeClosing?_of_nests {stack : List Char} {previous : Char} {cs : List Char} (depth : Nat)
    (h : nests stack previous cs = true) (hdepth : depth = stack.count ')') (rest : List Char) :
    beforeClosing? depth (cs ++ rest) = (beforeClosing? 0 rest).map (cs ++ ·) := by
  induction cs generalizing stack previous depth with
  | nil =>
    obtain rfl := List.isEmpty_iff.mp h
    simp [hdepth]
  | cons c cs ih =>
    obtain ⟨stack', hstack, -, -, hcount⟩ := nests_cons h
    rw [List.cons_append]
    split_ifs at hcount with hopen hclose
    · have hrest := ih (depth + 1) hstack (by omega)
      simp [beforeClosing?, hopen, hrest, Function.comp_def]
    · obtain ⟨inner, rfl⟩ : ∃ inner, depth = inner + 1 := ⟨stack'.count ')', by omega⟩
      have hrest := ih inner hstack (by omega)
      simp [beforeClosing?, hclose, hrest, Function.comp_def]
    · have hrest := ih depth hstack (by omega)
      simp [beforeClosing?, hopen, hclose, hrest, Function.comp_def]

theorem afterOpening?_append {header : List Char} (hopen : '(' ∉ header) (angles : Int)
    (hangles : angles + header.count '<' = header.count '>') (rest : List Char) :
    afterOpening? angles (header ++ '(' :: rest) = some rest := by
  induction header generalizing angles with
  | nil =>
    obtain rfl : angles = 0 := by simpa using hangles
    rfl
  | cons c cs ih =>
    rw [List.mem_cons, not_or] at hopen
    rw [List.cons_append, afterOpening?, if_neg fun h => hopen.1 h.1.symm]
    refine ih hopen.2 _ ?_
    simp only [List.count_cons] at hangles
    grind

/-- The commas between texts are within the clause. -/
theorem beforeClosing?_intercalate {texts : List (List Char)}
    (h : ∀ text ∈ texts, nests [] ' ' text = true) (rest : List Char) :
    beforeClosing? 0 ([',', ' '].intercalate texts ++ ')' :: rest) =
      some ([',', ' '].intercalate texts) := by
  induction texts with
  | nil => simp [beforeClosing?]
  | cons first more ih =>
    obtain ⟨hfirst, hmore⟩ := List.forall_mem_cons.mp h
    cases more with
    | nil => simp [beforeClosing?_of_nests 0 hfirst rfl, beforeClosing?]
    | cons next more =>
      rw [List.intercalate_cons_cons, List.append_assoc, List.append_assoc,
        beforeClosing?_of_nests 0 hfirst rfl]
      simp [beforeClosing?, ih hmore]

theorem ofText?_congr {cs cs' first first' next next' : List Char} {rest rest' : List (List Char)}
    (h : splitTopLevel ':' cs = first :: next :: rest)
    (h' : splitTopLevel ':' cs' = first' :: next' :: rest') (hwords : words first' = words first)
    (htail : trim (cs'.drop (first'.length + 1)) = trim (cs.drop (first.length + 1))) :
    ParameterInfo.ofText? (String.ofList cs') = ParameterInfo.ofText? (String.ofList cs) := by
  unfold ParameterInfo.ofText? parameterNames?
  simp only [String.toList_ofList, h, h', hwords, htail]

theorem ofText?_blank_cons {b : Char} (hb : isBlank b = true) (cs : List Char) :
    ParameterInfo.ofText? (String.ofList (b :: cs)) = ParameterInfo.ofText? (String.ofList cs) := by
  obtain ⟨first, rest, h, h'⟩ := splitTopLevel_blank_cons ':' hb (by decide) cs
  cases rest with
  | nil => simp [ParameterInfo.ofText?, h, h']
  | cons next rest =>
    refine ofText?_congr h h' ?_ rfl
    simp [words, List.splitOnP_cons_eq_if_modifyHead, hb]

theorem ofText?_append_blank {b : Char} (hb : isBlank b = true) (cs : List Char) :
    ParameterInfo.ofText? (String.ofList (cs ++ [b])) =
      ParameterInfo.ofText? (String.ofList cs) := by
  obtain ⟨init, last, h, h'⟩ := splitTopLevel_append_blank ':' hb (by decide) cs
  have htail : ∀ n, trim ((cs ++ [b]).drop n) = trim (cs.drop n) := by
    intro n
    rw [List.drop_append]
    cases n - cs.length with
    | zero => exact trim_append_blank hb (cs.drop n)
    | succ k => simp
  cases init with
  | nil => simp [ParameterInfo.ofText?, h, h']
  | cons first init => cases init <;> exact ofText?_congr h h' rfl (htail _)

/-- The parameters between commas. -/
def listed? (cs : List Char) : Option (List ParameterInfo) :=
  (splitTopLevel ',' cs).mapM fun part => ParameterInfo.ofText? (String.ofList part)

theorem listed?_trim (cs : List Char) : listed? (trim cs) = listed? cs := by
  refine apply_trim ?_ ?_ cs
  · intro b hb cs
    obtain ⟨first, rest, h, h'⟩ := splitTopLevel_blank_cons ',' hb (by decide) cs
    rw [listed?, listed?, h, h', List.mapM_cons, List.mapM_cons, ofText?_blank_cons hb]
  · intro b hb cs
    obtain ⟨init, last, h, h'⟩ := splitTopLevel_append_blank ',' hb (by decide) cs
    rw [listed?, listed?, h, h', List.mapM_append, List.mapM_append, List.mapM_cons, List.mapM_cons,
      ofText?_append_blank hb]

theorem listed?_intercalate {first : List Char} {more : List (List Char)}
    (h : ∀ text ∈ first :: more, nests [] ' ' text = true) :
    listed? ([',', ' '].intercalate (first :: more)) =
      (first :: more).mapM fun text => ParameterInfo.ofText? (String.ofList text) := by
  have hblank : ∀ text, ParameterInfo.ofText? (String.ofList (' ' :: text)) =
      ParameterInfo.ofText? (String.ofList text) := ofText?_blank_cons (by decide)
  rw [listed?, splitTopLevel_of_nests h, List.mapM_cons, List.mapM_cons, List.mapM_map]
  simp only [Function.comp_def, hblank]

/-- A text that can stand between the commas of a clause: it is not blank and nests its brackets. -/
structure IsItem (text : String) : Prop where
  nests : nests [] ' ' text.toList = true
  nonblank : ∃ c ∈ text.toList, isBlank c = false

/-- A header before a clause: its parentheses are those of the clause, and its angle brackets pair
up. -/
structure IsHeader (header : String) : Prop where
  opening : '(' ∉ header.toList
  angles : header.toList.count '<' = header.toList.count '>'

theorem parameterClause?_intercalate {header : String} {texts : List String}
    (hheader : IsHeader header) (htexts : ∀ text ∈ texts, IsItem text) (rest : String) :
    parameterClause? (header ++ "(" ++ ", ".intercalate texts ++ ")" ++ rest) =
      texts.mapM ParameterInfo.ofText? := by
  have hnests : ∀ text ∈ texts.map String.toList, nests [] ' ' text = true :=
    List.forall_mem_map.mpr fun text htext => (htexts text htext).nests
  have hchars : (header ++ "(" ++ ", ".intercalate texts ++ ")" ++ rest).toList = header.toList ++
      '(' :: ([',', ' '].intercalate (texts.map String.toList) ++ ')' :: rest.toList) := by
    simp
  rw [parameterClause?, hchars, afterOpening?_append hheader.opening 0 (by simp [hheader.angles])]
  simp only [Option.bind_eq_bind, Option.bind_some, beforeClosing?_intercalate hnests]
  cases texts with
  | nil => rfl
  | cons first more =>
    -- A text that is not blank makes the whole clause not blank.
    have hclause : ¬(trim ([',', ' '].intercalate ((first :: more).map String.toList))).isEmpty =
        true := by
      obtain ⟨c, hc, hblank⟩ := (htexts first List.mem_cons_self).nonblank
      refine not_isEmpty_trim ⟨c, ?_, hblank⟩
      cases more <;> simp [hc]
    rw [if_neg hclause]
    refine (listed?_trim _).trans ((listed?_intercalate hnests).trans ?_)
    rw [← List.map_cons, List.mapM_map]
    simp [Function.comp_def]

/-! ## Nodes -/

variable {tables : SideTables}

theorem ok_of_yields_default {value : Option Site} {read : Except Node (Option Expr)}
    (h : Adapter.Yields tables (value.mapM fun value => ExceptT.lift value.expr :
      ExceptT Node Adapter (Option Expr)).run read) : ∃ default, read = .ok default := by
  cases value with
  | none => exact ⟨none, Adapter.yields_pure h⟩
  | some value =>
    rw [Option.mapM_some, ExceptT.run_map, ExceptT.run_lift] at h
    obtain ⟨outcome, houtcome, rfl⟩ := Adapter.yields_map h
    obtain ⟨e, -, rfl⟩ := Adapter.yields_map houtcome
    exact ⟨some e, rfl⟩

/-- The parameters of a function are read from their nodes one by one, up to the first that cannot
be read. -/
theorem yields_readParameters {nodes : List Node} {outcome : Except Node (List Parameter)}
    (h : Adapter.Yields tables (readParameters (nodes.map Node.site)).run outcome) :
    match nodes.mapM fun n => ParameterInfo.ofText? n.text with
    | some infos => ∃ parameters, outcome = .ok parameters ∧
        parameters.map Parameter.label = infos.map ParameterInfo.label ∧
        parameters.map Parameter.name = infos.map ParameterInfo.name
    | none => ∃ refused, outcome = .error refused := by
  induction nodes generalizing outcome with
  | nil => exact ⟨[], Adapter.yields_pure h, rfl, rfl⟩
  | cons n rest ih =>
    rw [List.map_cons, readParameters, Site.text, node_site] at h
    rw [List.mapM_cons]
    cases hinfo : ParameterInfo.ofText? n.text with
    | none =>
      rw [hinfo] at h
      exact ⟨_, Adapter.yields_pure h⟩
    | some info =>
      rw [hinfo] at h
      simp only [ExceptT.run_bind] at h
      obtain ⟨read, hread, h⟩ := Adapter.yields_bind h
      -- A default that cannot be read is an error in its place and does not stop the reading.
      obtain ⟨default, rfl⟩ := ok_of_yields_default hread
      obtain ⟨read, hread, h⟩ := Adapter.yields_bind h
      have hrest := ih hread
      cases hinfos : rest.mapM fun n => ParameterInfo.ofText? n.text with
      | none =>
        rw [hinfos] at hrest
        obtain ⟨refused, rfl⟩ := hrest
        exact ⟨refused, Adapter.yields_pure h⟩
      | some infos =>
        rw [hinfos] at hrest
        obtain ⟨parameters, rfl, hlabels, hnames⟩ := hrest
        exact ⟨_, Adapter.yields_pure h, congrArg (_ :: ·) hlabels, congrArg (_ :: ·) hnames⟩

/-- A function that is read from its nodes tells the key that the text of its declaration gives. -/
theorem functionFacts_of_clause {header : String} {texts : List String} (hheader : IsHeader header)
    (htexts : ∀ text ∈ texts, IsItem text) (rest : String) :
    let clause := parameterClause? (header ++ "(" ++ ", ".intercalate texts ++ ")" ++ rest)
    clause = texts.mapM ParameterInfo.ofText? ∧
      ∀ (tables : SideTables) (n : Node), n.kind = .functionDecl →
        (n.childrenOf .parameter).map Node.text = texts →
        ∀ s, Adapter.Yields tables (readFunction n (n.children.map Node.site)) s →
          match clause with
          | some infos => ∃ head parameters body span, s = .function head parameters body span ∧
              ∀ owner, let key := signatureKey n.text (infos.map ParameterInfo.label)
                Pass.functionFacts owner head parameters =
                  (if head.isPure then [.pureFunction key] else []) ++
                    [.function key (infos.map ParameterInfo.name)]
          | none => ∃ reason span, s = .errorStmt reason span := by
  intro clause
  have hclause : clause = texts.mapM ParameterInfo.ofText? :=
    parameterClause?_intercalate hheader htexts rest
  refine ⟨hclause, ?_⟩
  intro tables n hkind hnodes s h
  rw [readFunction, ofKind_map_site] at h
  obtain ⟨outcome, houtcome, h⟩ := Adapter.yields_bind h
  have hread := yields_readParameters houtcome
  rw [hclause, ← hnodes, List.mapM_map]
  simp only [Function.comp_def]
  cases hinfos : (n.childrenOf .parameter).mapM fun n => ParameterInfo.ofText? n.text with
  | none =>
    rw [hinfos] at hread
    obtain ⟨refused, rfl⟩ := hread
    obtain ⟨reason, -, h⟩ := Adapter.yields_bind h
    exact ⟨reason, _, Adapter.yields_pure h⟩
  | some infos =>
    rw [hinfos] at hread
    obtain ⟨parameters, rfl, hlabels, hnames⟩ := hread
    obtain ⟨body, -, h⟩ := Adapter.yields_bind h
    obtain ⟨found, -, h⟩ := Adapter.yields_bind h
    refine ⟨_, _, _, _, Adapter.yields_pure h, fun owner => ?_⟩
    -- A function has its own name in its key; only an initializer is called by another.
    have hcalled : ∀ isPure, Pass.calledName (functionHead n isPure) owner = n.text := by
      intro isPure
      simp [Pass.calledName, functionHead, functionKind, hkind]
    simp only [Pass.functionFacts, hcalled, hlabels, hnames]

/-- The parameters of `func grid<Axis: Scale<Int>>(_ x: [Int] , at pair: (Int, Int) = (1, -2))`. -/
def gridTexts : List String :=
  ["_ x: [Int] ", "at pair: (Int, Int) = (1, -2)"]

def gridNode : Node :=
  .node { kind := .functionDecl, text := some "grid" }
    (gridTexts.map fun text => .node { kind := .parameter, text := some text } [])

/-- The text and the node of the function give one key. -/
theorem functionFacts_grid :
    let infos : List ParameterInfo :=
      [{ label := none, name := "x", ty := "[Int]" },
        { label := some "at", name := "pair", ty := "(Int, Int)", hasDefault := true }]
    parameterClause? ("func grid<Axis: Scale<Int>>" ++ "(" ++ ", ".intercalate gridTexts ++ ")" ++
        " -> Int") = some infos ∧
      ∀ s, Adapter.Yields {} (readFunction gridNode (gridNode.children.map Node.site)) s →
        ∃ head parameters body span, s = .function head parameters body span ∧
          Pass.functionFacts none head parameters =
            (if head.isPure then [.pureFunction (signatureKey "grid" [none, some "at"])] else []) ++
              [.function (signatureKey "grid" [none, some "at"]) ["x", "pair"]] := by
  intro infos
  have hheader : IsHeader "func grid<Axis: Scale<Int>>" := ⟨by decide, by decide⟩
  have htexts : ∀ text ∈ gridTexts, IsItem text := by
    refine List.forall_mem_cons.mpr ⟨⟨by decide, 'x', by decide, by decide⟩, ?_⟩
    exact List.forall_mem_singleton.mpr ⟨by decide, 'a', by decide, by decide⟩
  have hinfos : gridTexts.mapM ParameterInfo.ofText? = some infos := by decide
  obtain ⟨hclause, hnode⟩ := functionFacts_of_clause hheader htexts " -> Int"
  rw [hinfos] at hclause
  rw [hclause] at hnode
  refine ⟨hclause, fun s hs => ?_⟩
  obtain ⟨head, parameters, body, span, rfl, hfacts⟩ := hnode {} gridNode rfl rfl s hs
  exact ⟨head, parameters, body, span, rfl, hfacts none⟩

end Source

end Ferry
