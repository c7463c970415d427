/-
  Ferry.Proofs.Diagnostic.Location

  Where a range starts.  The text falls into the lines before the start's line, the part of this
  line before the start, and the rest (`Excerpt.Parted`).  Line and column give back the start, and
  the lines quoted are those of the text around it (`quotes_surroundings`).
-/
import Ferry.Diagnostic.Excerpt

namespace Ferry

namespace Text

/-! ## Bytes -/

@[simp] theorem byteLength_cons (c : Char) (cs : List Char) :
    byteLength (c :: cs) = c.utf8Size + byteLength cs := rfl

@[simp] theorem byteLength_append (cs ds : List Char) :
    byteLength (cs ++ ds) = byteLength cs + byteLength ds := by
  induction cs with
  | nil => exact (Nat.zero_add _).symm
  | cons c cs ih => rw [List.cons_append, byteLength_cons, ih, byteLength_cons, Nat.add_assoc]

theorem byteLength_toList (text : String) : byteLength text.toList = text.utf8ByteSize := by
  suffices h : ∀ cs, byteLength cs = (String.ofList cs).utf8ByteSize by
    rw [h, String.ofList_toList]
  intro cs
  induction cs with
  | nil => rfl
  | cons c cs ih =>
    rw [String.ofList_cons, String.utf8ByteSize_append, String.utf8ByteSize_singleton, ← ih,
      byteLength_cons]

theorem length_le_byteLength (cs : List Char) : cs.length ≤ byteLength cs := by
  induction cs with
  | nil => exact Nat.le_refl 0
  | cons c cs ih =>
    have := c.utf8Size_pos
    rw [List.length_cons, byteLength_cons]
    omega

theorem splitAtByte?_byteLength (before after : List Char) :
    splitAtByte? (byteLength before) (before ++ after) = some (before, after) := by
  induction before with
  | nil => exact splitAtByte?.eq_1 after
  | cons c before ih =>
    obtain ⟨n, hn⟩ := Nat.exists_eq_succ_of_ne_zero (Nat.ne_of_gt c.utf8Size_pos)
    have hlength : byteLength (c :: before) = n + byteLength before + 1 := by
      rw [byteLength_cons, hn, Nat.succ_add]
    rw [hlength, List.cons_append, splitAtByte?, if_pos (by omega), hn,
      Nat.add_right_comm, Nat.add_sub_cancel_left, ih]
    rfl

theorem eq_append_of_splitAtByte? {n : Nat} {cs before after : List Char}
    (h : splitAtByte? n cs = some (before, after)) :
    cs = before ++ after ∧ byteLength before = n := by
  fun_induction splitAtByte? n cs generalizing before with
  | case1 =>
    cases h
    exact ⟨rfl, rfl⟩
  | case2 | case4 => cases h
  | case3 n c cs hfits ih =>
    obtain ⟨cut, hcut, hpair⟩ := Option.map_eq_some_iff.mp h
    cases hpair
    obtain ⟨rfl, hlength⟩ := ih hcut
    exact ⟨rfl, by rw [byteLength_cons]; omega⟩

theorem isSome_between? {p p' q q' : List Char} (h : p ++ p' = q ++ q')
    (hle : byteLength p ≤ byteLength q) :
    (between? (byteLength p) (byteLength q) (p ++ p')).isSome = true := by
  rw [between?, if_pos hle, splitAtByte?_byteLength, Option.bind_some, Option.isSome_map]
  obtain ⟨m, rfl, rfl⟩ | ⟨m, rfl, rfl⟩ := List.append_eq_append_iff.mp h
  · rw [byteLength_append, Nat.add_sub_cancel_left, splitAtByte?_byteLength]
    rfl
  · rw [byteLength_append, Nat.sub_eq_zero_of_le (Nat.le_add_right ..), splitAtByte?]
    rfl

/-! ## Lines -/

theorem splitLines_append_feed (cs ds : List Char) : splitLines (cs ++ '\n' :: ds) =
    ((splitLines cs).1, (splitLines cs).2 ++ (splitLines ds).1 :: (splitLines ds).2) := by
  induction cs with
  | nil => rfl
  | cons c cs ih => by_cases h : c = '\n' <;> simp [splitLines, ih, h]

theorem length_splitLines (cs : List Char) : (splitLines cs).2.length = cs.count '\n' := by
  induction cs with
  | nil => rfl
  | cons c cs ih => by_cases h : c = '\n' <;> simp [splitLines, h, ih]

theorem closeLines_append (line next : List Char) (lines rest : List (List Char)) :
    closeLines line (lines ++ next :: rest) =
      (line :: lines).map dropReturn ++ closeLines next rest := by
  induction lines generalizing line with
  | nil => rfl
  | cons other lines ih =>
    rw [List.cons_append, closeLines, ih]
    rfl

theorem exists_lines_append {cs : List Char} (h : cs = [] ∨ ['\n'] <:+ cs) (ds : List Char) :
    ∃ ended, ended.length = cs.count '\n' ∧ lines (cs ++ ds) = ended ++ lines ds := by
  obtain rfl | ⟨cs, rfl⟩ := h
  · exact ⟨[], rfl, rfl⟩
  · refine ⟨((splitLines cs).1 :: (splitLines cs).2).map dropReturn, ?_, ?_⟩
    · simp [length_splitLines]
    · rw [List.append_assoc, List.singleton_append, lines, splitLines_append_feed,
        closeLines_append]
      rfl

/-- The last line feed parts a text into lines that have ended and the beginning of one. -/
theorem exists_lastFeed (cs : List Char) : ∃ earlier ahead, cs = earlier ++ ahead ∧
    (earlier = [] ∨ ['\n'] <:+ earlier) ∧ '\n' ∉ ahead ∧
    bytesThroughLastFeed cs = byteLength earlier := by
  refine ⟨(cs.reverse.dropWhile (· ≠ '\n')).reverse, (cs.reverse.takeWhile (· ≠ '\n')).reverse,
    ?_, ?_, ?_, rfl⟩
  · rw [← List.reverse_append, List.takeWhile_append_dropWhile, List.reverse_reverse]
  · have hhead := List.head?_dropWhile_not (fun c : Char => decide (c ≠ '\n')) cs.reverse
    cases hrest : cs.reverse.dropWhile (· ≠ '\n') with
    | nil => exact .inl rfl
    | cons c rest =>
      rw [hrest] at hhead
      obtain rfl : c = '\n' := by simpa using hhead
      exact .inr ⟨rest.reverse, List.reverse_cons.symm⟩
  · intro hmem
    have hall := List.all_eq_true.mp List.all_takeWhile _ (List.mem_reverse.mp hmem)
    exact of_decide_eq_true hall rfl

/-- That the lines from one number to another are quoted, in this order and each with its number. -/
def Quotes (lines : List String) (first last : Nat) (quoted : List (Nat × String)) : Prop :=
  quoted.map Prod.fst = List.range' first (last + 1 - first) ∧
    ∀ number text, (number, text) ∈ quoted → lines[number - 1]? = some text

theorem Quotes.mem {lines : List String} {first last : Nat} {quoted : List (Nat × String)}
    (h : Quotes lines first last quoted) {number : Nat} {text : String} (hfirst : first ≤ number)
    (hlast : number ≤ last) (htext : lines[number - 1]? = some text) : (number, text) ∈ quoted := by
  have hnumber : number ∈ quoted.map Prod.fst := by
    rw [h.1, List.mem_range'_1]
    omega
  obtain ⟨⟨_, other⟩, hmem, rfl⟩ := List.mem_map.mp hnumber
  obtain rfl : other = text := Option.some.inj ((h.2 _ _ hmem).symm.trans htext)
  exact hmem

theorem quotes_zipIdx {lines : List String} (skipped : Nat) {stop : Nat} (h : stop ≤ lines.length) :
    Quotes lines (skipped + 1) stop
      ((((lines.take stop).drop skipped).zipIdx (skipped + 1)).map Prod.swap) := by
  refine ⟨?_, fun number text hmem => ?_⟩
  · have hsnd : Prod.fst ∘ Prod.swap = (Prod.snd : String × Nat → Nat) := rfl
    rw [List.map_map, hsnd, List.zipIdx_map_snd, List.length_drop, List.length_take_of_le h,
      Nat.add_sub_add_right]
  · obtain ⟨entry, hentry, hswap⟩ := List.mem_map.mp hmem
    obtain rfl : entry = (text, number) := congrArg Prod.swap hswap
    rw [List.mk_mem_zipIdx_iff_le_and_getElem?_sub, List.getElem?_drop] at hentry
    obtain ⟨hle, hentry⟩ := hentry
    rw [show skipped + (number - (skipped + 1)) = number - 1 by omega, List.getElem?_take] at hentry
    split at hentry
    next => exact hentry
    next => cases hentry

end Text

namespace Excerpt

open Text

variable {excerpt : Excerpt} {earlier ahead rest : List Char}

/-- The text in three parts: the lines before the start's line with their ends, the part of this
line before the start, and the rest. -/
structure Parted (excerpt : Excerpt) (earlier ahead rest : List Char) : Prop where
  source : excerpt.source.toList = earlier ++ (ahead ++ rest)
  ended : earlier = [] ∨ ['\n'] <:+ earlier
  inLine : '\n' ∉ ahead
  start : byteLength earlier + byteLength ahead = excerpt.start
  before : excerpt.before = earlier ++ ahead
  lineStart : excerpt.lineStart = byteLength earlier

theorem exists_parted (hboundary : String.Pos.Raw.IsValid excerpt.source
    ⟨min excerpt.span.start excerpt.source.utf8ByteSize⟩) :
    ∃ earlier ahead rest, excerpt.Parted earlier ahead rest := by
  obtain ⟨before, after, hsource, hend⟩ := String.Pos.Raw.isValid_iff_exists_append.mp hboundary
  have hstart : byteLength before.toList = excerpt.start := by
    rw [start, byteLength_toList, byteLength_toList]
    exact (congrArg String.Pos.Raw.byteIdx hend).symm
  have hlist : excerpt.source.toList = before.toList ++ after.toList := by
    rw [hsource, String.toList_append]
  have hbefore : excerpt.before = before.toList := by
    rw [Excerpt.before, hlist, ← hstart, splitAtByte?_byteLength]
  obtain ⟨earlier, ahead, hparts, hended, hinLine, hfeed⟩ := exists_lastFeed before.toList
  refine ⟨earlier, ahead, after.toList, ?_, hended, hinLine, ?_, hbefore.trans hparts, ?_⟩
  · rw [hlist, hparts, List.append_assoc]
  · rw [← hstart, hparts, byteLength_append]
  · rw [lineStart, hbefore, hfeed]

/-- Where the lines touched by the range end, which is not before the start. -/
theorem exists_lineStop (excerpt : Excerpt) : ∃ through behind,
    excerpt.source.toList = through ++ behind ∧ byteLength through = excerpt.lineStop ∧
    excerpt.start ≤ excerpt.lineStop := by
  have hstart : excerpt.start ≤ byteLength excerpt.source.toList := Nat.min_le_right ..
  have hstop : excerpt.start ≤ excerpt.stop := Nat.le_min.mpr ⟨Nat.le_max_right .., hstart⟩
  cases hcut : splitAtByte? excerpt.stop excerpt.source.toList with
  | none =>
    -- The range ends inside a character.
    have hline : excerpt.lineStop = byteLength excerpt.source.toList := by rw [lineStop, hcut]
    exact ⟨excerpt.source.toList, [], (List.append_nil _).symm, hline.symm, by omega⟩
  | some cut =>
    have hline : excerpt.lineStop = excerpt.stop + byteLength (cut.2.takeWhile (· ≠ '\n')) := by
      rw [lineStop, hcut]
    obtain ⟨hsource, hlength⟩ := eq_append_of_splitAtByte? hcut
    refine ⟨cut.1 ++ cut.2.takeWhile (· ≠ '\n'), cut.2.dropWhile (· ≠ '\n'), ?_, ?_, by omega⟩
    · rw [List.append_assoc, List.takeWhile_append_dropWhile, hsource]
    · rw [byteLength_append, hlength, hline]

namespace Parted

variable (h : excerpt.Parted earlier ahead rest)

include h

theorem lineStart_le : excerpt.lineStart ≤ excerpt.start := by
  rw [h.lineStart, ← h.start]
  exact Nat.le_add_right ..

theorem line_le : excerpt.line ≤ excerpt.start + 1 := by
  rw [line, h.before, ← h.start, ← byteLength_append]
  exact Nat.succ_le_succ (Nat.le_trans List.count_le_length (length_le_byteLength _))

/-- From the start's line on, the lines are those of the text that begins with this line. -/
theorem drop_linesOf : excerpt.line - 1 ≤ (linesOf excerpt.source).length ∧
    (linesOf excerpt.source).drop (excerpt.line - 1) =
      (lines (ahead ++ rest)).map String.ofList := by
  obtain ⟨ended, hlength, hlines⟩ := exists_lines_append h.ended (ahead ++ rest)
  have hline : excerpt.line - 1 = ended.length := by
    rw [line, h.before, List.count_append, List.count_eq_zero.mpr h.inLine, hlength]
    rfl
  rw [hline, linesOf, h.source, hlines, ← List.map_drop, List.drop_left, List.length_map,
    List.length_append]
  exact ⟨Nat.le_add_right .., rfl⟩

theorem isSome_touched? : excerpt.touched?.isSome = true := by
  obtain ⟨through, behind, hsource, hstop, hle⟩ := exists_lineStop excerpt
  have hbegin := Nat.le_trans h.lineStart_le hle
  rw [h.lineStart, ← hstop] at hbegin
  rw [touched?, h.lineStart, ← hstop, h.source]
  exact isSome_between? (h.source.symm.trans hsource) hbegin

theorem quotes (window : Nat) : (excerpt.quoted? window).isSome = true ∧
    Quotes (linesOf excerpt.source) (max 1 (excerpt.line - window))
      (min (excerpt.line + window) (linesOf excerpt.source).length)
      (excerpt.surroundings window) := by
  have hline := h.drop_linesOf.1
  have hskipped : excerpt.skipped window = excerpt.line - 1 - window := rfl
  have hquoted : excerpt.quoted? window = some _ := if_pos (by omega)
  have hfirst : max 1 (excerpt.line - window) = excerpt.skipped window + 1 := by omega
  rw [surroundings, hquoted, hfirst]
  exact ⟨rfl, quotes_zipIdx _ (Nat.min_le_right ..)⟩

end Parted

/-- A start between two characters is told exactly: its line by the line feeds before it, its column
by the beginning of the line.  The lines quoted are those at most `window` away from the start's
line, which is among them if there is such a line.  On the way nothing is cut or subtracted out of
range, and no number is beyond the limit. -/
theorem quotes_surroundings (excerpt : Excerpt) (window : Nat)
    (hboundary : String.Pos.Raw.IsValid excerpt.source
      ⟨min excerpt.span.start excerpt.source.utf8ByteSize⟩) :
    ∃ earlier ahead rest, excerpt.Parted earlier ahead rest ∧
      excerpt.line = 1 + (earlier ++ ahead).count '\n' ∧
      byteLength earlier + excerpt.column = excerpt.start + 1 ∧
      (linesOf excerpt.source).drop (excerpt.line - 1) =
        (lines (ahead ++ rest)).map String.ofList ∧
      Quotes (linesOf excerpt.source) (max 1 (excerpt.line - window))
        (min (excerpt.line + window) (linesOf excerpt.source).length)
        (excerpt.surroundings window) ∧
      (∀ text, (linesOf excerpt.source)[excerpt.line - 1]? = some text →
        (excerpt.line, text) ∈ excerpt.surroundings window) ∧
      (splitAtByte? excerpt.start excerpt.source.toList).isSome = true ∧
      excerpt.lineStart ≤ excerpt.start ∧ excerpt.touched?.isSome = true ∧
      (excerpt.quoted? window).isSome = true ∧
      (excerpt.source.utf8ByteSize < 0x8000000000000000 → window < 0x8000000000000000 →
        excerpt.isBeyondLimit window = false) := by
  obtain ⟨earlier, ahead, rest, h⟩ := exists_parted hboundary
  obtain ⟨hquoted, hquotes⟩ := h.quotes window
  have hbegin := h.lineStart_le
  refine ⟨earlier, ahead, rest, h, ?_, ?_, h.drop_linesOf.2, hquotes, fun text htext => ?_, ?_,
    hbegin, h.isSome_touched?, hquoted, fun hsize hwindow => ?_⟩
  · rw [line, h.before, Nat.add_comm]
  · rw [column, ← h.lineStart]
    omega
  · obtain ⟨hlt, -⟩ := List.getElem?_eq_some_iff.mp htext
    have hline : 1 ≤ excerpt.line := Nat.le_add_left ..
    exact hquotes.mem (by omega) (by omega) htext
  · rw [← h.start, h.source, ← byteLength_append, ← List.append_assoc, splitAtByte?_byteLength]
    rfl
  -- The number of a line is bounded by the size of the text.
  · have hline := h.line_le
    have hstart : excerpt.start ≤ byteLength excerpt.source.toList := Nat.min_le_right ..
    rw [byteLength_toList] at hstart
    exact decide_eq_false (by rw [lineLimit]; omega)

theorem quotes_surroundings_past_end : String.Pos.Raw.IsValid "é\r\nb" ⟨5⟩ ∧
    Quotes ["é", "b"] 1 2 (surroundings ⟨"é\r\nb", ⟨9, 9⟩, none⟩ 4) := by
  have hend : String.Pos.Raw.IsValid "é\r\nb" ⟨5⟩ :=
    String.Pos.Raw.isValid_iff_exists_append.mpr ⟨"é\r\nb", "", by decide, by decide⟩
  obtain ⟨-, -, -, -, -, -, -, h, -⟩ := quotes_surroundings ⟨"é\r\nb", ⟨9, 9⟩, none⟩ 4 hend
  exact ⟨hend, h⟩

end Excerpt

end Ferry
