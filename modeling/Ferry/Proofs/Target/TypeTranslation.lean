/-
  Ferry.Proofs.Target.TypeTranslation

  Types are translated form by form (`typeText_text`), which decides when a spelled-out type is
  translated like the short form of it (`typeText_spelledOut`).  Attributes in front of a type are
  ignored if they stand in the order of the table (`typeText_attributed`).
-/
import Ferry.Proofs.Target.TypeGrammar

namespace Ferry.Target

open Text

/-! ## Attributes in front of a text -/

theorem name_of_mem_typeAttributes : ∀ word ∈ typeAttributes,
    word.toList = word.toList.dropLast ++ [' '] ∧ word.toList.dropLast ≠ [] ∧
      word.toList.dropLast.all isNameChar := by
  decide

theorem span_attribute {word : String} (h : word ∈ typeAttributes) (rest : List Char) :
    (word.toList ++ rest).takeWhile isNameChar = word.toList.dropLast ∧
      (word.toList ++ rest).dropWhile isNameChar = ' ' :: rest := by
  obtain ⟨heq, -, hname⟩ := name_of_mem_typeAttributes word h
  have hblank : isNameChar ' ' = false := by decide
  rw [List.all_eq_true] at hname
  rw [heq, List.dropLast_concat, List.append_assoc, List.takeWhile_append_of_pos hname,
    List.dropWhile_append_of_pos hname]
  simp [hblank]

theorem dropAttribute_of_isBare {cs : List Char} (h : IsBare cs) {word : String}
    (hw : word ∈ typeAttributes) : dropAttribute cs word = cs := by
  unfold dropAttribute
  split
  next rest hrest =>
    obtain rfl := eq_append_of_dropStart? hrest
    exact absurd (h ' ' (by simp [(span_attribute hw rest).2])) (by decide)
  next => rfl

theorem dropAttribute_of_ne {word other : String} (hw : word ∈ typeAttributes)
    (ho : other ∈ typeAttributes) (hne : word ≠ other) (rest : List Char) :
    dropAttribute (word.toList ++ rest) other = word.toList ++ rest := by
  unfold dropAttribute
  split
  next after hafter =>
    have htake := congrArg (List.takeWhile isNameChar) (eq_append_of_dropStart? hafter)
    rw [(span_attribute hw rest).1, (span_attribute ho after).1] at htake
    have heq : word.toList = other.toList := by
      rw [(name_of_mem_typeAttributes word hw).1, htake, ← (name_of_mem_typeAttributes other ho).1]
    exact absurd (String.toList_injective heq) hne
  next => rfl

theorem dropAttribute_self (word : String) (rest : List Char) :
    dropAttribute (word.toList ++ rest) word = trimStart rest := by
  have hdrop : ∀ start : List Char, dropStart? start (start ++ rest) = some rest := by
    intro start
    induction start with
    | nil => rfl
    | cons c start ih => simp [dropStart?, ih]
  rw [dropAttribute, hdrop]

namespace SourceType

/-! ## Spelled types -/

theorem typeChars_of_spelling (t : SourceType) : typeChars t.spelling = coreText t.spelling := by
  have hcore : ∀ words ⊆ typeAttributes, words.foldl dropAttribute t.spelling = t.spelling := by
    intro words hw
    induction words with
    | nil => rfl
    | cons word words ih =>
      rw [List.foldl_cons, dropAttribute_of_isBare (.spelling t) (hw List.mem_cons_self),
        ih fun other ho => hw (List.mem_cons_of_mem _ ho)]
  rw [typeChars_eq, coreType, t.isTight_spelling.trim, hcore _ (List.Subset.refl _)]

theorem typeChars_word (w : Word) : typeChars w.chars = translatedName (String.ofList w.chars) := by
  have hmark : ∀ c, isNameChar c = false → c ∉ w.chars := fun c hc hmem =>
    absurd (w.isName c hmem) (by simp [hc])
  have h := typeChars_of_spelling (.name w)
  rw [spelling] at h
  rw [h, coreText_name w.nonempty (fun _ => isPlain_of_mem)
    ⟨hmark _ (by decide), hmark _ (by decide)⟩, translatedName]

theorem nested_list (ts : List SourceType) :
    Nested [',', ':', '>'] ([',', ' '].intercalate (spellings ts)) :=
  .intercalate (forall_mem_spellings fun t _ => t.nested_spelling (.inl (by simp))) (by simp)

theorem listTexts_spellings {ts : List SourceType}
    (h : ∀ t ∈ ts, typeChars t.spelling = t.translation) :
    listTexts ([',', ' '].intercalate (spellings ts)) = translations ts := by
  rw [listTexts_intercalate (forall_mem_spellings fun t _ =>
    ⟨t.nested_spelling (.inl (by simp)), t.isTight_spelling⟩), spellings_eq_map,
    translations_eq_map, List.map_map]
  exact List.map_congr_left h

/-- An element of a tuple can be told from its label. -/
theorem element_labelled (label : Option Word) (t : SourceType) :
    IsTight (labelled label t.spelling) ∧
      dropElementLabel (labelled label t.spelling) = t.spelling := by
  have hnested : Nested ['>'] t.spelling := t.nested_spelling (.inl (by simp))
  have htight := t.isTight_spelling
  cases label with
  | none => exact ⟨htight, by rw [labelled, dropElementLabel_of_nested hnested, htight.trim]⟩
  | some label =>
    constructor
    · have h := isTight_append (isTight_word label) htight [':', ' ']
      simpa [labelled] using h
    · rw [labelled, dropElementLabel_labelled (nested_word label _) (.plain (by decide) hnested),
        trim_blank_cons, htight.trim]

theorem typeChars_tuple {es : List (Option Word × SourceType)}
    (h : ∀ e ∈ es, typeChars e.2.spelling = e.2.translation) :
    typeChars (tuple es).spelling = (tuple es).translation := by
  have hitems : ∀ s ∈ elementSpellings es, Nested [':', '>'] s ∧ IsTight s :=
    forall_mem_elementSpellings fun e _ =>
      ⟨nested_labelled e.1 (by simp) (e.2.nested_spelling (.inl (by simp))),
        (element_labelled e.1 e.2).1⟩
  have hnested : Nested [',', ':', '>'] ([',', ' '].intercalate (elementSpellings es)) :=
    .intercalate (fun s hs => (hitems s hs).1.mono (by simp)) (by simp)
  have htexts : elementTexts ([',', ' '].intercalate (elementSpellings es)) =
      elementTranslations es := by
    rw [elementTexts_intercalate hitems, elementSpellings_eq_map, elementTranslations_eq_map,
      List.map_map]
    refine List.map_congr_left fun e he => ?_
    rw [Function.comp, (element_labelled e.1 e.2).2, h e he]
  rw [typeChars_of_spelling, spelling, parenthesized, coreText_tuple hnested, htexts, translation]
  rfl

theorem typeChars_spelling (t : SourceType) : typeChars t.spelling = t.translation := by
  have hmark : '>' ∈ ['>'] := by simp
  induction t with
  | name word => exact typeChars_word word
  | array element ih =>
    rw [typeChars_of_spelling, spelling, coreText_array (element.nested_spelling (.inl hmark)), ih,
      translation]
  | dictionary key value ihk ihv =>
    rw [typeChars_of_spelling, spelling, coreText_dictionary (key.nested_spelling (.inl hmark))
      (.plain (by decide) (value.nested_spelling (.inl hmark))), typeChars_blank_cons, ihk, ihv,
      translation]
  | optional wrapped ih =>
    have hinner : Nested [] (if wrapped.isFunction then parenthesized wrapped.spelling
        else wrapped.spelling) ∧ typeChars (if wrapped.isFunction then
          parenthesized wrapped.spelling else wrapped.spelling) = wrapped.translation := by
      split
      next =>
        -- The parentheses that a function type needs are those of a tuple with one element.
        have h := @typeChars_tuple [(none, wrapped)] (by simpa using ih)
        exact ⟨nested_parenthesized (wrapped.nested_spelling (.inl (by simp))), by
          simpa [spelling, elementSpellings, labelled, translation, elementTranslations] using h⟩
      next h => exact ⟨wrapped.nested_spelling (.inr (by simpa using h)), ih⟩
    rw [typeChars_of_spelling, spelling, coreText_optional hinner.1, hinner.2, translation]
    rfl
  | tuple elements ih => exact typeChars_tuple ih
  | function parameters result ihp ihr =>
    rw [typeChars_of_spelling, spelling, parenthesized, coreText_function (nested_list parameters),
      listTexts_spellings ihp, typeChars_blank_cons, ihr, translation]
    rfl
  | generic base arguments ih =>
    rw [typeChars_of_spelling, spelling, coreText_generic (fun _ => isPlain_of_mem)
      (nested_list arguments), listTexts_spellings ih, typeChars_word, translation]
    rfl

/-- The text of a type is translated as its forms are: the cuts that are made in the text are those
    of the grammar. -/
theorem typeText_text (t : SourceType) : typeText t.text = t.translation := by
  rw [typeText, text, String.toList_ofList, typeChars_spelling]

/-! ## Spelled-out types -/

/-- A spelled-out collection is translated like its short form, and `Optional<T>` like `T?` exactly
    if there is no arrow in the translation of `T`: parentheses are added for the short form
    only. -/
theorem typeText_spelledOut (key t : SourceType) :
    (typeText ("Optional<" ++ t.text ++ ">") = typeText (optional t).text ↔
        contains "->" (typeText t.text) = false) ∧
      typeText ("Array<" ++ t.text ++ ">") = typeText ("[" ++ t.text ++ "]") ∧
      typeText ("Dictionary<" ++ key.text ++ ", " ++ t.text ++ ">") =
        typeText ("[" ++ key.text ++ ": " ++ t.text ++ "]") := by
  have htext : ∀ u : SourceType, typeText u.text = u.translation := fun u => by
    rw [typeText, text, String.toList_ofList, typeChars_spelling]
  have hoptional : "Optional<" ++ t.text ++ ">" =
      (generic ⟨"Optional".toList, by decide, List.all_eq_true.1 (by decide)⟩ [t]).text :=
    String.toList_injective (by simp [text, spelling, spellings])
  have harray : "Array<" ++ t.text ++ ">" =
      (generic ⟨"Array".toList, by decide, List.all_eq_true.1 (by decide)⟩ [t]).text :=
    String.toList_injective (by simp [text, spelling, spellings])
  have hdictionary : "Dictionary<" ++ key.text ++ ", " ++ t.text ++ ">" =
      (generic ⟨"Dictionary".toList, by decide, List.all_eq_true.1 (by decide)⟩ [key, t]).text :=
    String.toList_injective (by simp [text, spelling, spellings])
  have hsquare : "[" ++ t.text ++ "]" = (array t).text ∧
      "[" ++ key.text ++ ": " ++ t.text ++ "]" = (dictionary key t).text :=
    ⟨String.toList_injective (by simp [text, spelling]),
      String.toList_injective (by simp [text, spelling])⟩
  rw [hoptional, harray, hdictionary, hsquare.1, hsquare.2]
  simp only [htext, translation, translations, String.ofList_toList, and_self, and_true]
  split
  next h =>
    -- The parentheses of the short form make it longer.
    refine iff_of_false (fun heq => ?_) (by simp [h])
    have hlength := congrArg (fun s => s.toList.length) heq
    simp at hlength
  next h => simpa using h

end SourceType

/-! ## Attributes in front of a type -/

/-- The words that are left when one is dropped from the front, if it is there. -/
def dropWord (words : List String) (word : String) : List String :=
  if words.head? = some word then words.tail else words

theorem dropWord_subset (words : List String) (word : String) : dropWord words word ⊆ words := by
  unfold dropWord
  split
  · exact fun _ => List.mem_of_mem_tail
  · exact List.Subset.refl _

theorem foldl_dropWord_subset (table words : List String) : table.foldl dropWord words ⊆ words := by
  induction table generalizing words with
  | nil => exact List.Subset.refl _
  | cons entry table ih => exact List.Subset.trans (ih _) (dropWord_subset words entry)

theorem foldl_dropWord_eq_nil_iff {table words : List String} :
    table.foldl dropWord words = [] ↔ words.Sublist table := by
  induction table generalizing words with
  | nil => simp
  | cons entry table ih =>
    rw [List.foldl_cons, ih]
    cases words with
    | nil => simp [dropWord]
    | cons word words =>
      by_cases h : word = entry
      · simp [dropWord, h]
      · simp [dropWord, h, List.cons_sublist_cons']

/-- The text of a type with attributes in front of it. -/
def attributed (words : List String) (t : SourceType) : List Char :=
  words.flatMap String.toList ++ t.spelling

theorem isTight_attributed {words : List String} (hw : words ⊆ typeAttributes) (t : SourceType) :
    IsTight (attributed words t) := by
  cases words with
  | nil => exact t.isTight_spelling
  | cons word words =>
    obtain ⟨heq, hne, hname⟩ := name_of_mem_typeAttributes word (hw List.mem_cons_self)
    have h := SourceType.isTight_append (SourceType.isTight_word ⟨_, hne, List.all_eq_true.1 hname⟩)
      t.isTight_spelling (' ' :: words.flatMap String.toList)
    rw [attributed, List.flatMap_cons, heq]
    simpa using h

theorem dropAttribute_attributed {words : List String} (hw : words ⊆ typeAttributes) {word : String}
    (h : word ∈ typeAttributes) (t : SourceType) :
    dropAttribute (attributed words t) word = attributed (dropWord words word) t := by
  cases words with
  | nil => exact dropAttribute_of_isBare (.spelling t) h
  | cons first words =>
    have hsplit : attributed (first :: words) t = first.toList ++ attributed words t := by
      simp [attributed]
    by_cases heq : first = word
    · subst heq
      rw [hsplit, dropAttribute_self, trimStart_eq_self
        (isTight_attributed (fun _ ho => hw (List.mem_cons_of_mem _ ho)) t).first]
      simp [dropWord]
    · rw [hsplit, dropAttribute_of_ne (hw List.mem_cons_self) h heq]
      simp [dropWord, heq, hsplit]

theorem coreType_attributed {words : List String} (hw : words ⊆ typeAttributes) (t : SourceType) :
    coreType (attributed words t) = attributed (typeAttributes.foldl dropWord words) t := by
  have hfold : ∀ table ⊆ typeAttributes, ∀ words ⊆ typeAttributes,
      table.foldl dropAttribute (attributed words t) =
      attributed (table.foldl dropWord words) t := by
    intro table htable
    induction table with
    | nil => exact fun _ _ => rfl
    | cons entry table ih =>
      intro words hw
      rw [List.foldl_cons, List.foldl_cons, dropAttribute_attributed hw (htable List.mem_cons_self),
        ih (fun _ ho => htable (List.mem_cons_of_mem _ ho)) _
          (List.Subset.trans (dropWord_subset words entry) hw)]
  rw [coreType, (isTight_attributed hw t).trim, hfold _ (List.Subset.refl _) _ hw]

theorem mem_of_lookup {name found : String} (h : simpleTypes.lookup name = some found) :
    (name, found) ∈ simpleTypes := by
  obtain ⟨before, after, heq, -⟩ := List.lookup_eq_some_iff.1 h
  rw [heq]
  exact List.mem_append_right _ List.mem_cons_self

theorem blank_not_mem_translatedName (w : Word) :
    ' ' ∉ (SourceType.translatedName (String.ofList w.chars)).toList := by
  have htable : ∀ entry ∈ simpleTypes, ' ' ∉ entry.2.toList := by
    decide
  rw [SourceType.translatedName]
  cases h : simpleTypes.lookup (String.ofList w.chars) with
  | none =>
    intro hblank
    exact absurd (w.isName ' ' (by simpa using hblank)) (by decide)
  | some found =>
    exact htable _ (mem_of_lookup h)

/-- A word that is not dropped makes a name that the table does not have. -/
theorem coreText_attributed {words : List String} (hw : words ⊆ typeAttributes) (hne : words ≠ [])
    (w : Word) : ' ' ∈ (coreText (attributed words (.name w))).toList := by
  have hwords : ∀ word ∈ typeAttributes, ' ' ∈ word.toList ∧
      word.toList.all fun c => isPlain c && c != '?' && c != '!' := by
    decide
  -- A name of the table has no blank in it, but every attribute ends in one.
  have htable : ∀ entry ∈ simpleTypes, ' ' ∉ entry.1.toList := by
    decide
  have hchars : ∀ c ∈ attributed words (.name w), isPlain c = true ∧ c ≠ '?' ∧ c ≠ '!' := by
    intro c hc
    rcases List.mem_append.1 hc with hc | hc
    · obtain ⟨word, hword, hc⟩ := List.mem_flatMap.1 hc
      simpa [and_assoc] using List.all_eq_true.1 (hwords word (hw hword)).2 c hc
    · have hname := w.isName c hc
      simp only [isNameChar, Bool.and_eq_true, bne_iff_ne] at hname
      exact ⟨hname.1.1.1, hname.1.2, hname.2⟩
  have hblank : ' ' ∈ attributed words (.name w) := by
    obtain ⟨word, hword⟩ := List.exists_mem_of_ne_nil words hne
    exact List.mem_append_left _ (List.mem_flatMap.2 ⟨word, hword, (hwords word (hw hword)).1⟩)
  have hlookup : simpleTypes.lookup (String.ofList (attributed words (.name w))) = none := by
    rw [Option.eq_none_iff_forall_ne_some]
    intro found hfound
    exact htable _ (mem_of_lookup hfound) (by simpa using hblank)
  rw [coreText_name (List.ne_nil_of_mem hblank) (fun c hc => (hchars c hc).1)
    ⟨fun hc => (hchars _ hc).2.1 rfl, fun hc => (hchars _ hc).2.2 rfl⟩, hlookup]
  simpa using hblank

/-- Attributes that stand in the order of the table, none of them twice, are ignored in front of
    every type.  Each is looked for only once, so in front of a name no other attributes are. -/
theorem typeText_attributed {words : List String} (hw : words ⊆ typeAttributes) :
    (words.Sublist typeAttributes →
        ∀ t : SourceType, typeText (String.join words ++ t.text) = typeText t.text) ∧
      ∀ w : Word, typeText (String.join words ++ (SourceType.name w).text) =
        typeText (SourceType.name w).text → words.Sublist typeAttributes := by
  have htext : ∀ t : SourceType, typeText (String.join words ++ t.text) =
      coreText (attributed (typeAttributes.foldl dropWord words) t) := by
    intro t
    rw [← coreType_attributed hw, ← typeChars_eq, typeText, String.toList_append,
      String.toList_join, SourceType.text, String.toList_ofList, attributed]
  constructor
  · intro h t
    rw [htext, foldl_dropWord_eq_nil_iff.2 h, typeText, SourceType.text, String.toList_ofList,
      t.typeChars_of_spelling]
    rfl
  · intro w h
    by_contra hsub
    rw [← foldl_dropWord_eq_nil_iff] at hsub
    -- An attribute that is left over leaves its blank in the name.
    have hblank := coreText_attributed (List.Subset.trans (foldl_dropWord_subset _ _) hw) hsub w
    rw [← htext, h, typeText, SourceType.text, String.toList_ofList, SourceType.spelling,
      SourceType.typeChars_word] at hblank
    exact blank_not_mem_translatedName w hblank

/-- The usual order of two attributes is not the one of the table. -/
theorem typeText_attributed_autoclosure :
    ["@autoclosure ", "@escaping "] ⊆ typeAttributes ∧
      ∀ w : Word, typeText (String.join ["@autoclosure ", "@escaping "] ++
        (SourceType.name w).text) ≠ typeText (SourceType.name w).text :=
  ⟨by decide, fun w h => absurd ((typeText_attributed (by decide)).2 w h) (by decide)⟩

end Ferry.Target
