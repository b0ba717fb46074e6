import PhraseTable.Proofs.PhraseAlignment
import PhraseTable.Proofs.PhraseReader
import PhraseTable.Proofs.Text.Fields

/-!
# Reading printed phrase pairs back

A phrase is printed with the tokens that it was read from, but its gaps are written as they are
counted (`renumbered`). Such a text is cut into the same tokens again, it has no group of bars in
it, and its gaps are counted as before. So a phrase that was read is `ReadBack` from its text, and
a pair from the text of its parts (`ReadBack.build`) and from its line (`parse_text_parse`).
-/

set_option autoImplicit false

namespace PhraseTable

/-! ## Gaps as they are printed -/

/-- A gap is printed as its mark in brackets. -/
theorem toList_gapText (symbol : Int) :
    (Surface.gapText symbol).toList = ['[', 'X', ','] ++ (toString (-symbol)).toList ++ [']'] := by
  unfold Surface.gapText
  rw [String.toList_append, String.toList_append]
  rfl

/-- A printed gap has no characters but digits, brackets, the letter, the comma and maybe a dash. -/
theorem mem_gapText {symbol : Int} {c : Char} (h : c ∈ (Surface.gapText symbol).toList) :
    c.isDigit = true ∨ c ∈ ['[', 'X', ',', ']', '-'] := by
  rw [toList_gapText, List.mem_append, List.mem_append] at h
  obtain (h | h) | h := h
  · exact Or.inr (List.mem_append_left [']', '-'] h)
  · obtain hdigit | rfl := Number.mem_toString h
    · exact Or.inl hdigit
    · exact Or.inr (by simp)
  · exact Or.inr (by simp [List.mem_singleton.1 h])

/-- A printed gap is read as a gap. -/
theorem isGapToken_gapText (symbol : Int) : isGapToken (Surface.gapText symbol) = true := by
  have hlast : (['X', ','] ++ (toString (-symbol)).toList ++ [']']).getLast? = some ']' :=
    List.getLast?_concat
  unfold isGapToken
  rw [toList_gapText]
  simpa using hlast

/-- There is no white space in a printed gap. -/
theorem solid_gapText (symbol : Int) : Text.Solid (Surface.gapText symbol).toList := by
  refine ⟨by simp [toList_gapText], ?_⟩
  intro c hc
  rcases mem_gapText hc with hdigit | hmark
  · exact Number.isBlank_of_isDigit hdigit
  · simp only [List.mem_cons, List.not_mem_nil, or_false] at hmark
    rcases hmark with rfl | rfl | rfl | rfl | rfl <;> rfl

/-- There are no bars in a printed gap. -/
theorem noBars_gapText (symbol : Int) : Text.NoBars (Surface.gapText symbol).toList := by
  apply Text.noBars_of_not_mem
  intro hbar
  rcases mem_gapText hbar with hdigit | hmark
  · cases hdigit
  · simp at hmark

/-! ## Phrases as they are printed -/

/-- The tokens of a phrase behind a number of gaps, with the gaps as they are printed. -/
def renumbered (gaps : Nat) : List String → List String
  | [] => []
  | token :: rest =>
    if isGapToken token then
      Surface.gapText (gapSymbol ((gaps : Int) + 1)) :: renumbered (gaps + 1) rest
    else token :: renumbered gaps rest

/-- A phrase is printed as its tokens with the gaps numbered, if no word has the symbol of a gap. -/
theorem surface_phraseOf {symbolOf : String → Int} {tokens : List String}
    (h : ∀ word ∈ terminals tokens, 0 ≤ symbolOf word) (gaps : Nat) :
    Surface.surface (phraseOf symbolOf gaps tokens).symbols (terminals tokens) =
      renumbered gaps tokens := by
  induction tokens generalizing gaps with
  | nil => rfl
  | cons token rest ih =>
    unfold phraseOf renumbered
    split
    · rename_i hgap
      have hterminals := terminals_cons_of_gap hgap rest
      have hisGap : Surface.isGap (gapSymbol ((gaps : Int) + 1)) = true := by
        unfold Surface.isGap gapSymbol
        rw [decide_eq_true_iff]
        omega
      rw [hterminals] at h ⊢
      unfold Surface.surface
      rw [if_pos hisGap, ih h]
    · -- a word whose symbol were negative would be printed as a gap
      rename_i hword
      have hterminals := terminals_cons_of_word hword rest
      rw [hterminals, List.forall_mem_cons] at h
      have hisGap : ¬Surface.isGap (symbolOf token) = true := by
        unfold Surface.isGap
        rw [decide_eq_true_iff]
        omega
      rw [hterminals, Surface.surface, if_neg hisGap, ih h.2]

/-- The text of a phrase is these tokens with spaces between them. -/
theorem text_phraseOf {symbolOf : String → Int} {tokens : List String}
    (h : ∀ word ∈ terminals tokens, 0 ≤ symbolOf word) :
    Surface.text (phraseOf symbolOf 0 tokens).symbols (terminals tokens) =
      " ".intercalate (renumbered 0 tokens) := by
  unfold Surface.text
  rw [surface_phraseOf h]

/-- The gaps of a printed phrase are counted as before. -/
theorem phraseOf_renumbered (symbolOf : String → Int) (gaps : Nat) (tokens : List String) :
    phraseOf symbolOf gaps (renumbered gaps tokens) = phraseOf symbolOf gaps tokens := by
  induction tokens generalizing gaps with
  | nil => rfl
  | cons token rest ih =>
    unfold renumbered
    by_cases hgap : isGapToken token
    · rw [if_pos hgap]
      unfold phraseOf
      rw [if_pos hgap, if_pos (isGapToken_gapText _), ih]
    · rw [if_neg hgap]
      unfold phraseOf
      rw [if_neg hgap, if_neg hgap, ih]

/-- Numbering the gaps makes no tokens but printed gaps. -/
theorem mem_renumbered {gaps : Nat} {tokens : List String} {token : String}
    (h : token ∈ renumbered gaps tokens) :
    token ∈ tokens ∨ ∃ symbol : Int, token = Surface.gapText symbol := by
  induction tokens generalizing gaps with
  | nil => cases h
  | cons first rest ih =>
    unfold renumbered at h
    split at h
    · rcases List.mem_cons.1 h with rfl | h
      · exact Or.inr ⟨gapSymbol ((gaps : Int) + 1), rfl⟩
      · exact (ih h).imp_left (List.mem_cons_of_mem first)
    · rcases List.mem_cons.1 h with rfl | h
      · exact Or.inl List.mem_cons_self
      · exact (ih h).imp_left (List.mem_cons_of_mem first)

/-- Every token stays as it is or becomes a solid one. -/
theorem forall₂_renumbered (gaps : Nat) (tokens : List String) :
    List.Forall₂ Text.ReplacedBy (tokens.map String.toList)
      ((renumbered gaps tokens).map String.toList) := by
  induction tokens generalizing gaps with
  | nil => exact .nil
  | cons token rest ih =>
    unfold renumbered
    split
    · exact .cons (Or.inr (solid_gapText _)) (ih (gaps + 1))
    · exact .cons (Or.inl rfl) (ih gaps)

/-- The phrase with these symbols and words is read back from its text, if words have these
symbols. -/
structure ReadBack (symbolOf : String → Int) (symbols : List Int) (words : List String) : Prop where
  phraseOf : phraseOf symbolOf 0 (Text.tokens (Surface.text symbols words)) = ⟨symbols, words⟩
  trim : Text.trim (Surface.text symbols words) = Surface.text symbols words
  noBars : Text.NoBars (Surface.text symbols words).toList

/-- A phrase that was read is read back, if none of its words has the symbol of a gap. -/
theorem readBack_phraseOf {symbolOf : String → Int} {field : String}
    (hbars : Text.NoBars field.toList)
    (h : ∀ word ∈ terminals (Text.tokens field), 0 ≤ symbolOf word) :
    ReadBack symbolOf (phraseOf symbolOf 0 (Text.tokens field)).symbols
      (terminals (Text.tokens field)) := by
  have hwords := (Text.isWords_tokens field).replace (forall₂_renumbered 0 (Text.tokens field))
  have htext := text_phraseOf h
  refine ⟨?_, ?_, ?_⟩
  · rw [htext, Text.tokens_intercalate hwords, phraseOf_renumbered, ← words_phraseOf symbolOf 0]
  · rw [htext]
    exact Text.trim_intercalate hwords
  · rw [htext, String.toList_intercalate]
    apply Text.noBars_intercalate
    rw [List.forall_mem_map]
    intro token htoken
    obtain hold | ⟨symbol, rfl⟩ := mem_renumbered htoken
    · exact Text.noBars_of_mem_tokens hbars hold
    · exact noBars_gapText symbol

/-- What is printed for a phrase is a word, a gap or a symbol without a word. -/
theorem mem_surface {symbols : List Int} {words : List String} {token : String}
    (h : token ∈ Surface.surface symbols words) :
    token ∈ words ∨ ∃ symbol : Int, token = Surface.gapText symbol ∨ token = toString symbol := by
  induction symbols generalizing words with
  | nil => cases h
  | cons symbol rest ih =>
    unfold Surface.surface at h
    split at h
    · rcases List.mem_cons.1 h with rfl | h
      · exact Or.inr ⟨symbol, Or.inl rfl⟩
      · exact ih h
    · cases words with
      | nil =>
        rcases List.mem_cons.1 h with rfl | h
        · exact Or.inr ⟨symbol, Or.inr rfl⟩
        · exact ih h
      | cons word words =>
        rcases List.mem_cons.1 h with rfl | h
        · exact Or.inl List.mem_cons_self
        · exact (ih h).imp_left (List.mem_cons_of_mem word)

/-- A line feed in a printed phrase stands in one of its words. -/
theorem feed_not_mem_text {symbols : List Int} {words : List String}
    (h : ∀ word ∈ words, '\n' ∉ word.toList) : '\n' ∉ (Surface.text symbols words).toList := by
  intro hfeed
  unfold Surface.text at hfeed
  rw [String.toList_intercalate] at hfeed
  obtain hspace | ⟨chars, hchars, hfeed⟩ := Text.mem_intercalate hfeed
  · cases hspace
  · obtain ⟨token, htoken, rfl⟩ := List.mem_map.1 hchars
    obtain hword | ⟨symbol, rfl | rfl⟩ := mem_surface htoken
    · exact h token hword hfeed
    · rcases mem_gapText hfeed with hdigit | hmark
      · cases hdigit
      · simp at hmark
    · rcases Number.mem_toString hfeed with hdigit | hdash
      · cases hdigit
      · cases hdash

/-! ## Phrase pairs as they are printed -/

namespace PhrasePair

/-- The pair is read back from its text, if words have these symbols. -/
structure ReadBack (symbolOf : String → Int) (pair : PhrasePair) : Prop where
  source : PhraseTable.ReadBack symbolOf pair.source pair.sourceWords
  target : PhraseTable.ReadBack symbolOf pair.target pair.targetWords
  links : ∀ link ∈ pair.links, link.raw.Fits

/-- A pair that was read is read back, if no word has the symbol of a gap. -/
theorem readBack_of_ofLine {symbolOf : String → Int} {line : String} {pair : PhrasePair}
    (h : ofLine symbolOf line = .ok pair)
    (hwords : ∀ word ∈ lineTerminals line, 0 ≤ symbolOf word) : pair.ReadBack symbolOf := by
  obtain ⟨source, target, alignment, hfields, raws, hraws, hparts⟩ := exists_parts h
  unfold lineTerminals at hwords
  rw [hfields] at hwords
  dsimp only at hwords
  rw [List.forall_mem_append] at hwords
  have hbars : ∀ field ∈ [source, target, alignment], Text.NoBars field.toList :=
    fun field hfield => (Text.infix_of_mem_fields (hfields ▸ hfield)).2
  refine ⟨?_, ?_, ?_⟩
  · rw [hparts.source_eq, hparts.sourceWords_eq]
    exact readBack_phraseOf (hbars source (by simp)) hwords.1
  · rw [hparts.target_eq, hparts.targetWords_eq]
    exact readBack_phraseOf (hbars target (by simp)) hwords.2
  · intro link hlink
    apply PhraseAlignment.fits_of_parse (Number.wrapped_le _) hraws
    exact (hparts.mem_links link).1 hlink

/-- A pair is printed as three fields. -/
theorem text_eq_intercalate (pair : PhrasePair) :
    pair.text = " ||| ".intercalate [pair.sourceText, pair.targetText, pair.linkText] := by
  rw [← String.toList_inj, String.toList_intercalate]
  simp [text, List.intercalate_cons_cons]

namespace ReadBack

variable {symbolOf : String → Int} {vocabulary : Vocabulary} {pair : PhrasePair}

/-- There are no bars in printed links. -/
theorem noBars_linkText (pair : PhrasePair) : Text.NoBars pair.linkText.toList := by
  apply Text.noBars_of_not_mem
  intro hbar
  rcases PhraseAlignment.mem_texts hbar with hdigit | hdash | hspace
  · cases hdigit
  · cases hdash
  · cases hspace

/-- There is no white space around printed links. -/
theorem trim_linkText (pair : PhrasePair) : Text.trim pair.linkText = pair.linkText := by
  apply Text.trim_intercalate
  apply Text.isWords_of_solid
  rw [List.map_map, List.forall_mem_map]
  exact fun link _ => PhraseAlignment.solid_text link

/-- The parts of a pair are the fields of any line that they begin. -/
theorem fields_parts (h : pair.ReadBack symbolOf) {more : List String}
    (hmore : ∀ part ∈ more, Text.NoBars part.toList) :
    Text.fields
        (" ||| ".intercalate (pair.sourceText :: pair.targetText :: pair.linkText :: more)) =
      pair.sourceText :: pair.targetText :: pair.linkText :: more.map Text.trim := by
  have hbars : ∀ part ∈ pair.sourceText :: pair.targetText :: pair.linkText :: more,
      Text.NoBars part.toList := by
    simp only [List.forall_mem_cons]
    exact ⟨h.source.noBars, h.target.noBars, noBars_linkText pair, hmore⟩
  have hsource : Text.trim pair.sourceText = pair.sourceText := h.source.trim
  have htarget : Text.trim pair.targetText = pair.targetText := h.target.trim
  rw [Text.fields_intercalate (List.cons_ne_nil _ _) hbars, List.map_cons, List.map_cons,
    List.map_cons, hsource, htarget, trim_linkText]

/-- A pair that is read back is built from its phrases and its printed links again. -/
theorem ofPhrases (h : pair.ReadBack symbolOf) :
    ofPhrases ⟨pair.source, pair.sourceWords⟩ ⟨pair.target, pair.targetWords⟩ pair.linkText =
      .ok (pair.withIds .unassigned) := by
  have hlinks := PhraseAlignment.parse_text h.links (Number.wrapped pair.source.length)
  have haligned := AlignedPair.ofLinks_links pair.toAlignedPair
  have hbuilt : ofLinks pair.source pair.target pair.sourceWords pair.targetWords
      (pair.links.map Link.raw) = .ok (pair.withIds .unassigned) :=
    ofLinks_eq_ok_iff.2 ⟨haligned, rfl, rfl, rfl⟩
  unfold PhrasePair.ofPhrases AlignedPair.linkText
  rw [hlinks]
  dsimp only
  rw [hbuilt]
  rfl

/-- A pair is rebuilt from its parts, and its words are known already. -/
theorem build (h : pair.ReadBack vocabulary.symbolOf)
    (hwords : ∀ word ∈ pair.sourceWords ++ pair.targetWords, word ∈ vocabulary.words) :
    build vocabulary pair.sourceText pair.targetText pair.linkText =
      (vocabulary, .ok (pair.withIds .unassigned)) := by
  have hread : ∀ {symbols : List Int} {words : List String},
      PhraseTable.ReadBack vocabulary.symbolOf symbols words →
      (∀ word ∈ words, word ∈ vocabulary.words) →
      vocabulary.readPhrase (Surface.text symbols words) = (vocabulary, ⟨symbols, words⟩) := by
    intro symbols words hback hknown
    have hterminals : terminals (Text.tokens (Surface.text symbols words)) = words := by
      rw [← words_phraseOf vocabulary.symbolOf 0, hback.phraseOf]
    unfold Vocabulary.readPhrase
    rw [Vocabulary.internPhrase_of_mem (by rwa [hterminals]), hback.phraseOf]
  rw [List.forall_mem_append] at hwords
  have hsource : vocabulary.readPhrase pair.sourceText = _ := hread h.source hwords.1
  have htarget : vocabulary.readPhrase pair.targetText = _ := hread h.target hwords.2
  unfold PhrasePair.build
  rw [hsource]
  dsimp only
  rw [htarget]
  dsimp only
  rw [h.ofPhrases]

/-- A pair that is read back is parsed from its text, and the vocabulary stays as it is if it has
the words. -/
theorem parse (h : pair.ReadBack vocabulary.symbolOf)
    (hwords : ∀ word ∈ pair.sourceWords ++ pair.targetWords, word ∈ vocabulary.words) :
    parse vocabulary pair.text = (vocabulary, .ok (pair.withIds .unassigned)) := by
  have hfields : Text.fields pair.text = [pair.sourceText, pair.targetText, pair.linkText] := by
    rw [text_eq_intercalate]
    exact h.fields_parts (by simp)
  unfold PhrasePair.parse
  rw [hfields]
  exact h.build hwords

end ReadBack

/-- There is no line break in printed links. -/
theorem feed_not_mem_linkText (pair : PhrasePair) : '\n' ∉ pair.linkText.toList := by
  intro hfeed
  rcases PhraseAlignment.mem_texts hfeed with hdigit | hdash | hspace
  · cases hdigit
  · cases hdash
  · cases hspace

/-- The words of a line have no characters but those of the line. -/
theorem mem_of_mem_lineTerminals {line word : String} (h : word ∈ lineTerminals line) {c : Char}
    (hc : c ∈ word.toList) : c ∈ line.toList := by
  have hfield : ∃ field ∈ Text.fields line, word ∈ Text.tokens field := by
    unfold lineTerminals at h
    split at h
    · rename_i source target alignment hfields
      rw [hfields]
      rcases List.mem_append.1 h with h | h
      · exact ⟨source, by simp, (List.mem_filter.1 h).1⟩
      · exact ⟨target, by simp, (List.mem_filter.1 h).1⟩
    · cases h
  obtain ⟨field, hmem, hword⟩ := hfield
  exact (Text.infix_of_mem_fields hmem).1.subset (Text.mem_of_mem_tokens hword hc)

/-- **A printed pair is read back.** Whatever line a pair was read from, the line that is printed
for it holds the same pair, and no new word. -/
theorem parse_text_parse {vocabulary after : Vocabulary} {line : String} {pair : PhrasePair}
    (h : parse vocabulary line = (after, .ok pair)) :
    parse after pair.text = (after, .ok pair) ∧ pair.ids = .unassigned := by
  have hafter : (parse vocabulary line).1 = after := congrArg Prod.fst h
  have hextends : after.Extends (parse vocabulary line).1 := by
    rw [hafter]
    exact .refl after
  have hline : ofLine after.symbolOf line = .ok pair := by
    rw [← parse_eq_ofLine hextends]
    exact congrArg Prod.snd h
  have hknown : ∀ word ∈ lineTerminals line, word ∈ after.words := by
    intro word hword
    rw [← hafter]
    exact mem_words_parse.2 (Or.inr hword)
  have hback : pair.ReadBack after.symbolOf := by
    apply readBack_of_ofLine hline
    intro word hword
    obtain ⟨id, -, -, hid⟩ := Vocabulary.exists_symbolOf (hknown word hword)
    omega
  have hids := ids_of_ofLine hline
  have hparsed := hback.parse (by rwa [words_of_ofLine hline])
  refine ⟨?_, hids⟩
  rw [hparsed, ← hids]
  rfl

/-- Both gaps get the number one, and links in lists are printed with dashes and without the
repetition. -/
theorem parse_text_parse_lists :
    ∃ (after : Vocabulary) (pair : PhrasePair),
      parse .empty "[a] das| ||| || [b] ||| (1) (0,0)" = (after, .ok pair) ∧
        pair.text = "[X,1] das| ||| || [X,1] ||| 0-1 1-0" ∧
        parse after pair.text = (after, .ok pair) := by
  have htext : ((parse .empty "[a] das| ||| || [b] ||| (1) (0,0)").2.map text).toOption =
      some "[X,1] das| ||| || [X,1] ||| 0-1 1-0" := by decide +kernel
  cases hparse : parse .empty "[a] das| ||| || [b] ||| (1) (0,0)" with
  | mk after outcome =>
    rw [hparse] at htext
    cases outcome with
    | error error => cases htext
    | ok pair => exact ⟨after, pair, rfl, Option.some.inj htext, (parse_text_parse hparse).1⟩

end PhrasePair

end PhraseTable
