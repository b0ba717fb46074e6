import PhraseTable.Proofs.Corpus
import PhraseTable.Proofs.PhraseGaps

/-!
# One vocabulary for corpora and phrases

A corpus and the phrases that are scored with it are read with one vocabulary, in any order. What
was read is told by the vocabulary at the end (`told_performAll`). The two readers agree on every
token but gap tokens: a phrase has a gap where a corpus has a word (`sharedVocabulary`). So a gap
token is stored just if it stands in a row of a corpus, whether the row was accepted or not.
-/

set_option autoImplicit false

namespace PhraseTable

/-- What can be read. -/
inductive ReadCall where
  | corpus (text : CorpusText) (alignment : Alignment)
  | build (source target alignment : String)
  | parse (line : String)

/-- What has been read, with the texts that were accepted. -/
structure SharedReadings where
  corpus : Corpus
  /-- The rows of the sentence pairs. -/
  rows : List SentenceRow
  /-- The phrase pairs with the texts of their phrases. -/
  pairs : List (String × String × PhrasePair)

namespace SharedReadings

/-- Nothing was read yet. -/
def empty : SharedReadings := ⟨.empty, [], []⟩

/-- The readings with the words of a phrase pair, and with the pair if it could be read. -/
def addPair (readings : SharedReadings) (source target : String)
    (read : Vocabulary × Except PhraseError PhrasePair) : SharedReadings :=
  { readings with
    corpus := { readings.corpus with vocabulary := read.1 }
    pairs := readings.pairs ++ read.2.toOption.toList.map fun pair => (source, target, pair) }

end SharedReadings

namespace ReadCall

/-- The rows whose words a call takes in. -/
def takenRows : ReadCall → List SentenceRow
  | .corpus text alignment => ((text.rows alignment).toOption.map SentenceRow.taken).getD []
  | _ => []

/-- The rows whose sentence pairs a call takes in. -/
def acceptedRows : ReadCall → List SentenceRow
  | .corpus text alignment => ((text.rows alignment).toOption.map SentenceRow.accepted).getD []
  | _ => []

/-- The words that a call takes in, whether it succeeds or fails. -/
def words : ReadCall → List String
  | call@(.corpus _ _) => call.takenRows.flatMap SentenceRow.words
  | .build source target _ => terminals (Text.tokens source) ++ terminals (Text.tokens target)
  | .parse line => PhrasePair.lineTerminals line

/-- The readings after a call. A call that fails still leaves its words. -/
def perform (readings : SharedReadings) : ReadCall → SharedReadings
  | call@(.corpus text alignment) =>
    { readings with
      corpus := (readings.corpus.readText text alignment).1
      rows := readings.rows ++ call.acceptedRows }
  | .build source target alignment =>
    readings.addPair source target
      (PhrasePair.build readings.corpus.vocabulary source target alignment)
  | .parse line =>
    readings.addPair ((Text.fields line).getD 0 "") ((Text.fields line).getD 1 "")
      (PhrasePair.parse readings.corpus.vocabulary line)

end ReadCall

namespace SharedReadings

/-- The readings after some calls. -/
def performAll (readings : SharedReadings) (calls : List ReadCall) : SharedReadings :=
  calls.foldl ReadCall.perform readings

/-- The tokens of the sentences, each with the symbol that it was read as. -/
def corpusSymbols (readings : SharedReadings) : List (String × Int) :=
  (readings.rows.zip readings.corpus.sentences.toList).flatMap fun read =>
    (Text.tokens read.1.1).zip read.2.source ++ (Text.tokens read.1.2.1).zip read.2.target

/-- The tokens of the phrases, each with the symbol that it was read as. -/
def phraseSymbols (readings : SharedReadings) : List (String × Int) :=
  readings.pairs.flatMap fun read =>
    (Text.tokens read.1).zip read.2.2.source ++ (Text.tokens read.2.1).zip read.2.2.target

/-! ## What the vocabulary tells -/

/-- All that was read is told by the vocabulary. -/
structure Told (readings : SharedReadings) : Prop where
  rows : SentenceRow.ReadAs readings.corpus.vocabulary.symbolOf readings.rows
    readings.corpus.sentences.toList
  known : ∀ row ∈ readings.rows, ∀ word ∈ row.words, word ∈ readings.corpus.vocabulary.words
  pairs : ∀ read ∈ readings.pairs,
    read.2.2.ReadFrom readings.corpus.vocabulary read.1 read.2.1

/-- More words and more rows do not change what is told of the rows before. -/
theorem Told.grow {readings : SharedReadings} (h : readings.Told) {after : Corpus}
    {words : List String} {rows : List SentenceRow}
    (hgrown : Corpus.GrownBy readings.corpus after words rows)
    (hrows : ∀ row ∈ rows, ∀ word ∈ row.words, word ∈ words) :
    Told ⟨after, readings.rows ++ rows, readings.pairs⟩ where
  rows := by
    obtain ⟨sentences, hread, hafter⟩ := hgrown.sentences after.vocabulary (.refl _)
    have hold : SentenceRow.ReadAs after.vocabulary.symbolOf readings.rows
        readings.corpus.sentences.toList := by
      refine ((List.forall₂_and_left _ _).2 ⟨h.known, h.rows⟩).imp fun row sentence hrow => ?_
      rw [← hrow.2]
      exact SentenceRow.sentenceOf_congr fun word hword =>
        hgrown.keeps.symbolOf (hrow.1 word hword)
    show SentenceRow.ReadAs _ (readings.rows ++ rows) after.sentences.toList
    rw [hafter]
    exact List.rel_append hold hread
  known := by
    intro row hrow word hword
    rw [hgrown.mem_words]
    rcases List.mem_append.1 hrow with hold | hnew
    · exact Or.inl (h.known row hold word hword)
    · exact Or.inr (hrows row hnew word hword)
  pairs read hread := (h.pairs read hread).extend hgrown.keeps

/-- One more phrase pair is told by the vocabulary. -/
theorem Told.addPair {readings : SharedReadings} (h : readings.Told) {source target : String}
    {read : Vocabulary × Except PhraseError PhrasePair} {words : List String}
    (hgrown : Corpus.GrownBy readings.corpus { readings.corpus with vocabulary := read.1 } words [])
    (hread : ∀ {vocabulary : Vocabulary} {pair : PhrasePair}, read = (vocabulary, .ok pair) →
      pair.ReadFrom vocabulary source target) :
    (readings.addPair source target read).Told := by
  have hbefore := h.grow hgrown (by simp)
  rw [List.append_nil] at hbefore
  refine ⟨hbefore.rows, hbefore.known, fun other hother => ?_⟩
  rcases List.mem_append.1 hother with hold | hnew
  · exact hbefore.pairs other hold
  · obtain ⟨pair, hpair, rfl⟩ := List.mem_map.1 hnew
    obtain ⟨vocabulary, error | found⟩ := read
    · cases hpair
    · rw [List.mem_singleton.1 hpair]
      exact hread rfl

end SharedReadings

namespace ReadCall

/-- A call takes in its own words and rows. -/
theorem grownBy_perform (readings : SharedReadings) (call : ReadCall) :
    Corpus.GrownBy readings.corpus (call.perform readings).corpus call.words
      call.acceptedRows := by
  cases call with
  | corpus text alignment =>
    show Corpus.GrownBy _ (readings.corpus.readText text alignment).1
      ((takenRows (.corpus text alignment)).flatMap SentenceRow.words) _
    rw [Corpus.readText_eq]
    unfold takenRows acceptedRows
    dsimp only
    cases text.rows alignment with
    | error error => exact .refl readings.corpus
    | ok rows => exact (readings.corpus.addSentences_spec 1 rows).1
  | build source target alignment =>
    exact .of_vocabulary (PhrasePair.extends_build _ source target alignment)
      fun _ => PhrasePair.mem_words_build
  | parse line =>
    exact .of_vocabulary (PhrasePair.extends_parse _ line) fun _ => PhrasePair.mem_words_parse

/-- A call leaves all that was read told by the vocabulary. -/
theorem told_perform {readings : SharedReadings} (h : readings.Told) (call : ReadCall) :
    (call.perform readings).Told := by
  have hgrown := grownBy_perform readings call
  cases call with
  | corpus text alignment =>
    refine h.grow hgrown fun row hrow word hword => List.mem_flatMap.2 ⟨row, ?_, hword⟩
    revert hrow
    unfold takenRows acceptedRows
    dsimp only
    cases text.rows alignment with
    | error error => exact nofun
    | ok rows => exact fun hrow => SentenceRow.accepted_subset_taken rows hrow
  | build source target alignment =>
    exact h.addPair hgrown PhrasePair.readFrom_build
  | parse line =>
    refine h.addPair hgrown fun hparse => ?_
    obtain ⟨source, target, alignment, hfields, hread⟩ := PhrasePair.exists_readFrom hparse
    rw [hfields]
    exact hread

end ReadCall

namespace SharedReadings

/-- Before any call there is nothing to tell. -/
theorem told_empty : empty.Told where
  rows := .nil
  known := nofun
  pairs := nofun

/-- Calls take in their own words and rows. -/
theorem grownBy_performAll (readings : SharedReadings) (calls : List ReadCall) :
    Corpus.GrownBy readings.corpus (readings.performAll calls).corpus
      (calls.flatMap ReadCall.words) (calls.flatMap ReadCall.acceptedRows) := by
  induction calls generalizing readings with
  | nil => exact .refl readings.corpus
  | cons call rest ih => exact (call.grownBy_perform readings).trans (ih (call.perform readings))

/-- After any calls, all that was read is told by the vocabulary. -/
theorem told_performAll {readings : SharedReadings} (h : readings.Told) (calls : List ReadCall) :
    (readings.performAll calls).Told := by
  induction calls generalizing readings with
  | nil => exact h
  | cons call rest ih => exact ih (call.told_perform h)

/-! ## Tokens and their symbols -/

variable {readings : SharedReadings} {token : String} {symbol : Int}

/-- A token of a sentence is stored, and has its symbol. -/
theorem Told.corpusSymbols (h : readings.Told) (hread : (token, symbol) ∈ readings.corpusSymbols) :
    token ∈ readings.corpus.vocabulary.words ∧
      symbol = readings.corpus.vocabulary.symbolOf token := by
  obtain ⟨⟨row, sentence⟩, hmem, htoken⟩ := List.mem_flatMap.1 hread
  have hrow := List.forall₂_zip h.rows hmem
  have hknown := h.known row (List.of_mem_zip hmem).1
  obtain ⟨hsource, htarget, -⟩ := AlignedPair.ofLinks_eq_ok hrow
  dsimp only at htoken
  rw [hsource, htarget, ← List.map_prod_left_eq_zip, ← List.map_prod_left_eq_zip,
    List.mem_append] at htoken
  rcases htoken with htoken | htoken
  · obtain ⟨word, hword, heq⟩ := List.mem_map.1 htoken
    cases heq
    exact ⟨hknown _ (List.mem_append_right _ hword), rfl⟩
  · obtain ⟨word, hword, heq⟩ := List.mem_map.1 htoken
    cases heq
    exact ⟨hknown _ (List.mem_append_left _ hword), rfl⟩

/-- A token of a phrase has a negative symbol if it marks a gap, and else the symbol of a word. -/
theorem mem_zip_symbols_phraseOf {symbolOf : String → Int} {gaps : Nat} {tokens : List String}
    (h : (token, symbol) ∈ tokens.zip (phraseOf symbolOf gaps tokens).symbols) :
    (isGapToken token = true → symbol < 0) ∧
      (isGapToken token = false → symbol = symbolOf token) := by
  induction tokens generalizing gaps with
  | nil => cases h
  | cons first rest ih =>
    by_cases hgap : isGapToken first
    · rw [symbols_phraseOf_of_gap hgap, List.zip_cons_cons, List.mem_cons] at h
      obtain heq | h := h
      · cases heq
        refine ⟨fun _ => ?_, fun hword => absurd hgap (by simp [hword])⟩
        unfold gapSymbol
        omega
      · exact ih h
    · rw [symbols_phraseOf_of_word hgap, List.zip_cons_cons, List.mem_cons] at h
      obtain heq | h := h
      · cases heq
        exact ⟨fun hmark => absurd hmark hgap, fun _ => rfl⟩
      · exact ih h

/-- A gap of a phrase has a negative symbol, and a word has its own. -/
theorem Told.phraseSymbols (h : readings.Told) (hread : (token, symbol) ∈ readings.phraseSymbols) :
    (isGapToken token = true → symbol < 0) ∧
      (isGapToken token = false → symbol = readings.corpus.vocabulary.symbolOf token) := by
  obtain ⟨⟨source, target, pair⟩, hmem, htoken⟩ := List.mem_flatMap.1 hread
  have hpair : pair.ReadFrom readings.corpus.vocabulary source target := h.pairs _ hmem
  dsimp only at htoken
  rw [hpair.source_eq, hpair.target_eq, List.mem_append] at htoken
  exact htoken.elim mem_zip_symbols_phraseOf mem_zip_symbols_phraseOf

/-! ## Gap tokens -/

/-- A gap is none of the words of a phrase. -/
theorem not_mem_terminals (h : isGapToken token = true) (tokens : List String) :
    token ∉ terminals tokens := by
  intro hmem
  have hword : isGapToken token = false := by simpa using (List.mem_filter.1 hmem).2
  rw [hword] at h
  cases h

/-- A gap is none of the words of a line. -/
theorem not_mem_lineTerminals (h : isGapToken token = true) (line : String) :
    token ∉ PhrasePair.lineTerminals line := by
  unfold PhrasePair.lineTerminals
  split
  · rw [List.mem_append, not_or]
    exact ⟨not_mem_terminals h _, not_mem_terminals h _⟩
  · exact List.not_mem_nil

/-- The words that a call takes in from phrases mark no gaps. -/
theorem gapToken_mem_words_iff (h : isGapToken token = true) (call : ReadCall) :
    token ∈ call.words ↔ ∃ row ∈ call.takenRows, token ∈ row.words := by
  cases call with
  | corpus text alignment => exact List.mem_flatMap
  | build source target alignment =>
    refine iff_of_false (fun hmem => ?_) nofun
    rcases List.mem_append.1 hmem with hsource | htarget
    · exact not_mem_terminals h _ hsource
    · exact not_mem_terminals h _ htarget
  | parse line => exact iff_of_false (not_mem_lineTerminals h line) nofun

/-- Of the tokens that mark gaps, those are stored that stand in rows of a corpus. -/
theorem gapToken_mem_vocabulary_iff (h : isGapToken token = true) (calls : List ReadCall) :
    token ∈ (empty.performAll calls).corpus.vocabulary.words ↔
      ∃ call ∈ calls, ∃ row ∈ call.takenRows, token ∈ row.words := by
  have hnull : token ∉ empty.corpus.vocabulary.words := by
    show token ∉ Vocabulary.empty.words
    rw [Vocabulary.words_empty, List.mem_singleton]
    rintro rfl
    cases h
  rw [(empty.grownBy_performAll calls).mem_words, or_iff_right hnull, List.mem_flatMap]
  simp only [gapToken_mem_words_iff h]

/-- All that was read is told by the vocabulary. It has no gap token just if none stands in a row of
a corpus, and a token of a sentence has the same symbol in a phrase just if it is no gap token. -/
theorem sharedVocabulary (calls : List ReadCall) :
    (empty.performAll calls).Told ∧
    ((∀ word ∈ (empty.performAll calls).corpus.vocabulary.words, isGapToken word = false) ↔
      ∀ call ∈ calls, ∀ row ∈ call.takenRows, ∀ word ∈ row.words, isGapToken word = false) ∧
    ∀ (token : String) (symbol symbol' : Int),
      (token, symbol) ∈ (empty.performAll calls).corpusSymbols →
      (token, symbol') ∈ (empty.performAll calls).phraseSymbols →
      (symbol' = symbol ↔ isGapToken token = false) := by
  have htold := told_performAll told_empty calls
  refine ⟨htold, ⟨?_, ?_⟩, ?_⟩
  · intro hstored call hcall row hrow word hword
    by_contra hmark
    rw [Bool.not_eq_false] at hmark
    have hmem := (gapToken_mem_vocabulary_iff hmark calls).2 ⟨call, hcall, row, hrow, hword⟩
    rw [hstored word hmem] at hmark
    cases hmark
  · intro hrows word hmem
    by_contra hmark
    rw [Bool.not_eq_false] at hmark
    obtain ⟨call, hcall, row, hrow, hword⟩ := (gapToken_mem_vocabulary_iff hmark calls).1 hmem
    rw [hrows call hcall row hrow word hword] at hmark
    cases hmark
  · intro token symbol symbol' hcorpus hphrase
    obtain ⟨hmem, rfl⟩ := htold.corpusSymbols hcorpus
    obtain ⟨hgap, hword⟩ := htold.phraseSymbols hphrase
    have hnonneg := Vocabulary.symbolOf_nonneg hmem
    cases hmark : isGapToken token with
    | true =>
      have hneg := hgap hmark
      exact iff_of_false (by omega) nofun
    | false => exact iff_of_true (hword hmark) rfl

/-- A corpus, a pair that is refused for its link, and a phrase with the word of the corpus next to
a gap. The word has one symbol in both. -/
theorem sharedVocabulary_word :
    ∃ calls : List ReadCall,
      calls = [.corpus (.bitext "a ||| x y") [[⟨0, 1⟩]], .build "z" "[X]" "3-3",
        .parse "[X] a ||| x ||| 1-0"] ∧
      ("a", 3) ∈ (empty.performAll calls).corpusSymbols ∧
      ("a", 3) ∈ (empty.performAll calls).phraseSymbols ∧ isGapToken "a" = false := by
  have hcorpus : ("a", 3) ∈ (empty.performAll [.corpus (.bitext "a ||| x y") [[⟨0, 1⟩]],
      .build "z" "[X]" "3-3", .parse "[X] a ||| x ||| 1-0"]).corpusSymbols := by
    decide +kernel
  have hphrase : ("a", 3) ∈ (empty.performAll [.corpus (.bitext "a ||| x y") [[⟨0, 1⟩]],
      .build "z" "[X]" "3-3", .parse "[X] a ||| x ||| 1-0"]).phraseSymbols := by
    decide +kernel
  exact ⟨_, rfl, hcorpus, hphrase, ((sharedVocabulary _).2.2 "a" 3 3 hcorpus hphrase).1 rfl⟩

/-- A corpus has a word where a phrase has a gap, and the word is stored. -/
theorem gapToken_stored :
    ∃ calls : List ReadCall,
      calls = [.corpus (.sides "[X]" "x") [[⟨0, 0⟩]], .parse "[X] ||| x ||| 0-0"] ∧
      (empty.performAll calls).corpus.vocabulary.words = ["NULL", "x", "[X]"] ∧
      isGapToken "[X]" = true ∧
      (empty.performAll calls).corpusSymbols = [("[X]", 2), ("x", 1)] ∧
      (empty.performAll calls).phraseSymbols = [("[X]", -1), ("x", 1)] := by
  refine ⟨_, rfl, ?_⟩
  decide +kernel

end SharedReadings

end PhraseTable
