import PhraseTable.Proofs.Corpus
import PhraseTable.Proofs.LinkLists
import PhraseTable.Proofs.PhraseIndex

/-!
# What a reading of a corpus leaves behind

A corpus may be read into in several parts, and any part may fail. A text that does not come to rows
changes nothing. Rows are taken in one by one, and each of them leaves its words behind before its
links are looked at, so the words of the row that stops the reading stay although its sentence pair
does not. `words_internAll` says where new words go, `snd_addSentences_of_first_outside` how far
rows are read, and `readText_outcome` puts the stages together: every outcome of a reading tells
what the corpus is afterwards.
-/

set_option autoImplicit false

namespace PhraseTable

/-! ## New words -/

namespace Vocabulary

/-- The words that the vocabulary has not, in the order in which they first occur. -/
def newWords (vocabulary : Vocabulary) (words : List String) : List String :=
  firstsBy id vocabulary.words words

/-- A new word goes behind the others, and a known one changes nothing. -/
theorem words_intern (vocabulary : Vocabulary) (word : String) :
    (vocabulary.intern word).1.words =
      if word ∈ vocabulary.words then vocabulary.words else vocabulary.words ++ [word] := by
  unfold words
  rw [(vocabulary.intern_eq word).1, DenseIndex.toList_insert]

/-- New words stand behind the old ones. -/
theorem words_internAll (vocabulary : Vocabulary) (words : List String) :
    (vocabulary.internAll words).1.words = vocabulary.words ++ vocabulary.newWords words := by
  induction words generalizing vocabulary with
  | nil => simp [internAll, newWords, firstsBy]
  | cons word rest ih =>
    show ((vocabulary.intern word).1.internAll rest).1.words = _
    rw [ih, newWords, newWords, firstsBy, words_intern]
    by_cases hword : word ∈ vocabulary.words
    · simp [hword]
    · have hseen : firstsBy id (vocabulary.words ++ [word]) rest =
          firstsBy id (word :: vocabulary.words) rest := by
        apply firstsBy_congr
        · simp [or_comm]
        · simp
      simp [hword, hseen]

/-- Words may be taken in in two parts. -/
theorem internAll_append (vocabulary : Vocabulary) (front back : List String) :
    (vocabulary.internAll (front ++ back)).1 =
      ((vocabulary.internAll front).1.internAll back).1 := by
  induction front generalizing vocabulary with
  | nil => rfl
  | cons word rest ih => exact ih (vocabulary.intern word).1

end Vocabulary

/-! ## The first link that lies outside -/

namespace SentenceRow

/-- The first link that lies outside of the sentence pair. -/
def firstOutside? (row : SentenceRow) : Option RawLink :=
  row.2.2.find? fun link =>
    !decide (link.InRange (Text.tokens row.1).length (Text.tokens row.2.1).length)

/-- A row is refused for its first link that lies outside. -/
theorem sentenceOf_eq_error_iff {symbolOf : String → Int} {row : SentenceRow} {link : RawLink} :
    sentenceOf symbolOf row = .error link ↔ row.firstOutside? = some link := by
  unfold sentenceOf firstOutside?
  rw [AlignedPair.ofLinks_eq_error_iff, List.length_map, List.length_map]

/-- There is no such link just when the row is in range. -/
theorem firstOutside?_eq_none_iff {row : SentenceRow} :
    row.firstOutside? = none ↔ row.InRange := by
  simp [firstOutside?, InRange]

/-- The rows in front of the first bad one are accepted, and it is taken with them. -/
theorem accepted_taken_of_first {front : List SentenceRow} {bad : SentenceRow}
    (hfront : ∀ row ∈ front, row.InRange) (hbad : ¬bad.InRange) (back : List SentenceRow) :
    accepted (front ++ bad :: back) = front ∧ taken (front ++ bad :: back) = front ++ [bad] := by
  induction front with
  | nil => simp [accepted, taken, hbad]
  | cons row rest ih =>
    rw [List.forall_mem_cons] at hfront
    obtain ⟨haccepted, htaken⟩ := ih hfront.2
    unfold accepted at haccepted ⊢
    simp [taken, hfront.1, haccepted, htaken]

end SentenceRow

/-! ## Rows -/

namespace Corpus

/-- The words of a row are taken in one after the other. -/
theorem internRow_eq (vocabulary : Vocabulary) (row : SentenceRow) :
    internRow vocabulary row = (vocabulary.internAll row.words).1 :=
  (vocabulary.internAll_append _ _).symm

/-- The words of a row are taken in, whether it is accepted or not. -/
theorem vocabulary_addSentence (corpus : Corpus) (row : SentenceRow) :
    (corpus.addSentence row.1 row.2.1 row.2.2).1.vocabulary =
      (corpus.vocabulary.internAll row.words).1 := by
  rw [addSentence_eq (.refl _), internRow_eq]
  split <;> rfl

/-- A row is accepted if no link lies outside. Otherwise the answer names the first such link and
both lengths. -/
theorem snd_addSentence (corpus : Corpus) (row : SentenceRow) :
    (corpus.addSentence row.1 row.2.1 row.2.2).2 =
      match row.firstOutside? with
      | none => .ok ()
      | some link =>
        .error ⟨link, (Text.tokens row.1).length, (Text.tokens row.2.1).length⟩ := by
  rw [addSentence_eq (.refl _)]
  cases hrow : SentenceRow.sentenceOf (internRow corpus.vocabulary row).symbolOf row with
  | error link => rw [SentenceRow.sentenceOf_eq_error_iff.1 hrow]
  | ok sentence =>
    rw [SentenceRow.firstOutside?_eq_none_iff.2
      (SentenceRow.exists_sentenceOf_iff.1 ⟨sentence, hrow⟩)]

/-- The words of all rows that are taken are in the vocabulary, each row's after those before. -/
theorem vocabulary_addSentences (corpus : Corpus) (lineNumber : Nat) (rows : List SentenceRow) :
    (corpus.addSentences lineNumber rows).1.vocabulary =
      (corpus.vocabulary.internAll ((SentenceRow.taken rows).flatMap SentenceRow.words)).1 := by
  induction rows generalizing corpus lineNumber with
  | nil => rfl
  | cons row rest ih =>
    have hvocabulary := corpus.vocabulary_addSentence row
    have houtcome := (corpus.addSentence_spec row).2
    rw [addSentences_cons]
    generalize corpus.addSentence row.1 row.2.1 row.2.2 = read at hvocabulary houtcome ⊢
    obtain ⟨next, error | ⟨⟩⟩ := read
    · have hout : ¬row.InRange := fun h => nomatch houtcome.2 h
      simpa [SentenceRow.taken, hout] using hvocabulary
    · have hin : row.InRange := houtcome.1 rfl
      simp only [SentenceRow.taken, hin, if_true, List.flatMap_cons, Vocabulary.internAll_append]
      rw [← hvocabulary]
      exact ih next (lineNumber + 1)

/-- The first row that cannot be read tells where and why. -/
theorem snd_addSentences_of_first_outside {front : List SentenceRow} {bad : SentenceRow}
    {link : RawLink} (hfront : ∀ row ∈ front, row.InRange) (hbad : bad.firstOutside? = some link)
    (back : List SentenceRow) (corpus : Corpus) (lineNumber : Nat) :
    (corpus.addSentences lineNumber (front ++ bad :: back)).2 =
      .error (.badLink ⟨link, (Text.tokens bad.1).length, (Text.tokens bad.2.1).length⟩
        (lineNumber + front.length)) := by
  induction front generalizing corpus lineNumber with
  | nil =>
    have hrow := corpus.snd_addSentence bad
    rw [List.nil_append, addSentences_cons]
    generalize corpus.addSentence bad.1 bad.2.1 bad.2.2 = read at hrow ⊢
    rw [hbad] at hrow
    obtain ⟨next, outcome⟩ := read
    cases hrow
    rfl
  | cons row rest ih =>
    rw [List.forall_mem_cons] at hfront
    have hrow := (corpus.addSentence_spec row).2.2 hfront.1
    rw [List.cons_append, addSentences_cons]
    generalize corpus.addSentence row.1 row.2.1 row.2.2 = read at hrow ⊢
    obtain ⟨next, outcome⟩ := read
    cases hrow
    have hline : lineNumber + (row :: rest).length = lineNumber + 1 + rest.length := by
      rw [List.length_cons]
      omega
    rw [hline]
    exact ih hfront.2 next (lineNumber + 1)

/-- The corpus has taken in the new words of some rows and the sentence pairs of some rows, and
nothing else has changed. -/
structure TakenIn (corpus after : Corpus) (wordRows rows : List SentenceRow) : Prop where
  words_eq : after.vocabulary.words = corpus.vocabulary.words ++
    corpus.vocabulary.newWords (wordRows.flatMap SentenceRow.words)
  keeps_numbers : ∀ (word : String) (id : Nat),
    corpus.vocabulary.find? word = some id → after.vocabulary.find? word = some id
  sentences_eq : ∃ sentences : List SentencePair,
    SentenceRow.ReadAs after.vocabulary.symbolOf rows sentences ∧
      after.sentences.toList = corpus.sentences.toList ++ sentences

/-- Rows leave their words behind up to the first bad one, and their sentence pairs in front of
it. -/
theorem takenIn_addSentences (corpus : Corpus) (lineNumber : Nat) (rows : List SentenceRow) :
    corpus.TakenIn (corpus.addSentences lineNumber rows).1 (SentenceRow.taken rows)
      (SentenceRow.accepted rows) where
  words_eq := by rw [vocabulary_addSentences, Vocabulary.words_internAll]
  keeps_numbers _ _ := (corpus.addSentences_spec lineNumber rows).1.keeps.find?
  sentences_eq := (corpus.addSentences_spec lineNumber rows).1.sentences _ (.refl _)

end Corpus

/-! ## Texts -/

/-- Why a text does not come to rows: one of its lines has no second side, the first such line being
told, or the sizes do not fit. -/
def CorpusText.Refuses (text : CorpusText) (alignment : Alignment) : CorpusError → Prop
  | .missingSeparator line => ∃ source : String, text = .bitext source ∧
      (Text.lines source).find? (fun line => (Text.sides? line).isNone) = some line
  | .sizeMismatch sources targets alignments => ∃ sourceLines targetLines : List String,
      text.sideLines = .ok (sourceLines, targetLines) ∧ sourceLines.length = sources ∧
        targetLines.length = targets ∧ alignment.length = alignments ∧
        ¬(sources = targets ∧ sources = alignments)
  | .badLink _ _ => False

/-- Lines that cannot be split are refused for the first one without a separator. -/
theorem Corpus.splitSides_eq_error {lines : List String} {error : CorpusError}
    (h : splitSides lines = .error error) : ∃ line : String, error = .missingSeparator line ∧
      lines.find? (fun line => (Text.sides? line).isNone) = some line := by
  induction lines with
  | nil => cases h
  | cons line rest ih =>
    rw [splitSides] at h
    cases hline : Text.sides? line with
    | none =>
      rw [hline] at h
      cases h
      exact ⟨line, rfl, by simp [hline]⟩
    | some sides =>
      rw [hline] at h
      cases hrest : splitSides rest with
      | ok others =>
        rw [hrest] at h
        cases h
      | error found =>
        rw [hrest] at h
        cases h
        simpa [hline] using ih hrest

/-- When the texts make no rows, they are refused for a reason in the text itself. -/
theorem CorpusText.refuses_of_rows {text : CorpusText} {alignment : Alignment} {error : CorpusError}
    (h : text.rows alignment = .error error) : text.Refuses alignment error := by
  unfold rows at h
  cases hsides : text.sideLines with
  | error found =>
    rw [hsides] at h
    cases h
    cases text with
    | sides source target => cases hsides
    | bitext source =>
      unfold sideLines at hsides
      dsimp only at hsides
      cases hsplit : Corpus.splitSides (Text.lines source) with
      | ok sides =>
        rw [hsplit] at hsides
        cases hsides
      | error found =>
        rw [hsplit] at hsides
        cases hsides
        obtain ⟨line, rfl, hline⟩ := Corpus.splitSides_eq_error hsplit
        exact ⟨source, rfl, hline⟩
  | ok sides =>
    rw [hsides] at h
    dsimp only at h
    split at h
    · cases h
    · rename_i hsizes
      cases h
      exact ⟨sides.1, sides.2, hsides, rfl, rfl, rfl, hsizes⟩

namespace Corpus

/-- **What a reading leaves behind**, whatever the corpus was. A line without a second side, or
sizes that do not fit, leave the corpus as it was. A link outside of its sentence pair is reported
with the first line that has one; the sentence pairs of the lines before it are there, and the new
words of these lines and of that line. Otherwise every line has added its words and its sentence
pair. -/
theorem readText_outcome (corpus : Corpus) (text : CorpusText) (alignment : Alignment) :
    match corpus.readText text alignment with
    | (after, .error (.badLink error lineNumber)) =>
      ∃ (front : List SentenceRow) (bad : SentenceRow) (back : List SentenceRow),
        text.rows alignment = .ok (front ++ bad :: back) ∧ lineNumber = front.length + 1 ∧
        (∀ row ∈ front, row.InRange) ∧ bad.firstOutside? = some error.link ∧
        error.sourceSize = (Text.tokens bad.1).length ∧
        error.targetSize = (Text.tokens bad.2.1).length ∧
        (CorpusError.badLink error lineNumber).message =
          error.message ++ " at line " ++ toString (front.length + 1) ∧
        corpus.TakenIn after (front ++ [bad]) front
    | (after, .error error) => after = corpus ∧ text.Refuses alignment error
    | (after, .ok ()) => ∃ rows : List SentenceRow, text.rows alignment = .ok rows ∧
        (∀ row ∈ rows, row.InRange) ∧ corpus.TakenIn after rows rows := by
  rw [readText_eq]
  cases hrows : text.rows alignment with
  | error error =>
    have hrefuses := CorpusText.refuses_of_rows hrows
    cases error with
    | badLink error lineNumber => exact hrefuses.elim
    | missingSeparator line => exact ⟨rfl, hrefuses⟩
    | sizeMismatch sources targets alignments => exact ⟨rfl, hrefuses⟩
  | ok rows =>
    have htakenIn := corpus.takenIn_addSentences 1 rows
    have houtcome := (corpus.addSentences_spec 1 rows).2
    dsimp only
    cases hfind : rows.find? fun row => !decide row.InRange with
    | none =>
      have hin : ∀ row ∈ rows, row.InRange := by simpa using hfind
      obtain ⟨haccepted, htaken⟩ := SentenceRow.accepted_of_inRange hin
      rw [haccepted, htaken] at htakenIn
      have hok := houtcome.2 hin
      generalize corpus.addSentences 1 rows = read at htakenIn hok ⊢
      obtain ⟨after, outcome⟩ := read
      cases hok
      exact ⟨rows, rfl, hin, htakenIn⟩
    | some bad =>
      obtain ⟨hbad, front, back, rfl, hfront⟩ := List.find?_eq_some_iff_append.1 hfind
      have hout : ¬bad.InRange := by simpa using hbad
      have hin : ∀ row ∈ front, row.InRange := by simpa using hfront
      obtain ⟨link, hlink⟩ : ∃ link : RawLink, bad.firstOutside? = some link := by
        rw [← Option.ne_none_iff_exists', ne_eq, SentenceRow.firstOutside?_eq_none_iff]
        exact hout
      obtain ⟨haccepted, htaken⟩ := SentenceRow.accepted_taken_of_first hin hout back
      rw [haccepted, htaken] at htakenIn
      have herror := snd_addSentences_of_first_outside hin hlink back corpus 1
      rw [Nat.add_comm] at herror
      generalize corpus.addSentences 1 (front ++ bad :: back) = read at htakenIn herror ⊢
      obtain ⟨after, outcome⟩ := read
      cases herror
      exact ⟨front, bad, back, rfl, rfl, hin, hlink, rfl, rfl, rfl, htakenIn⟩

end Corpus

end PhraseTable
