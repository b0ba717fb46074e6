import Mathlib.Data.List.Forall2
import Mathlib.Data.List.TakeWhile
import PhraseTable.Corpus
import PhraseTable.Proofs.AlignedPair
import PhraseTable.Proofs.Outcome
import PhraseTable.Proofs.Vocabulary

/-!
# What a corpus says

A corpus is read line by line. The lines of an alignment and of a bitext are read one by one
(`ofLines_eq_ok_iff`, `splitSides_eq_ok_iff`), and so are the sentence pairs, but for the numbers of
their words. `sentenceOf` says what a row holds if words have given symbols. Rows are read up to the
first one that cannot be read, and the words of this one are taken in, too (`addSentences_spec`).
The corpus then has just the sentence pairs of the rows before, with the symbols that the words have
in any later vocabulary. Whether rows can be read does not depend on the symbols
(`exists_sentenceOf_iff`). Texts of both kinds come to rows (`readText_eq`).
-/

set_option autoImplicit false

namespace PhraseTable

/-! ## Lines -/

/-- An alignment is read just when each of its lines is, with the links of this line. -/
theorem Alignment.ofLines_eq_ok_iff {lineNumber : Nat} {lines : List String}
    {alignment : Alignment} :
    ofLines lineNumber lines = .ok alignment ↔
      List.Forall₂ (fun line links => ofTrimmed (Text.trimChars line.toList) = .ok links) lines
        alignment := by
  induction lines generalizing lineNumber alignment with
  | nil =>
    constructor
    · intro h
      cases h
      exact .nil
    · intro h
      cases h
      rfl
  | cons line rest ih =>
    unfold ofLines
    dsimp only
    cases hline : ofTrimmed (Text.trimChars line.toList) with
    | error fault =>
      refine iff_of_false nofun ?_
      intro h
      cases h with
      | cons hlinks _ =>
        rw [hline] at hlinks
        cases hlinks
    | ok links =>
      dsimp only
      constructor
      · intro h
        cases hrest : ofLines (lineNumber + 1) rest with
        | error error =>
          rw [hrest] at h
          cases h
        | ok others =>
          rw [hrest] at h
          cases h
          exact .cons hline (ih.1 hrest)
      · intro h
        cases h with
        | cons hlinks hrest =>
          rw [hline] at hlinks
          cases hlinks
          rw [ih.2 hrest]
          rfl

/-- The lines of a bitext are split just when each of them is, into its own two sides. -/
theorem Corpus.splitSides_eq_ok_iff {lines : List String} {sides : List (String × String)} :
    splitSides lines = .ok sides ↔
      List.Forall₂ (fun line side => Text.sides? line = some side) lines sides := by
  induction lines generalizing sides with
  | nil =>
    constructor
    · intro h
      cases h
      exact .nil
    · intro h
      cases h
      rfl
  | cons line rest ih =>
    unfold splitSides
    cases hline : Text.sides? line with
    | none =>
      refine iff_of_false nofun ?_
      intro h
      cases h with
      | cons hside _ =>
        rw [hline] at hside
        cases hside
    | some side =>
      dsimp only
      constructor
      · intro h
        cases hrest : splitSides rest with
        | error error =>
          rw [hrest] at h
          cases h
        | ok others =>
          rw [hrest] at h
          cases h
          exact .cons hline (ih.1 hrest)
      · intro h
        cases h with
        | cons hside hrest =>
          rw [hline] at hside
          cases hside
          rw [ih.2 hrest]
          rfl

/-! ## Sentence pairs -/

/-- The two sides of a sentence pair and its links, as they are written. -/
abbrev SentenceRow := String × String × List RawLink

namespace SentenceRow

/-- The tokens of both sides, in the order in which they are stored. -/
def words (row : SentenceRow) : List String :=
  Text.tokens row.2.1 ++ Text.tokens row.1

/-- The sentence pair that a row holds, if words have these symbols. -/
def sentenceOf (symbolOf : String → Int) (row : SentenceRow) : Except RawLink SentencePair :=
  AlignedPair.ofLinks ((Text.tokens row.1).map symbolOf) ((Text.tokens row.2.1).map symbolOf)
    row.2.2

/-- These sentence pairs stand in these rows, if words have these symbols. -/
def ReadAs (symbolOf : String → Int) (rows : List SentenceRow) (sentences : List SentencePair) :
    Prop :=
  List.Forall₂ (fun row sentence => sentenceOf symbolOf row = .ok sentence) rows sentences

/-- The sentence pair of a row depends on the symbols of its own words alone. -/
theorem sentenceOf_congr {symbolOf symbolOf' : String → Int} {row : SentenceRow}
    (h : ∀ word ∈ row.words, symbolOf word = symbolOf' word) :
    sentenceOf symbolOf row = sentenceOf symbolOf' row := by
  have hsource : (Text.tokens row.1).map symbolOf = (Text.tokens row.1).map symbolOf' :=
    List.map_congr_left fun word hword => h word (List.mem_append_right _ hword)
  have htarget : (Text.tokens row.2.1).map symbolOf = (Text.tokens row.2.1).map symbolOf' :=
    List.map_congr_left fun word hword => h word (List.mem_append_left _ hword)
  unfold sentenceOf
  rw [hsource, htarget]

/-- All links lie inside the sentence pair. -/
def InRange (row : SentenceRow) : Prop :=
  ∀ link ∈ row.2.2, link.InRange (Text.tokens row.1).length (Text.tokens row.2.1).length

instance (row : SentenceRow) : Decidable row.InRange :=
  inferInstanceAs (Decidable (∀ link ∈ row.2.2, _))

/-- Whether a row can be read does not depend on the symbols of its words. -/
theorem exists_sentenceOf_iff {symbolOf : String → Int} {row : SentenceRow} :
    (∃ sentence : SentencePair, sentenceOf symbolOf row = .ok sentence) ↔ row.InRange := by
  have hlengths : row.InRange ↔ ∀ link ∈ row.2.2,
      link.InRange ((Text.tokens row.1).map symbolOf).length
        ((Text.tokens row.2.1).map symbolOf).length := by
    rw [List.length_map, List.length_map]
    rfl
  rw [hlengths]
  constructor
  · rintro ⟨sentence, hsentence⟩
    exact AlignedPair.inRange_of_ofLinks hsentence
  · exact AlignedPair.exists_ofLinks

/-- The rows before the first one that cannot be read. -/
def accepted (rows : List SentenceRow) : List SentenceRow :=
  rows.takeWhile fun row => decide row.InRange

/-- The rows whose words are taken in: the accepted ones, and the first that cannot be read. -/
def taken : List SentenceRow → List SentenceRow
  | [] => []
  | row :: rest => if row.InRange then row :: taken rest else [row]

/-- The words of accepted rows are taken in. -/
theorem accepted_subset_taken (rows : List SentenceRow) : accepted rows ⊆ taken rows := by
  induction rows with
  | nil => exact List.Subset.refl _
  | cons row rest ih =>
    rw [accepted, taken, List.takeWhile_cons]
    split
    · rename_i hrow
      rw [if_pos (of_decide_eq_true hrow)]
      exact List.cons_subset_cons row ih
    · exact List.nil_subset _

/-- When no link lies outside, all rows are accepted. -/
theorem accepted_of_inRange {rows : List SentenceRow} (h : ∀ row ∈ rows, row.InRange) :
    accepted rows = rows ∧ taken rows = rows := by
  refine ⟨List.takeWhile_eq_self_iff.2 fun row hrow => decide_eq_true (h row hrow), ?_⟩
  induction rows with
  | nil => rfl
  | cons row rest ih =>
    rw [List.forall_mem_cons] at h
    rw [taken, if_pos h.1, ih h.2]

end SentenceRow

namespace Corpus

open SentenceRow (sentenceOf)

/-- The vocabulary with the words of a row, those of the target side before the others. -/
def internRow (vocabulary : Vocabulary) (row : SentenceRow) : Vocabulary :=
  ((vocabulary.internAll (Text.tokens row.2.1)).1.internAll (Text.tokens row.1)).1

/-- The words of a row leave all numbers as they are. -/
theorem extends_internRow (vocabulary : Vocabulary) (row : SentenceRow) :
    (internRow vocabulary row).Extends vocabulary :=
  (Vocabulary.extends_internAll _ _).trans (Vocabulary.extends_internAll _ _)

/-- The words are those from before and those of the row. -/
theorem mem_words_internRow {vocabulary : Vocabulary} {row : SentenceRow} {word : String} :
    word ∈ (internRow vocabulary row).words ↔ word ∈ vocabulary.words ∨ word ∈ row.words := by
  unfold internRow SentenceRow.words
  rw [Vocabulary.mem_words_internAll, Vocabulary.mem_words_internAll, List.mem_append, or_assoc]

/-- What a row does to the corpus. Any later vocabulary tells the symbols of its words as well. -/
theorem addSentence_eq {corpus : Corpus} {row : SentenceRow} {larger : Vocabulary}
    (h : larger.Extends (internRow corpus.vocabulary row)) :
    corpus.addSentence row.1 row.2.1 row.2.2 =
      match sentenceOf larger.symbolOf row with
      | .error link =>
        ({ corpus with vocabulary := internRow corpus.vocabulary row },
          .error ⟨link, (Text.tokens row.1).length, (Text.tokens row.2.1).length⟩)
      | .ok sentence =>
        (⟨internRow corpus.vocabulary row, corpus.sentences.push sentence⟩, .ok ()) := by
  have htarget := Vocabulary.snd_internAll
    (h.trans (Vocabulary.extends_internAll _ (Text.tokens row.1)))
  have hsource := Vocabulary.snd_internAll h
  unfold addSentence SentencePair.ofLinks sentenceOf
  dsimp only
  rw [htarget, hsource, List.length_map, List.length_map]
  cases AlignedPair.ofLinks ((Text.tokens row.1).map larger.symbolOf)
    ((Text.tokens row.2.1).map larger.symbolOf) row.2.2 <;> rfl

/-- The rows behind the first one are read only if that one is. -/
theorem addSentences_cons (corpus : Corpus) (lineNumber : Nat) (row : SentenceRow)
    (rest : List SentenceRow) :
    corpus.addSentences lineNumber (row :: rest) =
      match corpus.addSentence row.1 row.2.1 row.2.2 with
      | (corpus, .error error) => (corpus, .error (.badLink error lineNumber))
      | (corpus, .ok ()) => corpus.addSentences (lineNumber + 1) rest := by
  obtain ⟨source, target, links⟩ := row
  cases hread : corpus.addSentence source target links with
  | mk after outcome => cases outcome <;> simp only [addSentences, hread]

/-- The corpus has grown by these words, and by the sentence pairs of these rows. -/
structure GrownBy (corpus after : Corpus) (words : List String) (rows : List SentenceRow) :
    Prop where
  keeps : after.vocabulary.Extends corpus.vocabulary
  mem_words : ∀ word : String,
    word ∈ after.vocabulary.words ↔ word ∈ corpus.vocabulary.words ∨ word ∈ words
  sentences : ∀ larger : Vocabulary, larger.Extends after.vocabulary →
    ∃ sentences : List SentencePair, SentenceRow.ReadAs larger.symbolOf rows sentences ∧
      after.sentences.toList = corpus.sentences.toList ++ sentences

/-- A corpus has grown by nothing over itself. -/
theorem GrownBy.refl (corpus : Corpus) : GrownBy corpus corpus [] [] where
  keeps := .refl _
  mem_words word := by simp
  sentences larger _ := ⟨[], .nil, (List.append_nil _).symm⟩

/-- A corpus that grew twice has grown by both together. -/
theorem GrownBy.trans {corpus next after : Corpus} {words words' : List String}
    {rows rows' : List SentenceRow} (h : GrownBy corpus next words rows)
    (h' : GrownBy next after words' rows') :
    GrownBy corpus after (words ++ words') (rows ++ rows') where
  keeps := h'.keeps.trans h.keeps
  mem_words word := by rw [h'.mem_words, h.mem_words, List.mem_append, or_assoc]
  sentences larger hlarger := by
    obtain ⟨first, hfirst, hnext⟩ := h.sentences larger (hlarger.trans h'.keeps)
    obtain ⟨second, hsecond, hafter⟩ := h'.sentences larger hlarger
    refine ⟨first ++ second, List.rel_append hfirst hsecond, ?_⟩
    rw [hafter, hnext, List.append_assoc]

/-- New words alone let a corpus grow. -/
theorem GrownBy.of_vocabulary {corpus : Corpus} {vocabulary : Vocabulary} {words : List String}
    (hkeeps : vocabulary.Extends corpus.vocabulary)
    (hwords : ∀ word : String,
      word ∈ vocabulary.words ↔ word ∈ corpus.vocabulary.words ∨ word ∈ words) :
    GrownBy corpus { corpus with vocabulary } words [] :=
  ⟨hkeeps, hwords, fun _ _ => ⟨[], .nil, (List.append_nil _).symm⟩⟩

/-- A row whose words are taken in lets the corpus grow by them, and by the sentence pairs that are
added. -/
theorem grownBy_of_internRow {corpus after : Corpus} {row : SentenceRow} {rows : List SentenceRow}
    (hvocabulary : after.vocabulary = internRow corpus.vocabulary row)
    (hsentences : ∀ larger : Vocabulary, larger.Extends (internRow corpus.vocabulary row) →
      ∃ sentences : List SentencePair, SentenceRow.ReadAs larger.symbolOf rows sentences ∧
        after.sentences.toList = corpus.sentences.toList ++ sentences) :
    GrownBy corpus after row.words rows where
  keeps := by
    rw [hvocabulary]
    exact extends_internRow _ row
  mem_words word := by rw [hvocabulary, mem_words_internRow]
  sentences larger hlarger := hsentences larger (by rwa [hvocabulary] at hlarger)

/-- The words of a row are taken in, and if it can be read, its sentence pair is. -/
theorem addSentence_spec (corpus : Corpus) (row : SentenceRow) :
    GrownBy corpus (corpus.addSentence row.1 row.2.1 row.2.2).1 row.words
        (if row.InRange then [row] else []) ∧
      ((corpus.addSentence row.1 row.2.1 row.2.2).2 = .ok () ↔ row.InRange) := by
  have hinRange : (∃ sentence : SentencePair,
      sentenceOf (internRow corpus.vocabulary row).symbolOf row = .ok sentence) ↔ row.InRange :=
    SentenceRow.exists_sentenceOf_iff
  rw [addSentence_eq (.refl _)]
  cases hrow : sentenceOf (internRow corpus.vocabulary row).symbolOf row with
  | error link =>
    have hout : ¬row.InRange := by
      rw [← hinRange, hrow]
      rintro ⟨sentence, hsentence⟩
      cases hsentence
    rw [if_neg hout]
    refine ⟨grownBy_of_internRow rfl fun larger _ => ?_, iff_of_false nofun hout⟩
    exact ⟨[], .nil, (List.append_nil _).symm⟩
  | ok sentence =>
    have hin : row.InRange := hinRange.1 ⟨sentence, hrow⟩
    rw [if_pos hin]
    refine ⟨grownBy_of_internRow rfl fun larger hlarger => ?_, iff_of_true rfl hin⟩
    refine ⟨[sentence], .cons ?_ .nil, Array.toList_push⟩
    rw [← hrow]
    apply SentenceRow.sentenceOf_congr
    intro word hword
    exact hlarger.symbolOf (mem_words_internRow.2 (Or.inr hword))

/-- Rows are read up to the first one that cannot be read. -/
theorem addSentences_spec (corpus : Corpus) (lineNumber : Nat) (rows : List SentenceRow) :
    GrownBy corpus (corpus.addSentences lineNumber rows).1
        ((SentenceRow.taken rows).flatMap SentenceRow.words) (SentenceRow.accepted rows) ∧
      ((corpus.addSentences lineNumber rows).2 = .ok () ↔ ∀ row ∈ rows, row.InRange) := by
  induction rows generalizing corpus lineNumber with
  | nil => exact ⟨.refl corpus, by simp [addSentences]⟩
  | cons row rest ih =>
    obtain ⟨hrow, houtcome⟩ := addSentence_spec corpus row
    rw [addSentences_cons]
    generalize corpus.addSentence row.1 row.2.1 row.2.2 = read at hrow houtcome ⊢
    obtain ⟨next, error | ⟨⟩⟩ := read
    · have hout : ¬row.InRange := fun h => nomatch houtcome.2 h
      rw [if_neg hout] at hrow
      have haccepted : SentenceRow.accepted (row :: rest) = [] := by
        simp [SentenceRow.accepted, hout]
      rw [haccepted, SentenceRow.taken, if_neg hout, List.flatMap_singleton]
      exact ⟨hrow, iff_of_false nofun fun h => hout (h row List.mem_cons_self)⟩
    · have hin : row.InRange := houtcome.1 rfl
      rw [if_pos hin] at hrow
      have haccepted : SentenceRow.accepted (row :: rest) = row :: SentenceRow.accepted rest := by
        simp [SentenceRow.accepted, hin]
      obtain ⟨hrest, houtcome⟩ := ih next (lineNumber + 1)
      rw [haccepted, SentenceRow.taken, if_pos hin, List.flatMap_cons, List.forall_mem_cons]
      exact ⟨hrow.trans hrest, houtcome.trans (and_iff_right hin).symm⟩

/-- What is known of rows that were read. -/
theorem addSentences_eq_ok {corpus after : Corpus} {lineNumber : Nat} {rows : List SentenceRow}
    (h : corpus.addSentences lineNumber rows = (after, .ok ())) :
    GrownBy corpus after (rows.flatMap SentenceRow.words) rows := by
  obtain ⟨hgrown, houtcome⟩ := addSentences_spec corpus lineNumber rows
  obtain ⟨haccepted, htaken⟩ := SentenceRow.accepted_of_inRange (houtcome.1 (congrArg Prod.snd h))
  rwa [haccepted, htaken, h] at hgrown

end Corpus

/-! ## Texts -/

/-- The text of a corpus: one for each side, or one with both sides on every line. -/
inductive CorpusText where
  | sides (source target : String)
  | bitext (text : String)

/-- The lines of the source side and those of the target side, if a text has both. -/
def CorpusText.sideLines : CorpusText → Except CorpusError (List String × List String)
  | .sides source target => .ok (Text.lines source, Text.lines target)
  | .bitext text =>
    (Corpus.splitSides (Text.lines text)).map fun sides => (sides.map Prod.fst, sides.map Prod.snd)

/-- The rows that a text and an alignment hold, if their sizes fit. -/
def CorpusText.rows (text : CorpusText) (alignment : Alignment) :
    Except CorpusError (List SentenceRow) :=
  match text.sideLines with
  | .error error => .error error
  | .ok (sources, targets) =>
    if sources.length = targets.length ∧ sources.length = alignment.length then
      .ok (sources.zip (targets.zip alignment))
    else .error (.sizeMismatch sources.length targets.length alignment.length)

namespace Corpus

/-- Reads a corpus from a text of either kind. -/
def readText (corpus : Corpus) (text : CorpusText) (alignment : Alignment) :
    Corpus × Except CorpusError Unit :=
  match text with
  | .sides source target => corpus.read source target alignment
  | .bitext text => corpus.readBitext text alignment

/-- A text without rows changes nothing. -/
theorem readText_eq (corpus : Corpus) (text : CorpusText) (alignment : Alignment) :
    corpus.readText text alignment =
      match text.rows alignment with
      | .error error => (corpus, .error error)
      | .ok rows => corpus.addSentences 1 rows := by
  have hlines : corpus.readText text alignment =
      match text.sideLines with
      | .error error => (corpus, .error error)
      | .ok (sources, targets) => corpus.addLines sources targets alignment := by
    cases text with
    | sides source target => rfl
    | bitext text =>
      unfold readText readBitext CorpusText.sideLines
      dsimp only
      cases splitSides (Text.lines text) <;> rfl
  rw [hlines]
  unfold CorpusText.rows
  cases text.sideLines with
  | error error => rfl
  | ok sides =>
    dsimp only
    unfold addLines
    split <;> rfl

end Corpus

end PhraseTable
