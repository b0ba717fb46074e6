import PhraseTable.Proofs.Corpus
import PhraseTable.Proofs.Counts.LinkCounts

/-!
# Counts of a corpus in terms of its tokens

The counts are kept for symbols, and the vocabulary gives every word of a corpus a symbol of its
own. So a joint count of two words can be read off the rows of the corpus
(`corpusPairCount_readText`). The null word is a word like others: its text may stand in a row, and
then its links are counted where positions without links are (`nullCounts_readText`).
-/

set_option autoImplicit false

namespace PhraseTable

namespace SentenceRow

/-- The number of different links between positions of the two tokens. -/
def linked (row : SentenceRow) (source target : String) : Nat :=
  (row.2.2.toFinset.filter fun link =>
    (Text.tokens row.1)[link.source.toNat]? = some source ∧
      (Text.tokens row.2.1)[link.target.toNat]? = some target).card

/-- The number of source positions of a token that have no link. -/
def unlinkedSource (row : SentenceRow) (word : String) : Nat :=
  ((Finset.range (Text.tokens row.1).length).filter fun i : Nat =>
    (Text.tokens row.1)[i]? = some word ∧ ∀ link ∈ row.2.2, link.source ≠ i).card

/-- The number of target positions of a token that have no link. -/
def unlinkedTarget (row : SentenceRow) (word : String) : Nat :=
  ((Finset.range (Text.tokens row.2.1).length).filter fun j : Nat =>
    (Text.tokens row.2.1)[j]? = some word ∧ ∀ link ∈ row.2.2, link.target ≠ j).card

/-- What a row adds to the joint count of two words. -/
def pairCount (row : SentenceRow) (source target : String) : Nat :=
  row.linked source target + (if target = nullText then row.unlinkedSource source else 0) +
    (if source = nullText then row.unlinkedTarget target else 0)

/-- A row of symbols, if words have these symbols. -/
def toLinked (symbolOf : String → Int) (row : SentenceRow) : LinkedSentence :=
  ⟨(Text.tokens row.1).map symbolOf, (Text.tokens row.2.1).map symbolOf, row.2.2⟩

/-- Sentence pairs that were read from rows are built from the symbols of these rows. -/
theorem ReadAs.built {symbolOf : String → Int} {rows : List SentenceRow}
    {sentences : List SentencePair} (h : ReadAs symbolOf rows sentences) :
    LinkedSentence.Built (rows.map (toLinked symbolOf)) sentences := by
  refine List.forall₂_map_left_iff.2 (h.imp fun row sentence hrow => ?_)
  unfold sentenceOf at hrow
  unfold LinkedSentence.build SentencePair.ofLinks toLinked
  rw [hrow]
  rfl

section Symbols

variable {vocabulary : Vocabulary} {row : SentenceRow}

/-- Words of the vocabulary are told apart by their symbols. -/
theorem getElem?_map_symbolOf {words : List String} (h : ∀ word ∈ words, word ∈ vocabulary.words)
    (i : Nat) (word : String) :
    (words.map vocabulary.symbolOf)[i]? = some (vocabulary.symbolOf word) ↔
      words[i]? = some word := by
  rw [List.getElem?_map, Option.map_eq_some_iff]
  constructor
  · rintro ⟨other, hother, heq⟩
    rwa [(Vocabulary.symbolOf_eq_iff (h other (List.mem_of_getElem? hother))).1 heq] at hother
  · exact fun hword => ⟨word, hword, rfl⟩

/-- Only the text of the null word has its symbol. -/
theorem symbolOf_eq_nullWord_iff {word : String} :
    vocabulary.symbolOf word = nullWord ↔ word = nullText := by
  rw [← vocabulary.symbolOf_nullText, eq_comm,
    Vocabulary.symbolOf_eq_iff vocabulary.null_mem_words, eq_comm]

/-- Symbols of words are counted as the words are. -/
theorem pairCount_content (h : ∀ word ∈ row.words, word ∈ vocabulary.words)
    (source target : String) :
    (row.toLinked vocabulary.symbolOf).content.pairCount (vocabulary.symbolOf source)
        (vocabulary.symbolOf target) = row.pairCount source target := by
  have hsource : ∀ word ∈ Text.tokens row.1, word ∈ vocabulary.words :=
    fun word hword => h word (List.mem_append_right _ hword)
  have htarget : ∀ word ∈ Text.tokens row.2.1, word ∈ vocabulary.words :=
    fun word hword => h word (List.mem_append_left _ hword)
  unfold SentenceContent.pairCount SentenceContent.linked SentenceContent.unlinkedSource
    SentenceContent.unlinkedTarget LinkedSentence.content toLinked
  simp only [getElem?_map_symbolOf hsource, getElem?_map_symbolOf htarget, List.length_map,
    symbolOf_eq_nullWord_iff, List.mem_toFinset]
  rfl

end Symbols

/-! ## The null word among the tokens -/

variable {row : SentenceRow}

/-- A word is counted with the null word where it has no link and where it is linked to that
text. -/
theorem pairCount_null_right (row : SentenceRow) (word : String) :
    row.pairCount word nullText = row.unlinkedSource word + row.linked word nullText +
      if word = nullText then row.unlinkedTarget nullText else 0 := by
  rw [pairCount, if_pos rfl, Nat.add_comm (row.linked word nullText)]

/-- The null word is counted with a word where this has no link and where that text is linked to
it. -/
theorem pairCount_null_left (row : SentenceRow) (word : String) :
    row.pairCount nullText word = row.unlinkedTarget word + row.linked nullText word +
      if word = nullText then row.unlinkedSource nullText else 0 := by
  unfold pairCount
  rw [if_pos rfl]
  by_cases hword : word = nullText
  · subst hword
    rw [if_pos rfl]
    omega
  · rw [if_neg hword]
    omega

/-- A word that is no token of its side has no link. -/
theorem linked_eq_zero {source target : String}
    (h : source ∉ Text.tokens row.1 ∨ target ∉ Text.tokens row.2.1) :
    row.linked source target = 0 := by
  refine Finset.card_eq_zero.2 (Finset.filter_eq_empty_iff.2 fun link _ hlink => ?_)
  exact h.elim (· (List.mem_of_getElem? hlink.1)) (· (List.mem_of_getElem? hlink.2))

/-- A word that is no token of the source side has no position without a link there. -/
theorem unlinkedSource_eq_zero {word : String} (h : word ∉ Text.tokens row.1) :
    row.unlinkedSource word = 0 :=
  Finset.card_eq_zero.2 <| Finset.filter_eq_empty_iff.2 fun _ _ hi => h (List.mem_of_getElem? hi.1)

/-- A word that is no token of the target side has no position without a link there. -/
theorem unlinkedTarget_eq_zero {word : String} (h : word ∉ Text.tokens row.2.1) :
    row.unlinkedTarget word = 0 :=
  Finset.card_eq_zero.2 <| Finset.filter_eq_empty_iff.2 fun _ _ hj => h (List.mem_of_getElem? hj.1)

/-- Without the null word among its tokens, a row adds to null counts what has no link. -/
theorem pairCount_of_not_mem (h : nullText ∉ row.words) (word : String) :
    row.pairCount word nullText = row.unlinkedSource word ∧
      row.pairCount nullText word = row.unlinkedTarget word := by
  unfold words at h
  rw [List.mem_append, not_or] at h
  obtain ⟨htarget, hsource⟩ := h
  rw [pairCount_null_right, pairCount_null_left, linked_eq_zero (.inr htarget),
    linked_eq_zero (.inl hsource), unlinkedSource_eq_zero hsource, unlinkedTarget_eq_zero htarget]
  simp

end SentenceRow

/-! ## Corpora -/

namespace Counts

/-- The joint count of two words if the sentence pairs of a corpus are counted once. -/
def corpusPairCount (config : Config) (corpus : Corpus) (source target : Int) : Int :=
  ((wordsAfter config [.countSentences corpus.sentences.toList]).pairCount? source target).getD 0

/-- Joint counts are told by the tokens of the rows that were read. -/
theorem corpusPairCount_readText (config : Config) {corpus after : Corpus} {text : CorpusText}
    {alignment : Alignment} (hnew : corpus.sentences.toList = [])
    (hread : corpus.readText text alignment = (after, .ok ())) :
    ∃ rows : List SentenceRow, text.rows alignment = .ok rows ∧ ∀ source target : String,
      corpusPairCount config after (after.vocabulary.symbolOf source)
          (after.vocabulary.symbolOf target) =
        ((rows.map fun row => row.pairCount source target).sum : Nat) := by
  rw [Corpus.readText_eq] at hread
  cases hrows : text.rows alignment with
  | error error =>
    rw [hrows] at hread
    cases hread
  | ok rows =>
    rw [hrows] at hread
    obtain ⟨-, hwords, hsentences⟩ := Corpus.addSentences_eq_ok hread
    obtain ⟨sentences, hreadAs, hafter⟩ := hsentences after.vocabulary (.refl _)
    rw [hnew, List.nil_append] at hafter
    refine ⟨rows, rfl, fun source target => ?_⟩
    have hcover : CountOp.Cover [.countSentences after.sentences.toList] sentences :=
      ⟨by simp, by simp [CountOp.sentences, hafter]⟩
    have htotal : LinkedSentence.pairTotal
        (rows.map (SentenceRow.toLinked after.vocabulary.symbolOf))
        (after.vocabulary.symbolOf source) (after.vocabulary.symbolOf target) =
          (rows.map fun row => row.pairCount source target).sum := by
      unfold LinkedSentence.pairTotal
      rw [List.map_map]
      refine congrArg List.sum (List.map_congr_left fun row hrow => ?_)
      apply SentenceRow.pairCount_content
      intro word hword
      exact (hwords word).2 (Or.inr (List.mem_flatMap.2 ⟨row, hrow, hword⟩))
    unfold corpusPairCount
    rw [pairCount?_wordsAfter config hreadAs.built hcover, htotal]
    split
    · rename_i hzero
      rw [hzero]
      rfl
    · rfl

/-- A null count is the number of positions of the word that have no link, and of its links to
positions where the text of the null word stands. If that text stands nowhere, only positions
without links are counted. -/
theorem nullCounts_readText (config : Config) {corpus after : Corpus} {text : CorpusText}
    {alignment : Alignment} (hnew : corpus.sentences.toList = [])
    (hread : corpus.readText text alignment = (after, .ok ())) :
    ∃ rows : List SentenceRow, text.rows alignment = .ok rows ∧
      (∀ word : String, corpusPairCount config after (after.vocabulary.symbolOf word) nullWord =
        ((rows.map fun row => row.unlinkedSource word + row.linked word nullText +
          if word = nullText then row.unlinkedTarget nullText else 0).sum : Nat)) ∧
      (∀ word : String, corpusPairCount config after nullWord (after.vocabulary.symbolOf word) =
        ((rows.map fun row => row.unlinkedTarget word + row.linked nullText word +
          if word = nullText then row.unlinkedSource nullText else 0).sum : Nat)) ∧
      ((∀ row ∈ rows, nullText ∉ row.words) → ∀ word : String,
        corpusPairCount config after (after.vocabulary.symbolOf word) nullWord =
            ((rows.map fun row => row.unlinkedSource word).sum : Nat) ∧
          corpusPairCount config after nullWord (after.vocabulary.symbolOf word) =
            ((rows.map fun row => row.unlinkedTarget word).sum : Nat)) := by
  obtain ⟨rows, hrows, hcount⟩ := corpusPairCount_readText config hnew hread
  have hsource := fun word => hcount word nullText
  have htarget := fun word => hcount nullText word
  rw [Vocabulary.symbolOf_nullText] at hsource htarget
  refine ⟨rows, hrows, ?_, ?_, ?_⟩
  · intro word
    rw [hsource]
    simp only [SentenceRow.pairCount_null_right]
  · intro word
    rw [htarget]
    simp only [SentenceRow.pairCount_null_left]
  · intro hnull word
    rw [hsource, htarget]
    constructor
    · rw [List.map_congr_left fun row hrow =>
        (SentenceRow.pairCount_of_not_mem (hnull row hrow) word).1]
    · rw [List.map_congr_left fun row hrow =>
        (SentenceRow.pairCount_of_not_mem (hnull row hrow) word).2]

/-- In the first line a word has a link to the text of the null word, in the second one it has
none. -/
theorem nullCounts_linked_and_unlinked :
    ∃ after : Corpus,
      Corpus.empty.readText (.sides "a b\na" "NULL x\nx") [[⟨0, 0⟩, ⟨0, 0⟩], []] =
        (after, .ok ()) ∧
      corpusPairCount default after (after.vocabulary.symbolOf "a") nullWord = 2 ∧
      corpusPairCount default after (after.vocabulary.symbolOf "b") nullWord = 1 ∧
      corpusPairCount default after nullWord (after.vocabulary.symbolOf "x") = 2 := by
  have hread : Corpus.empty.readText (.sides "a b\na" "NULL x\nx") [[⟨0, 0⟩, ⟨0, 0⟩], []] =
      ((Corpus.empty.readText (.sides "a b\na" "NULL x\nx") [[⟨0, 0⟩, ⟨0, 0⟩], []]).1, .ok ()) :=
    Prod.ext rfl (by decide +kernel)
  obtain ⟨rows, hrows, hsource, htarget, -⟩ := nullCounts_readText default rfl hread
  have hlines : CorpusText.rows (.sides "a b\na" "NULL x\nx") [[⟨0, 0⟩, ⟨0, 0⟩], []] =
      .ok [("a b", "NULL x", [⟨0, 0⟩, ⟨0, 0⟩]), ("a", "x", [])] := by decide +kernel
  obtain rfl := Except.ok.inj (hrows.symm.trans hlines)
  exact ⟨_, hread, (hsource "a").trans (by decide +kernel), (hsource "b").trans (by decide +kernel),
    (htarget "x").trans (by decide +kernel)⟩

/-- A word with its only occurrence linked is counted with the null word all the same. -/
theorem nullCount_of_link :
    ∃ after : Corpus,
      Corpus.empty.readText (.sides "a" "NULL") [[⟨0, 0⟩]] = (after, .ok ()) ∧
      CorpusText.rows (.sides "a" "NULL") [[⟨0, 0⟩]] = .ok [("a", "NULL", [⟨0, 0⟩])] ∧
      SentenceRow.unlinkedSource ("a", "NULL", [⟨0, 0⟩]) "a" = 0 ∧
      corpusPairCount default after (after.vocabulary.symbolOf "a") nullWord = 1 := by
  refine ⟨(Corpus.empty.readText (.sides "a" "NULL") [[⟨0, 0⟩]]).1, ?_⟩
  refine ⟨Prod.ext rfl (by decide +kernel), by decide +kernel, by decide +kernel, ?_⟩
  decide +kernel

end Counts

end PhraseTable
