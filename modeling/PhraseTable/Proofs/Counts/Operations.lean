import PhraseTable.Counts.Aggregate
import PhraseTable.Proofs.Counts.Tally

/-!
# Runs of counting operations

A run starts from empty counts and carries out operations in any order. Whatever it does with
passes and phrases, its word counts are those of the word pairs that it counted, taken one after
the other (`words_performAll`), and each of the three tallies tracks these pairs or their words
(`counted_wordsAfter`). All that is said of word counts elsewhere rests on this.
-/

set_option autoImplicit false

namespace PhraseTable

/-- An operation on counts. -/
inductive CountOp where
  | startPass (pass : Int)
  | addWordPair (source target : Int)
  | countSentence (sentence : SentencePair)
  | countSentences (sentences : List SentencePair)
  | countPhrase (pair : PhrasePair)
  | countPhrases (pairs : List PhrasePair)

/-- The sentence pairs that an operation counts. -/
def CountOp.sentences : CountOp → List SentencePair
  | .countSentence sentence => [sentence]
  | .countSentences sentences => sentences
  | _ => []

/-- The word pairs that an operation counts, in order. -/
def CountOp.wordPairs : CountOp → List (Int × Int)
  | .addWordPair source target => [(source, target)]
  | op => op.sentences.flatMap AlignedPair.wordPairs

namespace WordCounts

/-- Counts word pairs one after the other. -/
def addAll (words : WordCounts) (pairs : List (Int × Int)) : WordCounts :=
  pairs.foldl (fun words pair => (words.add pair.1 pair.2).1) words

/-- Word pairs may be counted in two parts. -/
theorem addAll_append (words : WordCounts) (first second : List (Int × Int)) :
    words.addAll (first ++ second) = (words.addAll first).addAll second :=
  List.foldl_append

/-- To count a word pair takes six steps: it asks for a slot in each of the three tallies, and then
its slot is counted in each of them. `past n` are the word pairs that have taken step `n`, where
the steps are numbered from zero. -/
structure Tracks (words : WordCounts) (past : Nat → List (Int × Int)) : Prop where
  pairs : words.pairs.Tracks (past 0) (past 3)
  sources : words.sources.Tracks ((past 1).map Prod.fst) ((past 4).map Prod.fst)
  targets : words.targets.Tracks ((past 2).map Prod.snd) ((past 5).map Prod.snd)

/-- Steps that were taken by the same word pairs in another order are the same steps. -/
theorem Tracks.perm {words : WordCounts} {past past' : Nat → List (Int × Int)}
    (h : words.Tracks past) (hperm : ∀ n < 6, (past n).Perm (past' n)) : words.Tracks past' where
  pairs := h.pairs.perm (hperm 0 (by omega)) (hperm 3 (by omega))
  sources := h.sources.perm ((hperm 1 (by omega)).map _) ((hperm 4 (by omega)).map _)
  targets := h.targets.perm ((hperm 2 (by omega)).map _) ((hperm 5 (by omega)).map _)

/-- All of these word pairs, and no others, were counted in full. -/
def Counted (words : WordCounts) (pairs : List (Int × Int)) : Prop :=
  words.Tracks fun _ => pairs

/-- Nothing is counted in the empty counts. -/
theorem counted_empty : empty.Counted [] where
  pairs := Tally.tracks_empty _
  sources := Tally.tracks_empty _
  targets := Tally.tracks_empty _

/-- The order in which word pairs were counted plays no part. -/
theorem Counted.perm {words : WordCounts} {pairs pairs' : List (Int × Int)}
    (h : words.Counted pairs) (hperm : pairs.Perm pairs') : words.Counted pairs' :=
  Tracks.perm h fun _ _ => hperm

/-- A word pair that is counted by one call has taken all six steps. -/
theorem Tracks.add {words : WordCounts} {past : Nat → List (Int × Int)} (h : words.Tracks past)
    (source target : Int) :
    (words.add source target).1.Tracks fun n => (source, target) :: past n where
  pairs := Tally.Tracks.add h.pairs (source, target)
  sources := Tally.Tracks.add h.sources source
  targets := Tally.Tracks.add h.targets target

/-- Word pairs that are counted one after the other have taken all six steps. -/
theorem Tracks.addAll {words : WordCounts} {past : Nat → List (Int × Int)} (h : words.Tracks past)
    (more : List (Int × Int)) : (words.addAll more).Tracks fun n => past n ++ more := by
  induction more generalizing words past with
  | nil => exact h.perm fun n _ => by rw [List.append_nil]
  | cons pair rest ih =>
    exact (ih (h.add pair.1 pair.2)).perm fun n _ => List.perm_middle.symm

/-- Word pairs that ask for slots once more than they are counted are counted in full. -/
theorem Tracks.counted {words : WordCounts} {past : Nat → List (Int × Int)}
    {pairs : List (Int × Int)} (h : words.Tracks past)
    (hasked : ∀ n < 3, ∀ pair : Int × Int, pair ∈ past n ↔ pair ∈ pairs)
    (hcounted : ∀ n, 3 ≤ n → past n = pairs) : words.Counted pairs := by
  have hmem (n : Nat) (hn : n < 3) (f : Int × Int → Int) (word : Int) :
      word ∈ (past n).map f ↔ word ∈ pairs.map f := by
    rw [List.mem_map, List.mem_map]
    simp only [hasked n hn]
  obtain ⟨hpairs, hsources, htargets⟩ := h
  rw [hcounted 3 (by omega)] at hpairs
  rw [hcounted 4 (by omega)] at hsources
  rw [hcounted 5 (by omega)] at htargets
  exact
    { pairs := hpairs.of_mem_iff (hasked 0 (by omega))
      sources := hsources.of_mem_iff (hmem 1 (by omega) Prod.fst)
      targets := htargets.of_mem_iff (hmem 2 (by omega) Prod.snd) }

/-- All word pairs, with one more that was counted. -/
theorem Counted.add {words : WordCounts} {pairs : List (Int × Int)} (h : words.Counted pairs)
    (source target : Int) : (words.add source target).1.Counted ((source, target) :: pairs) :=
  Tracks.add h source target

/-- All word pairs, with more that were counted one after the other. -/
theorem Counted.addAll {words : WordCounts} {pairs : List (Int × Int)} (h : words.Counted pairs)
    (more : List (Int × Int)) : (words.addAll more).Counted (pairs ++ more) :=
  Tracks.addAll h more

end WordCounts

namespace PhraseCounts

/-- Counts phrase pairs one after the other. -/
def addAll (phrases : PhraseCounts) (pairs : List PhrasePair) : PhraseCounts :=
  pairs.foldl (fun phrases pair => phrases.add pair.ids) phrases

/-- Phrase pairs are counted by their numbers. -/
theorem pairs_addAll (phrases : PhraseCounts) (pairs : List PhrasePair) :
    (phrases.addAll pairs).pairs =
      phrases.pairs.incrementAll ((pairs.map fun pair => pair.ids.pair).map fun id => (id, 1)) := by
  induction pairs generalizing phrases with
  | nil => rfl
  | cons pair rest ih => exact ih (phrases.add pair.ids)

/-- Source phrases are counted by their numbers. -/
theorem sources_addAll (phrases : PhraseCounts) (pairs : List PhrasePair) :
    (phrases.addAll pairs).sources =
      phrases.sources.incrementAll
        ((pairs.map fun pair => pair.ids.source).map fun id => (id, 1)) := by
  induction pairs generalizing phrases with
  | nil => rfl
  | cons pair rest ih => exact ih (phrases.add pair.ids)

/-- Target phrases are counted by their numbers. -/
theorem targets_addAll (phrases : PhraseCounts) (pairs : List PhrasePair) :
    (phrases.addAll pairs).targets =
      phrases.targets.incrementAll
        ((pairs.map fun pair => pair.ids.target).map fun id => (id, 1)) := by
  induction pairs generalizing phrases with
  | nil => rfl
  | cons pair rest ih => exact ih (phrases.add pair.ids)

end PhraseCounts

namespace Logged

/-- The value of a logged loop is the loop over the values. -/
theorem value_foldlM {α β : Type} (f : β → α → Logged β) (xs : List α) (b : β) :
    (xs.foldlM f b).value = xs.foldl (fun b x => (f b x).value) b := by
  induction xs generalizing b with
  | nil => rfl
  | cons x xs ih =>
    rw [List.foldlM_cons, value_bind, ih]
    rfl

end Logged

namespace Counts

/-- Carries out an operation. One that fails changes nothing. -/
def perform (counts : Counts) : CountOp → Logged Counts
  | .startPass pass =>
    match counts.startPass pass with
    | .ok started => pure started
    | .error _ => pure counts
  | .addWordPair source target => counts.addWordPair source target
  | .countSentence sentence => counts.countSentence sentence
  | .countSentences sentences => counts.countSentences sentences
  | .countPhrase pair => Prod.fst <$> counts.countPhrase pair
  | .countPhrases pairs => counts.countPhrases pairs

/-- Carries out operations one after the other. -/
def performAll (counts : Counts) (ops : List CountOp) : Logged Counts :=
  ops.foldlM perform counts

/-- A new pass leaves the word counts alone. -/
theorem words_startPass {counts started : Counts} {pass : Int}
    (h : counts.startPass pass = .ok started) : started.words = counts.words := by
  unfold startPass at h
  split at h
  · cases h
    rfl
  · cases h

/-- Counting word pairs changes the word counts and nothing else. -/
theorem value_addWordPairs (counts : Counts) (pairs : List (Int × Int)) :
    (counts.addWordPairs pairs).value = { counts with words := counts.words.addAll pairs } := by
  unfold addWordPairs
  rw [Logged.value_foldlM]
  induction pairs generalizing counts with
  | nil => rfl
  | cons pair rest ih => exact ih _

/-- Sentences are counted by their word pairs, and nothing else changes. -/
theorem value_countSentences (counts : Counts) (sentences : List SentencePair) :
    (counts.countSentences sentences).value =
      { counts with words := counts.words.addAll (sentences.flatMap AlignedPair.wordPairs) } := by
  unfold countSentences
  rw [Logged.value_foldlM]
  induction sentences generalizing counts with
  | nil => rfl
  | cons sentence rest ih =>
    have hfirst : (counts.countSentence sentence).value =
        { counts with words := counts.words.addAll sentence.wordPairs } :=
      value_addWordPairs counts sentence.wordPairs
    rw [List.foldl_cons, ih, hfirst, List.flatMap_cons, WordCounts.addAll_append]

/-- Phrases are counted on the final pass only, and nothing else is counted with them. -/
theorem value_countPhrases (counts : Counts) (pairs : List PhrasePair) :
    (counts.countPhrases pairs).value =
      if counts.isFinalPass then
        { counts with phrases := counts.phrases.addAll pairs }
      else counts := by
  unfold countPhrases PhraseCounts.addAll
  rw [Logged.value_foldlM]
  induction pairs generalizing counts with
  | nil => simp
  | cons pair rest ih =>
    have hfirst : (Prod.fst <$> counts.countPhrase pair).value =
        if counts.isFinalPass then { counts with phrases := counts.phrases.add pair.ids }
        else counts := by
      unfold countPhrase
      split <;> rfl
    rw [List.foldl_cons, ih, hfirst]
    split
    · rename_i hfinal
      have hstill : ({ counts with phrases := counts.phrases.add pair.ids } : Counts).isFinalPass =
          true := hfinal
      rw [if_pos hstill, List.foldl_cons]
    · rfl

/-- Phrase pairs are counted without touching the word counts. -/
theorem words_countPhrases (counts : Counts) (pairs : List PhrasePair) :
    (counts.countPhrases pairs).value.words = counts.words := by
  rw [value_countPhrases]
  split <;> rfl

/-- To the word counts, an operation is the word pairs that it counts. -/
theorem words_perform (counts : Counts) (op : CountOp) :
    (counts.perform op).value.words = counts.words.addAll op.wordPairs := by
  cases op with
  | startPass pass =>
    simp only [perform]
    split
    · rename_i started hstarted
      exact words_startPass hstarted
    · rfl
  | addWordPair source target => rfl
  | countSentence sentence =>
    have hpairs : (CountOp.countSentence sentence).wordPairs = sentence.wordPairs :=
      List.append_nil _
    rw [hpairs]
    exact congrArg Counts.words (value_addWordPairs counts sentence.wordPairs)
  | countSentences sentences =>
    exact congrArg Counts.words (value_countSentences counts sentences)
  | countPhrase pair =>
    show (counts.countPhrase pair).value.1.words = counts.words
    unfold countPhrase
    split <;> rfl
  | countPhrases pairs => exact words_countPhrases counts pairs

/-- Operations count the word pairs that they hand over. -/
theorem words_performAll (counts : Counts) (ops : List CountOp) :
    (counts.performAll ops).value.words =
      counts.words.addAll (ops.flatMap CountOp.wordPairs) := by
  unfold performAll
  rw [Logged.value_foldlM]
  induction ops generalizing counts with
  | nil => rfl
  | cons op rest ih =>
    rw [List.foldl_cons, ih, List.flatMap_cons, WordCounts.addAll_append, words_perform]

/-- The word counts after a run of operations that starts from empty counts. -/
def wordsAfter (config : Config) (ops : List CountOp) : WordCounts :=
  ((empty config).performAll ops).value.words

/-- After a run, just the word pairs of its operations were counted. -/
theorem counted_wordsAfter (config : Config) (ops : List CountOp) :
    (wordsAfter config ops).Counted (ops.flatMap CountOp.wordPairs) := by
  unfold wordsAfter
  rw [words_performAll]
  exact WordCounts.counted_empty.addAll _

end Counts

end PhraseTable
