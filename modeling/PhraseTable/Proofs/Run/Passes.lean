import PhraseTable.Proofs.Counts.Operations
import PhraseTable.Proofs.PhraseIndex

/-!
# What the passes of a run have counted

`Passed` says how things stand between two passes: words were counted once on every pass, phrases
were numbered on the first pass, and they were counted if the final pass is over. One pass takes it
from each number of passes to the next (`Passed.pass`), so it holds after the last one
(`passed_finalState`), with exact counts and without.

It holds under any schedule. A word pair that gets its slots before its turn asks for them once more
when it is counted, and that leaves no trace in the counts (`Schedule.counted_pass`). A phrase pair
that is numbered before its turn comes to the index once more, and is given the same numbers
(`pairs_finalState`).
-/

set_option autoImplicit false

namespace PhraseTable.Run

/-! ## Word pairs that come before their turn -/

namespace Schedule

/-- The word pairs that take a step before their turn. They get slots in this way, and no counts. -/
def early (schedule : Schedule) (wordPairs : List (Int × Int)) : Nat → List (Int × Int)
  | 0 => reorder schedule.pairs wordPairs
  | 1 => reorder schedule.sources wordPairs
  | 2 => reorder schedule.targets wordPairs
  | _ => []

/-- Whoever comes before its turn is one of those who come at all. -/
theorem mem_of_mem_early {schedule : Schedule} {wordPairs : List (Int × Int)} {n : Nat}
    {pair : Int × Int} (h : pair ∈ schedule.early wordPairs n) : pair ∈ wordPairs := by
  unfold early at h
  split at h
  · exact mem_of_mem_reorder h
  · exact mem_of_mem_reorder h
  · exact mem_of_mem_reorder h
  · cases h

/-- Nobody is counted before its turn. -/
theorem early_of_three_le (schedule : Schedule) (wordPairs : List (Int × Int)) {n : Nat}
    (h : 3 ≤ n) : schedule.early wordPairs n = [] := by
  unfold early
  split
  · omega
  · omega
  · omega
  · rfl

/-- In full counts, those that come before their turn have taken their first steps. -/
theorem tracks_reserve (schedule : Schedule) {words : WordCounts} {before : List (Int × Int)}
    (h : words.Counted before) (wordPairs : List (Int × Int)) :
    (schedule.reserve wordPairs words).Tracks fun n => schedule.early wordPairs n ++ before := by
  have hsources := h.sources.reserveAll ((reorder schedule.sources wordPairs).map Prod.fst)
  have htargets := h.targets.reserveAll ((reorder schedule.targets wordPairs).map Prod.snd)
  rw [← List.map_append] at hsources htargets
  exact
    { pairs := h.pairs.reserveAll (reorder schedule.pairs wordPairs)
      sources := hsources
      targets := htargets }

/-- A pass counts its word pairs in full, whoever came before its turn. -/
theorem counted_pass (schedule : Schedule) {words : WordCounts} {before : List (Int × Int)}
    (h : words.Counted before) (wordPairs : List (Int × Int)) :
    ((schedule.reserve wordPairs words).addAll wordPairs).Counted (before ++ wordPairs) := by
  apply ((schedule.tracks_reserve h wordPairs).addAll wordPairs).counted
  · intro n _ pair
    rw [List.append_assoc, List.mem_append]
    constructor
    · rintro (hearly | hpair)
      · exact List.mem_append_right _ (mem_of_mem_early hearly)
      · exact hpair
    · exact Or.inr
  · intro n hn
    rw [schedule.early_of_three_le wordPairs hn, List.nil_append]

/-- Word pairs that were counted before have their slots, so none of them can come too early. -/
theorem reserve_of_counted (schedule : Schedule) {words : WordCounts}
    {before wordPairs : List (Int × Int)} (h : words.Counted before)
    (hknown : ∀ pair ∈ wordPairs, pair ∈ before) : schedule.reserve wordPairs words = words := by
  have hsubset (order : List Nat) : reorder order wordPairs ⊆ before := fun pair hpair =>
    hknown pair (mem_of_mem_reorder hpair)
  have hpairs : words.pairs.reserveAll (reorder schedule.pairs wordPairs) = words.pairs :=
    Tally.reserveAll_of_subset fun pair hpair => (h.pairs.mem_index pair).2 (hsubset _ hpair)
  have hsources : words.sources.reserveAll ((reorder schedule.sources wordPairs).map Prod.fst) =
      words.sources := by
    apply Tally.reserveAll_of_subset
    intro word hword
    exact (h.sources.mem_index word).2 (List.map_subset Prod.fst (hsubset _) hword)
  have htargets : words.targets.reserveAll ((reorder schedule.targets wordPairs).map Prod.snd) =
      words.targets := by
    apply Tally.reserveAll_of_subset
    intro word hword
    exact (h.targets.mem_index word).2 (List.map_subset Prod.snd (hsubset _) hword)
  unfold reserve
  rw [hpairs, hsources, htargets]

/-- With one thread, or if none was listed, no phrase pair comes before its turn. -/
theorem phrases_forThreads_eq_nil {schedule : Schedule} {threads : Int}
    (h : threads = 1 ∨ schedule.phrases = []) : (schedule.forThreads threads).phrases = [] := by
  unfold forThreads
  split
  · rfl
  · rename_i hmore
    exact h.resolve_left hmore

/-- The phrase pairs in the order in which they come to the index. Those that came before their turn
come again, in turn. -/
def arrivals (schedule : Schedule) (pairs : List PhrasePair) : List PhrasePair :=
  reorder schedule.phrases pairs ++ pairs

/-- Pairs may be replaced before or after they are put in the order in which they come. -/
theorem arrivals_map (schedule : Schedule) (f : PhrasePair → PhrasePair)
    (pairs : List PhrasePair) :
    schedule.arrivals (pairs.map f) = (schedule.arrivals pairs).map f := by
  unfold arrivals
  rw [List.map_append, map_reorder]

/-- All pairs come to the index, and no others. -/
theorem mem_arrivals {schedule : Schedule} {pairs : List PhrasePair} {pair : PhrasePair} :
    pair ∈ schedule.arrivals pairs ↔ pair ∈ pairs := by
  unfold arrivals
  rw [List.mem_append]
  constructor
  · rintro (hearly | hpair)
    · exact mem_of_mem_reorder hearly
    · exact hpair
  · exact Or.inr

end Schedule

/-! ## From pass to pass -/

/-- The state after the passes from the given one on, as many as there are left. -/
def passesFrom (schedule : Schedule) (sentences : List SentencePair) (number : Nat)
    (state : PassState) : Nat → PassState
  | 0 => state
  | left + 1 =>
    passesFrom schedule sentences (number + 1) (pass schedule sentences state number).value left

/-- The state after all passes. -/
def finalState (config : Config) (schedule : Schedule) (sentences : List SentencePair)
    (pairs : List PhrasePair) : PassState :=
  passesFrom schedule sentences 0 (PassState.start config pairs) config.passes

/-- The word pairs that are counted on this many passes. -/
def passedWords (sentences : List SentencePair) (number : Nat) : List (Int × Int) :=
  (List.replicate number (sentences.flatMap AlignedPair.wordPairs)).flatten

/-- One more pass counts the word pairs of all sentences once more. -/
theorem passedWords_succ (sentences : List SentencePair) (number : Nat) :
    passedWords sentences (number + 1) =
      passedWords sentences number ++ sentences.flatMap AlignedPair.wordPairs := by
  unfold passedWords
  rw [List.replicate_succ', List.flatten_append, List.flatten_singleton]

/-- The word counts after this many passes. -/
def passedCounts (schedule : Schedule) (sentences : List SentencePair) : Nat → WordCounts
  | 0 => .empty
  | number + 1 =>
    (schedule.reserve (sentences.flatMap AlignedPair.wordPairs)
      (passedCounts schedule sentences number)).addAll (sentences.flatMap AlignedPair.wordPairs)

/-- Under any schedule, the word pairs of every pass were counted in full. -/
theorem counted_passedCounts (schedule : Schedule) (sentences : List SentencePair)
    (number : Nat) :
    (passedCounts schedule sentences number).Counted (passedWords sentences number) := by
  induction number with
  | zero => exact WordCounts.counted_empty
  | succ number ih =>
    rw [passedWords_succ]
    exact schedule.counted_pass ih _

/-- How things stand after this many passes over the corpus. -/
structure Passed (config : Config) (schedule : Schedule) (sentences : List SentencePair)
    (pairs : List PhrasePair) (number : Nat) (state : PassState) : Prop where
  config_eq : state.counts.config = config
  words_eq : state.counts.words = passedCounts schedule sentences number
  numbered : (state.index, state.pairs) =
    if number = 0 then (PhraseIndex.empty, pairs)
    else (PhraseIndex.empty.insertAll (reorder schedule.phrases pairs)).1.insertAll pairs
  phrases_eq : state.counts.phrases =
    if number = config.passes then PhraseCounts.empty.addAll state.pairs else PhraseCounts.empty

variable {config : Config} {schedule : Schedule} {sentences : List SentencePair}
  {pairs : List PhrasePair}

/-- There is a pass. -/
theorem one_le_passes (config : Config) : 1 ≤ config.passes := by
  unfold Config.passes
  split <;> omega

/-- Before the first pass nothing was numbered or counted. -/
theorem passed_start (config : Config) (schedule : Schedule) (sentences : List SentencePair)
    (pairs : List PhrasePair) :
    Passed config schedule sentences pairs 0 (PassState.start config pairs) where
  config_eq := rfl
  words_eq := rfl
  numbered := rfl
  phrases_eq := by
    have := one_le_passes config
    rw [if_neg (by omega)]
    rfl

/-- What a pass does, without its log. -/
theorem value_pass (schedule : Schedule) (sentences : List SentencePair) (state : PassState)
    (number : Nat) :
    (pass schedule sentences state number).value =
      { (if number = 0 then state.number schedule else state) with
        counts := (Counts.countPhrases
          (Counts.countSentences
            { state.counts with
              pass := number
              words := schedule.reserve (sentences.flatMap AlignedPair.wordPairs)
                state.counts.words } sentences).value
          (if number = 0 then state.number schedule else state).pairs).value } := rfl

/-- One pass leads from each number of passes to the next. -/
theorem Passed.pass {number : Nat} {state : PassState}
    (h : Passed config schedule sentences pairs number state) (hnumber : number < config.passes) :
    Passed config schedule sentences pairs (number + 1)
      (pass schedule sentences state number).value := by
  rw [value_pass, Counts.value_countSentences, Counts.value_countPhrases]
  generalize hnext : (if number = 0 then state.number schedule else state) = next
  have hnumbered : (next.index, next.pairs) =
      (PhraseIndex.empty.insertAll (reorder schedule.phrases pairs)).1.insertAll pairs := by
    rw [← hnext]
    split
    · rename_i hzero
      have hstart := h.numbered
      rw [if_pos hzero, Prod.mk.injEq] at hstart
      unfold PassState.number
      rw [hstart.1, hstart.2]
    · rename_i hpositive
      have hnumbered := h.numbered
      rwa [if_neg hpositive] at hnumbered
  have hwords : (schedule.reserve (sentences.flatMap AlignedPair.wordPairs)
      state.counts.words).addAll (sentences.flatMap AlignedPair.wordPairs) =
      passedCounts schedule sentences (number + 1) := by
    rw [h.words_eq]
    rfl
  have huncounted : state.counts.phrases = PhraseCounts.empty := by
    have hphrases := h.phrases_eq
    rwa [if_neg (by omega)] at hphrases
  -- Only the final pass counts the phrases.
  have hfinal : Counts.isFinalPass
      { state.counts with
        pass := number
        words := (schedule.reserve (sentences.flatMap AlignedPair.wordPairs)
          state.counts.words).addAll (sentences.flatMap AlignedPair.wordPairs) } =
      decide (number + 1 = config.passes) := by
    unfold Counts.isFinalPass
    rw [h.config_eq]
    rfl
  rw [hfinal]
  by_cases hlast : number + 1 = config.passes
  · rw [decide_eq_true hlast, if_pos rfl]
    exact
      { config_eq := h.config_eq
        words_eq := hwords
        numbered := hnumbered
        phrases_eq := by rw [if_pos hlast, ← huncounted] }
  · rw [decide_eq_false hlast, if_neg Bool.false_ne_true]
    exact
      { config_eq := h.config_eq
        words_eq := hwords
        numbered := hnumbered
        phrases_eq := by rw [if_neg hlast, ← huncounted] }

/-- The passes that are left lead to the last one. -/
theorem Passed.passesFrom {number left : Nat} {state : PassState}
    (h : Passed config schedule sentences pairs number state)
    (hleft : number + left = config.passes) :
    Passed config schedule sentences pairs config.passes
      (passesFrom schedule sentences number state left) := by
  induction left generalizing number state with
  | zero =>
    rw [← hleft]
    exact h
  | succ left ih => exact ih (h.pass (by omega)) (by omega)

/-- How things stand after the last pass. -/
theorem passed_finalState (config : Config) (schedule : Schedule) (sentences : List SentencePair)
    (pairs : List PhrasePair) :
    Passed config schedule sentences pairs config.passes
      (finalState config schedule sentences pairs) :=
  (passed_start config schedule sentences pairs).passesFrom (Nat.zero_add _)

/-! ## After the last pass -/

/-- The index holds the pairs in the order in which they came to it. -/
theorem index_finalState (config : Config) (schedule : Schedule) (sentences : List SentencePair)
    (pairs : List PhrasePair) :
    (finalState config schedule sentences pairs).index =
      (PhraseIndex.empty.insertAll (schedule.arrivals pairs)).1 := by
  have hpasses := one_le_passes config
  have hnumbered := (passed_finalState config schedule sentences pairs).numbered
  rw [if_neg (by omega)] at hnumbered
  unfold Schedule.arrivals
  rw [PhraseIndex.fst_insertAll_append]
  exact congrArg Prod.fst hnumbered

/-- Every pair was given the numbers that it has in the index at the end. -/
theorem pairs_finalState (config : Config) (schedule : Schedule) (sentences : List SentencePair)
    (pairs : List PhrasePair) :
    (finalState config schedule sentences pairs).pairs = pairs.map fun pair =>
      pair.withIds ((finalState config schedule sentences pairs).index.idsOf pair) := by
  have hpasses := one_le_passes config
  have hnumbered := (passed_finalState config schedule sentences pairs).numbered
  rw [if_neg (by omega)] at hnumbered
  have hindex := congrArg Prod.fst hnumbered
  have hpairs := congrArg Prod.snd hnumbered
  dsimp only at hindex hpairs
  rw [hpairs, PhraseIndex.snd_insertAll, ← hindex]

/-- Every phrase pair was counted once, under the numbers that it was given. -/
theorem phrases_finalState (config : Config) (schedule : Schedule)
    (sentences : List SentencePair) (pairs : List PhrasePair) :
    (finalState config schedule sentences pairs).counts.phrases =
      PhraseCounts.empty.addAll (finalState config schedule sentences pairs).pairs := by
  have hphrases := (passed_finalState config schedule sentences pairs).phrases_eq
  rwa [if_pos rfl] at hphrases

/-- The words of all sentences were counted once on every pass. -/
theorem counted_finalState (config : Config) (schedule : Schedule)
    (sentences : List SentencePair) (pairs : List PhrasePair) :
    (finalState config schedule sentences pairs).counts.words.Counted
      (passedWords sentences config.passes) := by
  rw [(passed_finalState config schedule sentences pairs).words_eq]
  exact counted_passedCounts schedule sentences config.passes

end PhraseTable.Run
