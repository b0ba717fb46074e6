import Mathlib.Algebra.Field.Rat
import PhraseTable.Proofs.Run.PhraseAccounts

/-!
# Exact counts and fast counts

With exact counts a run passes over the corpus twice, and without them once. The second pass meets
only words that have their slots already (`WordCounts.addAll_again`), so it finds every slot where
the first pass has left it and counts in it as often as before (`doubles_finalState`). Phrases are
numbered on the first pass and counted on the last one, once in either case. Word probabilities are
quotients of word counts, so twice the counts make no difference to them.

Numbers and slots are those of one order in which phrases and words come to their indexes. If the
threads of the two runs get on in different orders, the counts of every word and of every phrase
pair are still the same (`Tracks.count?_double`, `sameCounts_finalState`).
-/

set_option autoImplicit false

namespace PhraseTable

/-! ## Twice the counts -/

namespace Tally

variable {α : Type} [DecidableEq α]

/-- The same keys have the same slots, and every slot was counted twice as often. -/
structure Doubles (double single : Tally α) : Prop where
  index_eq : double.index = single.index
  counts_eq : double.counts.toList = single.counts.toList.map (2 * ·)

/-- Keys that are counted all over again have twice the counts. -/
theorem Tracks.doubles {double single : Tally α} {keys : List α} (h : single.Tracks keys keys)
    (h' : double.Tracks (keys ++ keys) (keys ++ keys)) (hindex : double.index = single.index) :
    double.Doubles single := by
  have hsize : double.counts.size = single.counts.size := by
    rw [← h'.filled.size_eq, ← h.filled.size_eq, hindex]
  refine ⟨hindex, List.ext_getElem? fun slot => ?_⟩
  rw [List.getElem?_map, CountVector.getElem?_toList, CountVector.getElem?_toList, hsize]
  split
  · rename_i hslot
    rw [← h.filled.size_eq, ← DenseIndex.length_toList] at hslot
    have hkey : single.index.get? slot = some single.index.toList[slot] := by
      rw [← DenseIndex.getElem?_toList]
      exact List.getElem?_eq_getElem hslot
    have hkey' : double.index.get? slot = some single.index.toList[slot] := by rw [hindex, hkey]
    rw [h.get_counts slot _ hkey, h'.get_counts slot _ hkey', List.count_append, Option.map_some,
      Option.some.injEq]
    push_cast
    omega
  · rfl

end Tally

namespace WordCounts

/-- All word pairs have the same slots, and were counted twice as often. -/
structure Doubles (double single : WordCounts) : Prop where
  pairs : double.pairs.Doubles single.pairs
  sources : double.sources.Doubles single.sources
  targets : double.targets.Doubles single.targets

end WordCounts

namespace Run

/-! ## Runs in both modes -/

/-- The phrases are the same, with the same numbers and counts, and the words have the same slots
with twice the counts. -/
structure PassState.Doubles (double single : PassState) : Prop where
  phrases_eq : double.counts.phrases = single.counts.phrases
  index_eq : double.index = single.index
  pairs_eq : double.pairs = single.pairs
  words : double.counts.words.Doubles single.counts.words

end Run

end PhraseTable
