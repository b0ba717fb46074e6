import PhraseTable.Proofs.Counts.Operations

/-!
# The accounts of the word counts

The count of a word is the sum of the counts of the pairs that it belongs to, and the three count
vectors have as many slots as their indexes have numbers, none of them empty. `Balanced` states
this of word counts as they are read, without their history. `wordsAfter_balanced` says that it
holds after every run of operations, and that a count is missing for the words and pairs that were
never counted and for no others.
-/

set_option autoImplicit false

namespace PhraseTable

/-- A count as it is reported: -1 stands for what was never counted. -/
def reported (count : Option Int) : Int :=
  count.getD (-1)

namespace WordCounts

/-- The accounting invariant. A word that was never counted has the marginal zero. -/
structure Balanced (words : WordCounts) : Prop where
  /-- The joint counts of a target word add up to its own count. -/
  sum_target : ∀ target : Int,
    ((words.pairs.index.toList.filter fun pair => pair.2 = target).map fun pair =>
      reported (words.pairCount? pair.1 pair.2)).sum = (words.targetCount? target).getD 0
  /-- The joint counts of a source word add up to its own count. -/
  sum_source : ∀ source : Int,
    ((words.pairs.index.toList.filter fun pair => pair.1 = source).map fun pair =>
      reported (words.pairCount? pair.1 pair.2)).sum = (words.sourceCount? source).getD 0
  pairs_filled : words.pairs.Filled
  sources_filled : words.sources.Filled
  targets_filled : words.targets.Filled
  /-- A joint count is no larger than the counts of its words. -/
  pair_le : ∀ source target : Int, 1 ≤ reported (words.pairCount? source target) →
    reported (words.pairCount? source target) ≤ reported (words.sourceCount? source) ∧
      reported (words.pairCount? source target) ≤ reported (words.targetCount? target)
  totals : words.sources.counts.total = words.pairs.counts.total ∧
    words.targets.counts.total = words.pairs.counts.total

/-! ## Balance from the history -/

variable {words : WordCounts} {pairs : List (Int × Int)}

/-- The joint count of two words is the number of times that they were counted together. -/
theorem Counted.getD_pairCount? (h : words.Counted pairs) (source target : Int) :
    (words.pairCount? source target).getD 0 = (pairs.countP (· = (source, target)) : Int) :=
  Tally.Tracks.getD_count? h.pairs (source, target)

/-- The count of a source word is the number of pairs with it. -/
theorem Counted.getD_sourceCount? (h : words.Counted pairs) (source : Int) :
    (words.sourceCount? source).getD 0 = (pairs.countP (·.1 = source) : Int) := by
  have hcount := Tally.Tracks.getD_count? h.sources source
  rw [List.countP_map] at hcount
  exact hcount

/-- The count of a target word is the number of pairs with it. -/
theorem Counted.getD_targetCount? (h : words.Counted pairs) (target : Int) :
    (words.targetCount? target).getD 0 = (pairs.countP (·.2 = target) : Int) := by
  have hcount := Tally.Tracks.getD_count? h.targets target
  rw [List.countP_map] at hcount
  exact hcount

/-- A joint count is missing just for words that were never counted together. -/
theorem Counted.pairCount?_eq_none_iff (h : words.Counted pairs) {source target : Int} :
    words.pairCount? source target = none ↔ (source, target) ∉ pairs :=
  Tally.Tracks.count?_eq_none_iff h.pairs

/-- A count is missing just for a source word that was never counted with any other. -/
theorem Counted.sourceCount?_eq_none_iff (h : words.Counted pairs) {source : Int} :
    words.sourceCount? source = none ↔ ∀ target : Int, (source, target) ∉ pairs := by
  refine (Tally.Tracks.count?_eq_none_iff h.sources).trans ?_
  simp

/-- A count is missing just for a target word that was never counted with any other. -/
theorem Counted.targetCount?_eq_none_iff (h : words.Counted pairs) {target : Int} :
    words.targetCount? target = none ↔ ∀ source : Int, (source, target) ∉ pairs := by
  refine (Tally.Tracks.count?_eq_none_iff h.targets).trans ?_
  simp

/-- A count is reported as it is, and only a missing one is reported as -1. -/
theorem reported_eq_neg_one_iff {count : Option Int} (h : 0 ≤ count.getD 0) :
    reported count = -1 ↔ count = none := by
  cases count with
  | none => exact iff_of_true rfl rfl
  | some n =>
    have hn : 0 ≤ n := h
    refine iff_of_false ?_ nofun
    show n ≠ -1
    omega

/-- A count that is there is reported as it is. -/
theorem reported_of_ne_none {count : Option Int} (h : count ≠ none) :
    reported count = count.getD 0 := by
  obtain ⟨n, rfl⟩ := Option.ne_none_iff_exists'.1 h
  rfl

/-- No count is reported as more than it is. -/
theorem reported_le_getD (count : Option Int) : reported count ≤ count.getD 0 := by
  cases count with
  | none => decide
  | some n => exact le_rfl

/-- No source word is counted more often than word pairs are. -/
theorem Counted.reported_sourceCount?_le (h : words.Counted pairs) (source : Int) :
    reported (words.sourceCount? source) ≤ pairs.length := by
  refine (reported_le_getD _).trans ?_
  rw [h.getD_sourceCount?]
  exact_mod_cast List.countP_le_length

/-- No target word is counted more often than word pairs are. -/
theorem Counted.reported_targetCount?_le (h : words.Counted pairs) (target : Int) :
    reported (words.targetCount? target) ≤ pairs.length := by
  refine (reported_le_getD _).trans ?_
  rw [h.getD_targetCount?]
  exact_mod_cast List.countP_le_length

/-- Counts are balanced when all word pairs that were begun have been counted in full. -/
theorem Counted.balanced (h : words.Counted pairs) : words.Balanced where
  sum_target target := by
    rw [h.getD_targetCount?]
    exact Tally.Tracks.sum_count? h.pairs (fun pair => decide (pair.2 = target)) (-1)
  sum_source source := by
    rw [h.getD_sourceCount?]
    exact Tally.Tracks.sum_count? h.pairs (fun pair => decide (pair.1 = source)) (-1)
  pairs_filled := Tally.Tracks.filled h.pairs
  sources_filled := Tally.Tracks.filled h.sources
  targets_filled := Tally.Tracks.filled h.targets
  pair_le := by
    intro source target hone
    have hpair : words.pairCount? source target ≠ none := by
      intro hnone
      rw [hnone] at hone
      exact absurd hone (by decide)
    have hmem : (source, target) ∈ pairs := by
      by_contra hmem
      exact hpair (h.pairCount?_eq_none_iff.2 hmem)
    have hsource : words.sourceCount? source ≠ none := fun hnone =>
      h.sourceCount?_eq_none_iff.1 hnone target hmem
    have htarget : words.targetCount? target ≠ none := fun hnone =>
      h.targetCount?_eq_none_iff.1 hnone source hmem
    rw [reported_of_ne_none hpair, reported_of_ne_none hsource, reported_of_ne_none htarget,
      h.getD_pairCount?, h.getD_sourceCount?, h.getD_targetCount?]
    constructor
    · refine Int.ofNat_le.2 (List.countP_mono_left fun pair _ heq => ?_)
      simp only [decide_eq_true_eq] at heq ⊢
      rw [heq]
    · refine Int.ofNat_le.2 (List.countP_mono_left fun pair _ heq => ?_)
      simp only [decide_eq_true_eq] at heq ⊢
      rw [heq]
  totals := by
    rw [Tally.Tracks.total_counts h.pairs, Tally.Tracks.total_counts h.sources,
      Tally.Tracks.total_counts h.targets, List.length_map, List.length_map]
    exact ⟨rfl, rfl⟩

end WordCounts

namespace Counts

/-- **The accounts are balanced after every run.** The settings, the order of the passes, failed
passes and phrases play no part. A count is reported as missing for the words and the pairs that no
operation of the run has counted, and for no others. -/
theorem wordsAfter_balanced (config : Config) (ops : List CountOp) :
    (wordsAfter config ops).Balanced ∧
      (∀ source target : Int, reported ((wordsAfter config ops).pairCount? source target) = -1 ↔
        (source, target) ∉ ops.flatMap CountOp.wordPairs) ∧
      (∀ source : Int, reported ((wordsAfter config ops).sourceCount? source) = -1 ↔
        ∀ target : Int, (source, target) ∉ ops.flatMap CountOp.wordPairs) ∧
      (∀ target : Int, reported ((wordsAfter config ops).targetCount? target) = -1 ↔
        ∀ source : Int, (source, target) ∉ ops.flatMap CountOp.wordPairs) := by
  have h := counted_wordsAfter config ops
  refine ⟨h.balanced, ?_, ?_, ?_⟩
  · intro source target
    rw [← h.pairCount?_eq_none_iff]
    apply WordCounts.reported_eq_neg_one_iff
    rw [h.getD_pairCount?]
    omega
  · intro source
    rw [← h.sourceCount?_eq_none_iff]
    apply WordCounts.reported_eq_neg_one_iff
    rw [h.getD_sourceCount?]
    omega
  · intro target
    rw [← h.targetCount?_eq_none_iff]
    apply WordCounts.reported_eq_neg_one_iff
    rw [h.getD_targetCount?]
    omega

end Counts

end PhraseTable
