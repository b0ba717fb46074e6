import PhraseTable.Proofs.Score.Weights

/-!
# The averaged weights and the greatest probabilities

A word is explained by the words that it is linked to, or by the null word, and all of these are
candidates for its greatest probability. A mean is no greater than the greatest of its values, and
the least probability, which stands in for a mean of zero, is where the greatest probability starts
from. So no factor of the averaged weight is greater than the factor of the same position in the
weight by the greatest probabilities (`floored_le_greatest`). Without gaps both weights have a
factor for every position, and the weights compare as their factors do (`averaged_le_largest`).

This is exact. In doubles a mean is rounded, and may be rounded above the greatest of its values.
-/

set_option autoImplicit false

namespace PhraseTable

/-- No value of the table is negative. -/
structure WordTable.NonNegative (table : WordTable ℚ) : Prop where
  source : ∀ f e : Int, 0 ≤ table.sourceGivenTarget f e
  target : ∀ f e : Int, 0 ≤ table.targetGivenSource f e

/-- The mirrored table has no negative values, either. -/
theorem WordTable.NonNegative.mirror {table : WordTable ℚ} (h : table.NonNegative) :
    table.mirror.NonNegative where
  source f e := h.target e f
  target f e := h.source e f

namespace Arithmetic

variable {table : WordTable ℚ} {least : ℚ} {pair : AlignedPair}

/-- The factor of a word in the averaged weight is no greater than its greatest probability. -/
theorem floored_le_greatest (table : WordTable ℚ) (least : ℚ) (pair : AlignedPair) (i : Nat) :
    exact.floored least
        (exact.mean (table.sourceGivenTarget (pair.sourceAt i) nullWord)
          ((pair.targetsOf i).map fun j =>
            table.sourceGivenTarget (pair.sourceAt i) (pair.targetAt j))) ≤
      exact.greatest least ((pair.target ++ [nullWord]).map fun e =>
        table.sourceGivenTarget (pair.sourceAt i) e) := by
  have hcandidate : ∀ e ∈ pair.target ++ [nullWord],
      table.sourceGivenTarget (pair.sourceAt i) e ≤
        exact.greatest least ((pair.target ++ [nullWord]).map fun e =>
          table.sourceGivenTarget (pair.sourceAt i) e) := by
    intro e he
    exact le_exact_greatest_of_mem least (List.mem_map_of_mem he)
  rw [exact_floored]
  split
  · exact le_exact_greatest least _
  · apply exact_mean_le
    · exact hcandidate nullWord (by simp)
    · refine List.forall_mem_map.2 fun j hj => ?_
      exact hcandidate _ (List.mem_append_left _ (AlignedPair.targetAt_mem hj))

/-- A floored mean is not negative. -/
theorem floored_nonneg (hleast : 0 ≤ least) {mean : ℚ} (hmean : 0 ≤ mean) :
    0 ≤ exact.floored least mean := by
  rw [exact_floored]
  split
  · exact hleast
  · exact hmean

/-- Without gaps all positions have a mean. -/
theorem means_of_no_gaps (hgaps : ∀ symbol ∈ pair.source, 0 ≤ symbol) :
    exact.means table pair = (List.range pair.source.length).map fun i =>
      exact.mean (table.sourceGivenTarget (pair.sourceAt i) nullWord)
        ((pair.targetsOf i).map fun j =>
          table.sourceGivenTarget (pair.sourceAt i) (pair.targetAt j)) := by
  have hall : ((List.range pair.source.length).filter fun i =>
      !Surface.isGap (pair.sourceAt i)) = List.range pair.source.length := by
    rw [List.filter_eq_self]
    intro i hi
    have hlt : i < pair.source.length := List.mem_range.1 hi
    have hsymbol : 0 ≤ pair.sourceAt i := by
      apply hgaps
      simp [AlignedPair.sourceAt, hlt]
    simp [Surface.isGap, hsymbol]
  unfold means
  rw [hall]

/-- In a phrase without gaps the averaged weight is at most the greatest one. -/
theorem averaged_le_largest (htable : table.NonNegative) (hleast : 0 ≤ least)
    (hgaps : ∀ symbol ∈ pair.source, 0 ≤ symbol) :
    exact.averaged table least pair ≤ exact.largest table least pair := by
  unfold averaged largest maxima
  rw [means_of_no_gaps hgaps, List.map_map, exact_product, exact_product]
  apply List.prod_map_le_prod_map₀
  · intro i _
    apply floored_nonneg hleast
    apply exact_mean_nonneg (htable.source _ _)
    exact List.forall_mem_map.2 fun j _ => htable.source _ _
  · intro i _
    exact floored_le_greatest table least pair i

end Arithmetic

namespace PhrasePair

/-- **The greatest probabilities weigh no less.** For every table without negative values, every
least probability that is not negative, and every pair without gaps, with any links, an averaged
weight is at most the weight by the greatest probabilities. This is exact; the features compute the
same in doubles. -/
theorem lexWeights_le_maxLexWeights (table : WordTable ℚ) (htable : table.NonNegative) {least : ℚ}
    (hleast : 0 ≤ least) (pair : PhrasePair)
    (hgaps : ∀ symbol ∈ pair.source ++ pair.target, 0 ≤ symbol) :
    let weights := Arithmetic.exact.weights table least pair.toAlignedPair
    weights.lexSourceGivenTarget ≤ weights.maxLexSourceGivenTarget ∧
      weights.lexTargetGivenSource ≤ weights.maxLexTargetGivenSource ∧
      ∀ (running : LexicalTable) (scoring : Config),
        pair.lexicalWeights running scoring =
          Arithmetic.doubles.weights running.words scoring.minLexProb pair.toAlignedPair := by
  intro weights
  refine ⟨?_, ?_, fun running scoring => pair.lexicalWeights_eq running scoring⟩
  · apply Arithmetic.averaged_le_largest htable hleast
    exact fun symbol hsymbol => hgaps symbol (List.mem_append_left _ hsymbol)
  · apply Arithmetic.averaged_le_largest htable.mirror hleast
    exact fun symbol hsymbol => hgaps symbol (List.mem_append_right _ hsymbol)

/-- A word with two links of different probabilities and one without links. -/
theorem lexWeights_le_maxLexWeights_two_links :
    let table : WordTable ℚ :=
      ⟨fun _ e => if e = 3 then 1 / 2 else 0, fun f _ => if f = 1 then 1 / 3 else 2⟩
    table.NonNegative ∧ (0 : ℚ) ≤ 1 / 10 ∧
    ∃ pair : PhrasePair,
      PhrasePair.ofLinks [1, 2] [3, 4] ["a", "b"] ["x", "y"] [⟨0, 0⟩, ⟨0, 1⟩] = .ok pair ∧
      (∀ symbol ∈ pair.source ++ pair.target, 0 ≤ symbol) ∧
      let weights := Arithmetic.exact.weights table (1 / 10) pair.toAlignedPair
      weights.lexSourceGivenTarget = 1 / 40 ∧
      weights.maxLexSourceGivenTarget = 1 / 4 ∧
      weights.lexSourceGivenTarget ≤ weights.maxLexSourceGivenTarget ∧
      weights.lexTargetGivenSource ≤ weights.maxLexTargetGivenSource := by
  intro table
  have htable : table.NonNegative := by
    constructor
    · intro f e
      show (0 : ℚ) ≤ if e = 3 then 1 / 2 else 0
      split <;> norm_num
    · intro f e
      show (0 : ℚ) ≤ if f = 1 then 1 / 3 else 2
      split <;> norm_num
  have hleast : (0 : ℚ) ≤ 1 / 10 := by norm_num
  refine ⟨htable, hleast, ?_⟩
  obtain ⟨pair, hpair, hgaps, haveraged, hlargest⟩ : ∃ pair : PhrasePair,
      PhrasePair.ofLinks [1, 2] [3, 4] ["a", "b"] ["x", "y"] [⟨0, 0⟩, ⟨0, 1⟩] = .ok pair ∧
      (∀ symbol ∈ pair.source ++ pair.target, 0 ≤ symbol) ∧
      (Arithmetic.exact.weights table (1 / 10) pair.toAlignedPair).lexSourceGivenTarget = 1 / 40 ∧
      (Arithmetic.exact.weights table (1 / 10) pair.toAlignedPair).maxLexSourceGivenTarget =
        1 / 4 := ⟨_, rfl, by decide, by decide +kernel, by decide +kernel⟩
  obtain ⟨hsource, htarget, -⟩ := lexWeights_le_maxLexWeights table htable hleast pair hgaps
  exact ⟨pair, hpair, hgaps, haveraged, hlargest, hsource, htarget⟩

end PhrasePair

/-- Rounding breaks the order: the mean of three equal doubles may be greater than they are. -/
example : Arithmetic.doubles.greatest 0 [0.1, 0.1, 0.1] <
    Arithmetic.doubles.mean 0 [0.1, 0.1, 0.1] := by
  decide

end PhraseTable
