import PhraseTable.Proofs.Score.WeightBounds

/-!
# Bounds of the averaged weights

The least probability stands in for a mean that is zero, and for no other: a mean that is not zero
is kept, however small it is. So in exact arithmetic an averaged weight is above zero and at most
one, but a mean between zero and the least probability brings it below the power of the least
probability (`averagedWeight_below_least`). Where there is no such mean the power is a lower bound,
and in any case the counts leave one, since a probability that is not zero is at least one part of
all that was counted (`averagedWeights_bounded`).
-/

set_option autoImplicit false

namespace PhraseTable

/-- No value of the table that is not zero is less than one part of the total. -/
structure WordTable.Spread (table : WordTable ℚ) (total : ℕ) : Prop where
  source : ∀ f e : Int, table.sourceGivenTarget f e = 0 ∨ 1 ≤ table.sourceGivenTarget f e * total
  target : ∀ f e : Int, table.targetGivenSource f e = 0 ∨ 1 ≤ table.targetGivenSource f e * total

/-- The mirrored table is spread as well. -/
theorem WordTable.Spread.mirror {table : WordTable ℚ} {total : ℕ} (h : table.Spread total) :
    table.mirror.Spread total where
  source f e := h.target e f
  target f e := h.source e f

namespace AlignedPair

/-- A position has at most as many links as the other phrase has symbols. -/
theorem length_targetsOf_le (pair : AlignedPair) (i : Nat) :
    (pair.targetsOf i).length ≤ pair.target.length := by
  have hnodup : (pair.targetsOf i).Nodup := by
    refine pair.nodup.filterMap fun link other j hlink hother => ?_
    simp only [Option.ite_none_right_eq_some, Option.mem_def, Option.some.injEq] at hlink hother
    cases link
    cases other
    simp_all
  have hsubset : pair.targetsOf i ⊆ List.range pair.target.length := by
    intro j hj
    exact List.mem_range.2 (lt_of_mem_targetsOf hj)
  simpa using (hnodup.subperm hsubset).length_le

end AlignedPair

namespace Arithmetic

/-! ## Probabilities that are not zero -/

/-- What is not zero is at least one part of as many as are counted at all. -/
theorem exact_countRatio_spread {joint marginal : Option Int} {total : ℕ}
    (h : reported marginal ≤ total) :
    exact.countRatio joint marginal = 0 ∨ 1 ≤ exact.countRatio joint marginal * total := by
  rw [exact_countRatio]
  split
  · rename_i hpos
    have hjoint : (1 : ℚ) ≤ reported joint := by exact_mod_cast hpos.1
    have hmarginal : (0 : ℚ) < reported marginal := by exact_mod_cast hpos.2
    have htotal : (reported marginal : ℚ) ≤ total := by exact_mod_cast h
    right
    rw [div_mul_eq_mul_div, one_le_div₀ hmarginal]
    exact htotal.trans (le_mul_of_one_le_left (Nat.cast_nonneg total) hjoint)
  · exact .inl rfl

/-- The table of counted words is spread over the number of word pairs. -/
theorem spread_of_counted {words : WordCounts} {pairs : List (Int × Int)}
    (h : words.Counted pairs) : (exact.table words).Spread pairs.length where
  source _ e := exact_countRatio_spread (h.reported_targetCount?_le e)
  target f _ := exact_countRatio_spread (h.reported_sourceCount?_le f)

/-! ## The means -/

/-- There is a mean for every source position that is no gap. -/
theorem length_means {α : Type} (A : Arithmetic α) (table : WordTable α) (pair : AlignedPair) :
    (A.means table pair).length = pair.source.countP (!Surface.isGap ·) := by
  have hsource : (List.range pair.source.length).map pair.sourceAt = pair.source := by
    apply List.ext_getElem
    · simp
    · intro i hi hi'
      simp [AlignedPair.sourceAt, hi']
  conv_rhs => rw [← hsource, List.countP_map, List.countP_eq_length_filter]
  simp [means, Function.comp_def]

variable {table : WordTable ℚ} {least bound : ℚ} {pair : AlignedPair} {mean : ℚ}

/-- A mean of probabilities is one. -/
theorem mem_means (htable : table.IsProbability) (h : mean ∈ exact.means table pair) :
    mean ∈ Set.Icc 0 1 := by
  obtain ⟨i, -, rfl⟩ := List.mem_map.1 h
  have hnull := htable.source_mem (pair.sourceAt i) nullWord
  exact ⟨exact_mean_nonneg hnull.1 (List.forall_mem_map.2 fun j _ => (htable.source_mem _ _).1),
    exact_mean_le hnull.2 (List.forall_mem_map.2 fun j _ => (htable.source_mem _ _).2)⟩

/-- A mean that is not zero has a value that is not zero. -/
theorem exact_mean_spread {null : ℚ} {linked : List ℚ} {total limit : ℕ}
    (hnull : null = 0 ∨ 1 ≤ null * total) (hpos : ∀ value ∈ linked, 0 ≤ value)
    (hlinked : ∀ value ∈ linked, value = 0 ∨ 1 ≤ value * total) (hlimit : linked.length ≤ limit)
    (hone : 1 ≤ limit) :
    exact.mean null linked = 0 ∨ 1 ≤ exact.mean null linked * total * limit := by
  rw [exact_mean]
  split
  · refine hnull.imp_right fun hnull => ?_
    exact one_le_mul_of_one_le_of_one_le hnull (by exact_mod_cast hone)
  · rename_i hne
    by_cases hzero : ∀ value ∈ linked, value = 0
    · left
      rw [List.sum_eq_zero hzero, zero_div]
    · right
      push Not at hzero
      obtain ⟨value, hvalue, hvalue0⟩ := hzero
      have hlength : (0 : ℚ) < linked.length := by
        exact_mod_cast List.length_pos_iff.2 hne
      have hlimitQ : (linked.length : ℚ) ≤ limit := by exact_mod_cast hlimit
      have hsum : 1 ≤ linked.sum * total :=
        calc 1 ≤ value * total := (hlinked value hvalue).resolve_left hvalue0
          _ ≤ linked.sum * total := by
            gcongr
            exact List.single_le_sum hpos value hvalue
      rw [div_mul_eq_mul_div, div_mul_eq_mul_div, one_le_div₀ hlength]
      exact hlimitQ.trans (le_mul_of_one_le_left (Nat.cast_nonneg limit) hsum)

/-- A mean that is not zero is no less than one part of the total and of the targets. -/
theorem spread_means {total : ℕ} (htable : table.IsProbability) (hspread : table.Spread total)
    (h : mean ∈ exact.means table pair) :
    mean = 0 ∨ 1 ≤ mean * (total * max 1 pair.target.length : ℕ) := by
  obtain ⟨i, -, rfl⟩ := List.mem_map.1 h
  have hlimit := (pair.length_targetsOf_le i).trans (le_max_right 1 _)
  rw [Nat.cast_mul, ← mul_assoc]
  apply exact_mean_spread (hspread.source _ _)
  · exact List.forall_mem_map.2 fun j _ => (htable.source_mem _ _).1
  · exact List.forall_mem_map.2 fun j _ => hspread.source _ _
  · rwa [List.length_map]
  · exact le_max_left 1 _

/-! ## Averaged weights -/

/-- A floored probability is positive. -/
theorem floored_mem (hpos : 0 < least) (hle : least ≤ 1) (h : mean ∈ Set.Icc 0 1) :
    exact.floored least mean ∈ Set.Ioc 0 1 := by
  rw [exact_floored]
  split
  · exact ⟨hpos, hle⟩
  · rename_i hne
    exact ⟨lt_of_le_of_ne h.1 (Ne.symm hne), h.2⟩

/-- What is no more than the least value bounds a floored mean just when it bounds the mean, or this
is zero. -/
theorem le_floored_iff (h : bound ≤ least) :
    bound ≤ exact.floored least mean ↔ mean = 0 ∨ bound ≤ mean := by
  rw [exact_floored]
  split
  · rename_i hzero
    exact iff_of_true h (.inl hzero)
  · rename_i hne
    simp [hne]

/-- An averaged weight is a positive probability. -/
theorem averaged_mem (htable : table.IsProbability) (hpos : 0 < least) (hle : least ≤ 1) :
    exact.averaged table least pair ∈ Set.Ioc 0 1 := by
  have hfactors : ∀ factor ∈ (exact.means table pair).map (exact.floored least),
      factor ∈ Set.Ioc 0 1 := by
    intro factor hfactor
    obtain ⟨mean, hmean, rfl⟩ := List.mem_map.1 hfactor
    exact floored_mem hpos hle (mem_means htable hmean)
  constructor
  · unfold averaged
    rw [exact_product]
    exact List.prod_pos fun factor hfactor => (hfactors factor hfactor).1
  · exact product_le_one (fun factor hfactor => (hfactors factor hfactor).1.le)
      fun factor hfactor => (hfactors factor hfactor).2

/-- A bound of all factors gives one of their product. -/
theorem pow_le_averaged (hbound : 0 ≤ bound) (hle : bound ≤ least)
    (h : ∀ mean ∈ exact.means table pair, mean = 0 ∨ bound ≤ mean) :
    bound ^ pair.source.countP (!Surface.isGap ·) ≤ exact.averaged table least pair := by
  have hlength : ((exact.means table pair).map (exact.floored least)).length =
      pair.source.countP (!Surface.isGap ·) := by
    rw [List.length_map, length_means]
  rw [← hlength]
  refine pow_length_le_product hbound ?_
  intro factor hfactor
  obtain ⟨mean, hmean, rfl⟩ := List.mem_map.1 hfactor
  exact (le_floored_iff hle).2 (h mean hmean)

/-- What bounds the averaged weight of a phrase. The means are those of its words, and `total` word
pairs were counted. -/
structure AveragedBounds (least : ℚ) (total : ℕ) (phrase other : List Int) (means : List ℚ)
    (weight : ℚ) : Prop where
  length_means : means.length = phrase.countP (!Surface.isGap ·)
  weight_eq : weight = (means.map (exact.floored least)).prod
  mean_mem : ∀ mean ∈ means, mean ∈ Set.Icc 0 1
  /-- No factor is zero. -/
  factor_mem : ∀ mean ∈ means, exact.floored least mean ∈ Set.Ioc 0 1
  /-- A factor is less than the least probability just if its mean is, without being zero. -/
  least_le_factor_iff : ∀ mean ∈ means,
    least ≤ exact.floored least mean ↔ mean = 0 ∨ least ≤ mean
  weight_mem : weight ∈ Set.Ioc 0 1
  pow_least_le : (∀ mean ∈ means, mean = 0 ∨ least ≤ mean) →
    least ^ phrase.countP (!Surface.isGap ·) ≤ weight
  /-- Whatever the means are, the counts leave a lower bound. -/
  pow_bound_le : ∀ bound : ℚ, 0 ≤ bound → bound ≤ least →
    bound * (total * max 1 other.length : ℕ) ≤ 1 →
      bound ^ phrase.countP (!Surface.isGap ·) ≤ weight

/-- The averaged weight of a pair is bounded, with any table that is spread. -/
theorem averagedBounds {total : ℕ} (htable : table.IsProbability) (hspread : table.Spread total)
    (hpos : 0 < least) (hle : least ≤ 1) (pair : AlignedPair) :
    AveragedBounds least total pair.source pair.target (exact.means table pair)
      (exact.averaged table least pair) where
  length_means := exact.length_means table pair
  weight_eq := exact_product _
  mean_mem mean hmean := mem_means htable hmean
  factor_mem mean hmean := floored_mem hpos hle (mem_means htable hmean)
  least_le_factor_iff mean _ := le_floored_iff le_rfl
  weight_mem := averaged_mem htable hpos hle
  pow_least_le := pow_le_averaged hpos.le le_rfl
  pow_bound_le := by
    intro bound hbound hboundle htotal
    refine pow_le_averaged hbound hboundle fun mean hmean => ?_
    refine (spread_means htable hspread hmean).imp_right fun hone => ?_
    have hscaled := htotal.trans hone
    have hscale : (0 : ℚ) < (total * max 1 pair.target.length : ℕ) := by
      refine lt_of_le_of_ne (Nat.cast_nonneg _) fun hzero => ?_
      rw [← hzero, mul_zero] at hone
      exact absurd hone (by norm_num)
    exact le_of_mul_le_mul_right hscaled hscale

end Arithmetic

namespace Counts

/-- **Bounds of the averaged weights.** After every run of counting operations all means lie between
zero and one, and the weights are above zero and at most one. A factor is less than the least
probability just if its mean is, without being zero. If no mean is, the weight is at least the power
of the least probability. This is exact; the features compute the same in doubles. -/
theorem averagedWeights_bounded (config : Config) (ops : List CountOp) (pair : PhrasePair)
    {least : ℚ} (hpos : 0 < least) (hle : least ≤ 1) :
    let words := wordsAfter config ops
    let table := Arithmetic.exact.table words
    let weights := Arithmetic.exact.weights table least pair.toAlignedPair
    let total := (ops.flatMap CountOp.wordPairs).length
    Arithmetic.AveragedBounds least total pair.source pair.target
        (Arithmetic.exact.means table pair.toAlignedPair) weights.lexSourceGivenTarget ∧
      Arithmetic.AveragedBounds least total pair.target pair.source
        (Arithmetic.exact.means table.mirror pair.toAlignedPair.mirror)
        weights.lexTargetGivenSource ∧
      ∀ scoring : Config, pair.lexicalWeights words.table scoring =
        Arithmetic.doubles.weights (Arithmetic.doubles.table words) scoring.minLexProb
          pair.toAlignedPair := by
  intro words table weights total
  have htable : table.IsProbability := isProbability_table config ops
  have hspread : table.Spread total := Arithmetic.spread_of_counted (counted_wordsAfter config ops)
  refine ⟨?_, ?_, fun scoring => pair.lexicalWeights_eq words.table scoring⟩
  · exact Arithmetic.averagedBounds htable hspread hpos hle pair.toAlignedPair
  · exact Arithmetic.averagedBounds htable.mirror hspread.mirror hpos hle pair.toAlignedPair.mirror

/-- A word that is linked to a word and to a gap, and a word without links. Two word pairs were
counted. -/
theorem averagedWeights_bounded_gap :
    ∃ pair : PhrasePair,
      PhrasePair.ofLinks [1, 3] [2, -1] ["a", "b"] ["x"] [⟨0, 1⟩, ⟨0, 0⟩] = .ok pair ∧
      (0 : ℚ) < 1 / 8 ∧ (1 / 8 : ℚ) ≤ 1 ∧
      let table := Arithmetic.exact.table
        (wordsAfter default [.addWordPair 1 2, .addWordPair 3 2])
      let weights := Arithmetic.exact.weights table (1 / 8) pair.toAlignedPair
      Arithmetic.AveragedBounds (1 / 8) 2 [1, 3] [2, -1] [1 / 4, 0] weights.lexSourceGivenTarget ∧
      (1 / 8) ^ 2 ≤ weights.lexSourceGivenTarget := by
  obtain ⟨pair, hpair, hsource, htarget, hmeans⟩ : ∃ pair : PhrasePair,
      PhrasePair.ofLinks [1, 3] [2, -1] ["a", "b"] ["x"] [⟨0, 1⟩, ⟨0, 0⟩] = .ok pair ∧
      pair.source = [1, 3] ∧ pair.target = [2, -1] ∧
      Arithmetic.exact.means (Arithmetic.exact.table
        (wordsAfter default [.addWordPair 1 2, .addWordPair 3 2])) pair.toAlignedPair =
          [1 / 4, 0] := ⟨_, rfl, rfl, rfl, by decide +kernel⟩
  have hbounds := (averagedWeights_bounded default [.addWordPair 1 2, .addWordPair 3 2] pair
    (by norm_num : (0 : ℚ) < 1 / 8) (by norm_num)).1
  rw [hmeans, hsource, htarget] at hbounds
  refine ⟨pair, hpair, by norm_num, by norm_num, hbounds, ?_⟩
  apply hbounds.pow_least_le
  norm_num

/-- The first word was counted in one of the four times that its partner was. Its mean is `1 / 4`
and stays, though the least probability is `1 / 2`. -/
theorem averagedWeight_below_least :
    ∃ pair : PhrasePair,
      PhrasePair.ofLinks [1] [2] ["a"] ["x"] [⟨0, 0⟩] = .ok pair ∧
      let words := wordsAfter default
        [.addWordPair 1 2, .addWordPair 3 2, .addWordPair 3 2, .addWordPair 3 2]
      let table := Arithmetic.exact.table words
      let weight := (Arithmetic.exact.weights table (1 / 2) pair.toAlignedPair).lexSourceGivenTarget
      Arithmetic.exact.means table pair.toAlignedPair = [1 / 4] ∧
      ¬(1 / 2 ≤ Arithmetic.exact.floored (1 / 2) (1 / 4)) ∧
      weight = 1 / 4 ∧
      ¬((1 / 2) ^ pair.source.countP (!Surface.isGap ·) ≤ weight) ∧
      ((pair.lexicalWeights words.table { minLexProb := 0.5 }).lexSourceGivenTarget == 0.25) =
        true := by
  refine ⟨_, rfl, ?_, ?_, ?_, ?_, ?_⟩ <;> decide +kernel

end Counts

end PhraseTable
