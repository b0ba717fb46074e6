import PhraseTable.Proofs.Counts.Accounting
import PhraseTable.Proofs.Number.Double
import PhraseTable.Proofs.Score.Weights

/-!
# Bounds of the greatest probabilities

No word pair is counted more often than its words, so in exact arithmetic the probabilities that
come of counts lie between zero and one (`isProbability_of_balanced`). A greatest probability is
taken from the least probability on, which is then a lower bound of every factor, and its power one
of the weight (`largest_mem`).

In doubles the products are rounded, and a long one may end at zero. `DenotesPower` says of a weight
that it has a value above zero as long as the power of the least probability is no less than the
least normal double.
-/

set_option autoImplicit false

namespace PhraseTable

/-- All values of the table are probabilities. -/
structure WordTable.IsProbability (table : WordTable ℚ) : Prop where
  source_mem : ∀ f e : Int, table.sourceGivenTarget f e ∈ Set.Icc 0 1
  target_mem : ∀ f e : Int, table.targetGivenSource f e ∈ Set.Icc 0 1

/-- The mirrored table is one of probabilities. -/
theorem WordTable.IsProbability.mirror {table : WordTable ℚ} (h : table.IsProbability) :
    table.mirror.IsProbability where
  source_mem f e := h.target_mem e f
  target_mem f e := h.source_mem e f

namespace Arithmetic

/-! ## Probabilities from counts -/

/-- The exact ratio of two counts, or zero when one of them is missing. -/
theorem exact_countRatio (joint marginal : Option Int) :
    exact.countRatio joint marginal =
      if 0 < reported joint ∧ 0 < reported marginal then
        (reported joint / reported marginal : ℚ) else 0 := by
  cases joint with
  | none => simp [countRatio, reported, exact]
  | some joint =>
    cases marginal with
    | none => simp [countRatio, reported, exact]
    | some marginal =>
      show (if 0 < joint ∧ 0 < marginal then (joint / marginal : ℚ) else ((0 : ℤ) : ℚ)) = _
      rw [Int.cast_zero]
      rfl

/-- The ratio of a joint count to one that is no less is a probability. -/
theorem exact_countRatio_mem {joint marginal : Option Int}
    (h : 1 ≤ reported joint → reported joint ≤ reported marginal) :
    exact.countRatio joint marginal ∈ Set.Icc 0 1 := by
  rw [exact_countRatio]
  split
  · rename_i hpos
    have hjoint : (0 : ℚ) < reported joint := by exact_mod_cast hpos.1
    have hmarginal : (0 : ℚ) < reported marginal := by exact_mod_cast hpos.2
    have hle : (reported joint : ℚ) ≤ reported marginal := by exact_mod_cast h hpos.1
    exact ⟨(div_pos hjoint hmarginal).le, (div_le_one hmarginal).2 hle⟩
  · exact ⟨le_rfl, zero_le_one⟩

/-- The table of balanced counts is one of probabilities. -/
theorem isProbability_of_balanced {words : WordCounts} (h : words.Balanced) :
    (exact.table words).IsProbability where
  source_mem f e := exact_countRatio_mem fun hone => (h.pair_le f e hone).2
  target_mem f e := exact_countRatio_mem fun hone => (h.pair_le f e hone).1

/-! ## Products of bounded factors -/

variable {bound : ℚ} {values : List ℚ}

/-- A product is no less than the power of a bound on its factors. -/
theorem pow_length_le_product (hbound : 0 ≤ bound) (h : ∀ value ∈ values, bound ≤ value) :
    bound ^ values.length ≤ exact.product values := by
  have hprod := List.prod_map_le_prod_map₀ (fun _ => bound) id (fun _ _ => hbound) h
  simpa [exact_product] using hprod

/-- A product of probabilities is at most one. -/
theorem product_le_one (hpos : ∀ value ∈ values, 0 ≤ value) (h : ∀ value ∈ values, value ≤ 1) :
    exact.product values ≤ 1 := by
  have hprod := List.prod_map_le_prod_map₀ id (fun _ => 1) hpos h
  simpa [exact_product] using hprod

/-! ## The greatest probabilities -/

variable {table : WordTable ℚ} {least : ℚ}

/-- The greatest probability of a word lies between the least value and one. -/
theorem mem_maxima (htable : table.IsProbability) (hle : least ≤ 1) {pair : AlignedPair} {value : ℚ}
    (h : value ∈ exact.maxima table least pair) : value ∈ Set.Icc least 1 := by
  obtain ⟨i, -, rfl⟩ := List.mem_map.1 h
  refine ⟨le_exact_greatest least _, exact_greatest_le_iff.2 ⟨hle, ?_⟩⟩
  exact List.forall_mem_map.2 fun e _ => (htable.source_mem _ e).2

/-- The product of these lies between a power of the least value and one. -/
theorem largest_mem (htable : table.IsProbability) (hpos : 0 < least) (hle : least ≤ 1)
    (pair : AlignedPair) :
    exact.largest table least pair ∈ Set.Icc (least ^ pair.source.length) 1 := by
  have hlength : (exact.maxima table least pair).length = pair.source.length := by
    simp [maxima]
  constructor
  · rw [← hlength]
    exact pow_length_le_product hpos.le fun value hvalue => (mem_maxima htable hle hvalue).1
  · refine product_le_one ?_ fun value hvalue => (mem_maxima htable hle hvalue).2
    intro value hvalue
    exact hpos.le.trans (mem_maxima htable hle hvalue).1

end Arithmetic

/-! ## Greatest probabilities in doubles -/

namespace Binary64

/-- The double has a value from `low` to one. -/
def DenotesFrom (low : ℚ) (x : Float) : Prop :=
  ∃ q : ℚ, Denotes x q ∧ q ∈ Set.Icc low 1

/-- The double is zero, or has a value that is at most one. -/
def DenotesProbability (x : Float) : Prop :=
  x = 0 ∨ ∃ q : ℚ, Denotes x q ∧ q ≤ 1

/-- If the least factor has a value from `2 ^ -k` on, the product of `size` factors has one from the
power of `2 ^ -k` on, unless this is less than the least normal double. -/
def DenotesPower (least : Float) (size : ℕ) (product : Float) : Prop :=
  ∀ k : ℕ, DenotesFrom (2 ^ (-k : ℤ)) least → k * size ≤ 1022 →
    DenotesFrom (2 ^ (-(k * size : ℕ) : ℤ)) product

/-- The double one has the value one. -/
theorem denotesFrom_one : DenotesFrom (2 ^ (-(0 : ℕ) : ℤ)) (1 : Float) :=
  ⟨1, denotes_ofNat_one, by simp⟩

/-- A product of doubles from powers of two on has a value from the product of these powers on. -/
theorem DenotesFrom.mul {x y : Float} {s k : ℕ} (hx : DenotesFrom (2 ^ (-s : ℤ)) x)
    (hy : DenotesFrom (2 ^ (-k : ℤ)) y) (hbits : s + k ≤ 1022) :
    DenotesFrom (2 ^ (-(s + k : ℕ) : ℤ)) (x * y) := by
  obtain ⟨p, hp, hplow, hpone⟩ := hx
  obtain ⟨q, hq, hqlow, hqone⟩ := hy
  have hppos := hp.pos.le
  have hlow : (2 : ℚ) ^ (-(s + k : ℕ) : ℤ) ≤ p * q :=
    calc (2 : ℚ) ^ (-(s + k : ℕ) : ℤ) = 2 ^ (-s : ℤ) * 2 ^ (-k : ℤ) := by
          rw [← zpow_add₀ two_ne_zero]
          push_cast
          ring_nf
      _ ≤ p * q := by gcongr
  have hhigh : p * q ≤ 1 := mul_le_one₀ hpone hq.pos.le hqone
  exact denotes_mul hp hq (representable_zpow (by omega) (by omega))
    denotes_ofNat_one.representable hlow hhigh

end Binary64

open Binary64 (DenotesFrom DenotesProbability DenotesPower)

namespace Arithmetic

/-- The greatest of some doubles is no less than the first of them, and still at most one. -/
theorem doubles_greatest {low : ℚ} {start : Float} {values : List Float}
    (hstart : DenotesFrom low start) (hvalues : ∀ value ∈ values, DenotesProbability value) :
    DenotesFrom low (doubles.greatest start values) := by
  induction values generalizing start with
  | nil => exact hstart
  | cons value rest ih =>
    obtain ⟨hvalue, hrest⟩ := List.forall_mem_cons.1 hvalues
    have hstep : doubles.greatest start (value :: rest) =
        doubles.greatest (if start < value then value else start) rest := by
      simp [greatest, doubles]
    rw [hstep]
    split
    · rename_i hless
      obtain ⟨p, hp, hlow, -⟩ := hstart
      rcases hvalue with rfl | ⟨q, hq, hone⟩
      · exact absurd hless hp.not_lt_zero
      · exact ih ⟨q, hq, hlow.trans ((hp.lt_iff hq).1 hless).le, hone⟩ hrest
    · exact ih hstart hrest

/-- With every factor the exponent of the lower bound goes down by `k`. -/
theorem doubles_foldl_mul {s k : ℕ} {start : Float} {values : List Float}
    (hstart : DenotesFrom (2 ^ (-s : ℤ)) start)
    (hvalues : ∀ value ∈ values, DenotesFrom (2 ^ (-k : ℤ)) value)
    (hbits : s + k * values.length ≤ 1022) :
    DenotesFrom (2 ^ (-(s + k * values.length : ℕ) : ℤ)) (values.foldl (· * ·) start) := by
  induction values generalizing s start with
  | nil => simpa using hstart
  | cons value rest ih =>
    obtain ⟨hvalue, hrest⟩ := List.forall_mem_cons.1 hvalues
    have hlength : s + k * (value :: rest).length = s + k + k * rest.length := by
      rw [List.length_cons]
      ring
    rw [hlength] at hbits ⊢
    exact ih (hstart.mul hvalue (by omega)) hrest hbits

/-- The ratio of counts below 53 bits is zero or a probability, as a double. -/
theorem doubles_countRatio {joint marginal : Option Int}
    (h : 1 ≤ reported joint → reported joint ≤ reported marginal)
    (hlt : reported marginal < 2 ^ 53) :
    DenotesProbability (doubles.countRatio joint marginal) := by
  cases joint with
  | none => exact .inl rfl
  | some joint =>
    cases marginal with
    | none => exact .inl rfl
    | some marginal =>
      by_cases hpos : 0 < joint ∧ 0 < marginal
      · have hratio : doubles.countRatio (some joint) (some marginal) =
            Float.ofInt joint / Float.ofInt marginal := if_pos hpos
        rw [hratio]
        exact .inr (Binary64.denotes_quotient hpos.1 (h hpos.1) hlt)
      · exact .inl (if_neg hpos)

/-- The product of the greatest probabilities keeps its power of two, as a double. -/
theorem doubles_largest {given : WordTable Float}
    (hgiven : ∀ f e : Int, DenotesProbability (given.sourceGivenTarget f e)) (least : Float)
    (pair : AlignedPair) :
    DenotesPower least pair.source.length (doubles.largest given least pair) := by
  intro k hleast hbits
  have hmaxima : ∀ value ∈ doubles.maxima given least pair, DenotesFrom (2 ^ (-k : ℤ)) value :=
    List.forall_mem_map.2 fun i _ =>
      doubles_greatest hleast (List.forall_mem_map.2 fun e _ => hgiven _ e)
  have hlength : (doubles.maxima given least pair).length = pair.source.length := by
    simp [maxima]
  have hproduct := doubles_foldl_mul Binary64.denotesFrom_one hmaxima (by rw [hlength]; omega)
  rwa [hlength, zero_add] at hproduct

end Arithmetic

namespace Counts

/-- After any operations the table is one of probabilities. -/
theorem isProbability_table (config : Config) (ops : List CountOp) :
    (Arithmetic.exact.table (wordsAfter config ops)).IsProbability :=
  Arithmetic.isProbability_of_balanced (counted_wordsAfter config ops).balanced

/-- After operations with word pairs below 53 bits, the table of doubles is one of probabilities. -/
theorem denotesProbability_table (config : Config) {ops : List CountOp}
    (htotal : (ops.flatMap CountOp.wordPairs).length < 2 ^ 53) (f e : Int) :
    let table := Arithmetic.doubles.table (wordsAfter config ops)
    DenotesProbability (table.sourceGivenTarget f e) ∧
      DenotesProbability (table.targetGivenSource f e) := by
  have hcounted := counted_wordsAfter config ops
  have hle := hcounted.balanced.pair_le f e
  have hsource := hcounted.reported_sourceCount?_le f
  have htarget := hcounted.reported_targetCount?_le e
  exact ⟨Arithmetic.doubles_countRatio (fun hone => (hle hone).2) (by omega),
    Arithmetic.doubles_countRatio (fun hone => (hle hone).1) (by omega)⟩

/-- In doubles the weights have values above zero unless the phrases are too long. -/
theorem denotesPower_maxLexWeights (config : Config) {ops : List CountOp} (pair : PhrasePair)
    (scoring : Config) (htotal : (ops.flatMap CountOp.wordPairs).length < 2 ^ 53) :
    let running := pair.lexicalWeights (wordsAfter config ops).table scoring
    DenotesPower scoring.minLexProb pair.source.length running.maxLexSourceGivenTarget ∧
      DenotesPower scoring.minLexProb pair.target.length running.maxLexTargetGivenSource := by
  have htable := denotesProbability_table config htotal
  rw [pair.lexicalWeights_eq]
  constructor
  · exact Arithmetic.doubles_largest (fun f e => (htable f e).1) _ pair.toAlignedPair
  · exact Arithmetic.doubles_largest (fun f e => (htable e f).2) _ pair.toAlignedPair.mirror

/-- **Bounds of the weights by the greatest probabilities.** After every run of counting operations
they lie between the power of the least probability and one, and are not zero. This is exact. The
features compute the same in doubles, where the weights are above zero and at most one as long as
the phrases are not too long. -/
theorem maxLexWeights_bounded (config : Config) (ops : List CountOp) (pair : PhrasePair) {least : ℚ}
    (hpos : 0 < least) (hle : least ≤ 1) :
    let words := wordsAfter config ops
    let weights := Arithmetic.exact.weights (Arithmetic.exact.table words) least pair.toAlignedPair
    weights.maxLexSourceGivenTarget ∈ Set.Icc (least ^ pair.source.length) 1 ∧
      weights.maxLexTargetGivenSource ∈ Set.Icc (least ^ pair.target.length) 1 ∧
      weights.maxLexSourceGivenTarget ≠ 0 ∧
      weights.maxLexTargetGivenSource ≠ 0 ∧
      ∀ scoring : Config,
        let running := pair.lexicalWeights words.table scoring
        running = Arithmetic.doubles.weights (Arithmetic.doubles.table words) scoring.minLexProb
            pair.toAlignedPair ∧
          ((ops.flatMap CountOp.wordPairs).length < 2 ^ 53 →
            DenotesPower scoring.minLexProb pair.source.length running.maxLexSourceGivenTarget ∧
              DenotesPower scoring.minLexProb pair.target.length
                running.maxLexTargetGivenSource) := by
  intro words weights
  have htable := isProbability_table config ops
  have hsource := Arithmetic.largest_mem htable hpos hle pair.toAlignedPair
  have htarget := Arithmetic.largest_mem htable.mirror hpos hle pair.toAlignedPair.mirror
  refine ⟨hsource, htarget, ?_, ?_, fun scoring => ⟨?_, ?_⟩⟩
  · exact ((pow_pos hpos _).trans_le hsource.1).ne'
  · exact ((pow_pos hpos _).trans_le htarget.1).ne'
  · exact pair.lexicalWeights_eq words.table scoring
  · exact denotesPower_maxLexWeights config pair scoring

/-- A phrase pair with a linked gap, whose only source word was counted with another word and with
the null word. -/
theorem maxLexWeights_bounded_linked_gap :
    ∃ pair : PhrasePair,
      PhrasePair.ofLinks [1, -1] [2] ["a"] ["x"] [⟨1, 0⟩] = .ok pair ∧
      (0 : ℚ) < 1 / 2 ∧ (1 / 2 : ℚ) ≤ 1 ∧
      let weights := Arithmetic.exact.weights
        (Arithmetic.exact.table (wordsAfter default [.addWordPair 1 4, .addWordPair 1 0]))
        (1 / 2) pair.toAlignedPair
      weights.maxLexSourceGivenTarget = 1 / 2 ∧
      weights.maxLexSourceGivenTarget ∈ Set.Icc ((1 / 2) ^ 2) 1 ∧
      weights.maxLexTargetGivenSource ∈ Set.Icc ((1 / 2) ^ 1) 1 := by
  refine ⟨_, rfl, by norm_num, by norm_num, by decide +kernel, ?_⟩
  obtain ⟨hsource, htarget, -⟩ := maxLexWeights_bounded default
    [.addWordPair 1 4, .addWordPair 1 0] _ (by norm_num : (0 : ℚ) < 1 / 2) (by norm_num)
  exact ⟨hsource, htarget⟩

end Counts

end PhraseTable
