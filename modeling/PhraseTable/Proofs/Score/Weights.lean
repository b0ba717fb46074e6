import Mathlib
import PhraseTable.Proofs.GapInsertion

/-!
# Lexical weights in two arithmetics

The lexical weights are computed in doubles, and every sum, quotient and product is rounded. What
they mean is the same computation without rounding. `Arithmetic` holds the operations that the
computation uses, and the computation is written once for all of them: in `doubles` it gives the
weights of the features bit for bit (`lexicalWeights_eq`, `words_table`), and in `exact` it gives
the rational numbers that those stand for. The weights of a target phrase are those of the source
phrase of the mirrored pair.

In `exact`, products, sums and maxima are those of the library (`exact_product`, `exact_sum`,
`le_exact_greatest`), and a mean lies where the probabilities do that it is taken of
(`exact_mean_le`, `exact_mean_nonneg`).
-/

set_option autoImplicit false

namespace PhraseTable

/-- What lexical weights are computed with. -/
structure Arithmetic (α : Type) where
  ofInt : Int → α
  add : α → α → α
  mul : α → α → α
  div : α → α → α
  /-- Is the first value less than the second one? -/
  less : α → α → Bool
  isZero : α → Bool

/-- Word translation probabilities in both directions, in any kind of number. -/
structure WordTable (α : Type) where
  /-- The probability of the first word, a source word, given the second one. -/
  sourceGivenTarget : Int → Int → α
  /-- The probability of the second word, a target word, given the first one. -/
  targetGivenSource : Int → Int → α

/-- The table for the opposite direction. -/
def WordTable.mirror {α : Type} (table : WordTable α) : WordTable α where
  sourceGivenTarget f e := table.targetGivenSource e f
  targetGivenSource f e := table.sourceGivenTarget e f

/-- The four lexical weights of a pair. -/
structure LexicalWeights (α : Type) where
  lexSourceGivenTarget : α
  lexTargetGivenSource : α
  maxLexSourceGivenTarget : α
  maxLexTargetGivenSource : α

namespace Arithmetic

/-- Doubles: every result is rounded. -/
def doubles : Arithmetic Float where
  ofInt := Float.ofInt
  add x y := x + y
  mul x y := x * y
  div x y := x / y
  less x y := decide (x < y)
  isZero x := x == 0

/-- Rational numbers: every result is exact. -/
def exact : Arithmetic ℚ where
  ofInt n := n
  add x y := x + y
  mul x y := x * y
  div x y := x / y
  less x y := decide (x < y)
  isZero x := x == 0

/-! ## The computation -/

section

variable {α : Type} (A : Arithmetic α)

/-- The part of a marginal count that falls on a joint count. -/
def countRatio (joint marginal : Option Int) : α :=
  match joint, marginal with
  | some joint, some marginal =>
    if 0 < joint ∧ 0 < marginal then A.div (A.ofInt joint) (A.ofInt marginal) else A.ofInt 0
  | _, _ => A.ofInt 0

/-- The probabilities that the counts give. -/
def table (words : WordCounts) : WordTable α where
  sourceGivenTarget f e := A.countRatio (words.pairCount? f e) (words.targetCount? e)
  targetGivenSource f e := A.countRatio (words.pairCount? f e) (words.sourceCount? f)

/-- The sum from the left. -/
def sum (values : List α) : α :=
  values.foldl A.add (A.ofInt 0)

/-- The product from the left. -/
def product (values : List α) : α :=
  values.foldl A.mul (A.ofInt 1)

/-- The mean of the probabilities given the linked words, or the one given the null word. -/
def mean (null : α) : List α → α
  | [] => null
  | linked => A.div (A.sum linked) (A.ofInt linked.length)

/-- The value, or the least probability in place of zero. -/
def floored (least value : α) : α :=
  if A.isZero value then least else value

/-- The greatest of the values, or the start if none is greater. -/
def greatest (start : α) (values : List α) : α :=
  values.foldl (fun best value => if A.less best value then value else best) start

variable (table : WordTable α) (least : α) (pair : AlignedPair)

/-- The means of the words of the source phrase. Gaps have none. -/
def means : List α :=
  ((List.range pair.source.length).filter fun i => !Surface.isGap (pair.sourceAt i)).map fun i =>
    A.mean (table.sourceGivenTarget (pair.sourceAt i) nullWord)
      ((pair.targetsOf i).map fun j =>
        table.sourceGivenTarget (pair.sourceAt i) (pair.targetAt j))

/-- The greatest probabilities of the symbols of the source phrase. -/
def maxima : List α :=
  (List.range pair.source.length).map fun i =>
    A.greatest least ((pair.target ++ [nullWord]).map fun e =>
      table.sourceGivenTarget (pair.sourceAt i) e)

/-- The averaged weight of the source phrase. -/
def averaged : α :=
  A.product ((A.means table pair).map (A.floored least))

/-- The weight of the source phrase by the greatest probabilities. -/
def largest : α :=
  A.product (A.maxima table least pair)

/-- The four lexical weights of a pair. -/
def weights : LexicalWeights α where
  lexSourceGivenTarget := A.averaged table least pair
  lexTargetGivenSource := A.averaged table.mirror least pair.mirror
  maxLexSourceGivenTarget := A.largest table least pair
  maxLexTargetGivenSource := A.largest table.mirror least pair.mirror

end

end Arithmetic

/-! ## The features compute in doubles -/

/-- The table in doubles. -/
def LexicalTable.words (table : LexicalTable) : WordTable Float :=
  ⟨table.sourceGivenTarget, table.targetGivenSource⟩

/-- The probabilities of counts in doubles are those that the features use. -/
theorem WordCounts.words_table (words : WordCounts) :
    words.table.words = Arithmetic.doubles.table words := by
  rfl

namespace Score

/-- The value of a product of scores is the product of their values. -/
theorem value_foldl_mul (start : Score) (scores : List Score) :
    (scores.foldl (· * ·) start).value = (scores.map Score.value).foldl (· * ·) start.value := by
  induction scores generalizing start with
  | nil => rfl
  | cons score rest ih => exact ih (start * score)

end Score

/-- The weight of a word is the mean over its links. -/
theorem Support.value_weight (support : Support) :
    support.weight.value = Arithmetic.doubles.mean support.null support.linked := by
  unfold weight Arithmetic.mean
  cases support.linked with
  | nil => rfl
  | cons value rest => rfl

/-- The floored weight of a word is its floored mean. -/
theorem Support.value_floored (least : Float) (support : Support) :
    (support.floored least).value =
      Arithmetic.doubles.floored least
        (Arithmetic.doubles.mean support.null support.linked) := by
  rw [← value_weight]
  unfold floored Arithmetic.floored isZero
  show Score.value (if support.weight.value == 0 then _ else _) =
    if support.weight.value == 0 then _ else _
  split
  · rfl
  · rfl

/-- The greatest value is found in the arithmetic of doubles. -/
theorem Candidates.greatest_eq (start : Float) (values : List Float) :
    greatest start values = Arithmetic.doubles.greatest start values := by
  unfold greatest Arithmetic.greatest
  simp [Arithmetic.doubles]

/-- The targets of a position lie within the pair. -/
theorem AlignedPair.lt_of_mem_targetsOf {pair : AlignedPair} {i j : Nat}
    (h : j ∈ pair.targetsOf i) : j < pair.target.length := by
  obtain ⟨link, hlink, heq⟩ := List.mem_filterMap.1 h
  simp only [Option.ite_none_right_eq_some, Option.some.injEq] at heq
  exact heq.2 ▸ (pair.within link hlink).2

/-- The symbol of a target is one of the target phrase. -/
theorem AlignedPair.targetAt_mem {pair : AlignedPair} {i j : Nat} (h : j ∈ pair.targetsOf i) :
    pair.targetAt j ∈ pair.target := by
  simp [targetAt, lt_of_mem_targetsOf h]

namespace PhrasePair

variable (pair : PhrasePair) (table : LexicalTable) (config : Config)

/-- The four lexical features of a pair, as doubles. -/
def lexicalWeights : LexicalWeights Float where
  lexSourceGivenTarget := (pair.lexSourceGivenTarget table config).value.value
  lexTargetGivenSource := (pair.lexTargetGivenSource table config).value.value
  maxLexSourceGivenTarget := (pair.maxLexSourceGivenTarget table config).value.value
  maxLexTargetGivenSource := (pair.maxLexTargetGivenSource table config).value.value

/-- The lexical weight is the averaged one, in the arithmetic of doubles. -/
theorem value_lexSourceGivenTarget_eq_averaged :
    (pair.lexSourceGivenTarget table config).value.value =
      Arithmetic.doubles.averaged table.words config.minLexProb pair.toAlignedPair := by
  have hfactors : (pair.sourceWeights table config.minLexProb).map Score.value =
      (Arithmetic.doubles.means table.words pair.toAlignedPair).map
        (Arithmetic.doubles.floored config.minLexProb) := by
    unfold AlignedPair.sourceWeights Arithmetic.means
    rw [List.map_map, List.map_map]
    apply List.map_congr_left
    intro i _
    exact Support.value_floored _ _
  rw [value_lexSourceGivenTarget, Score.value_foldl_mul, hfactors]
  rfl

/-- The greatest lexical weight is the product of the greatest values, in the arithmetic of
doubles. -/
theorem value_maxLexSourceGivenTarget_eq_largest :
    (pair.maxLexSourceGivenTarget table config).value.value =
      Arithmetic.doubles.largest table.words config.minLexProb pair.toAlignedPair := by
  have hfactors : (pair.sourceCandidates table).map
        (fun row => Candidates.greatest config.minLexProb row.probabilities) =
      Arithmetic.doubles.maxima table.words config.minLexProb pair.toAlignedPair := by
    unfold sourceCandidates Arithmetic.maxima
    rw [List.map_map]
    apply List.map_congr_left
    intro i _
    exact Candidates.greatest_eq _ _
  show (Candidates.product config (pair.sourceCandidates table)).value.value = _
  rw [Candidates.value_product_map, Score.value_foldl_mul, List.map_map]
  unfold Arithmetic.largest
  rw [← hfactors]
  rfl

/-- **The features compute in doubles.** -/
theorem lexicalWeights_eq :
    pair.lexicalWeights table config =
      Arithmetic.doubles.weights table.words config.minLexProb pair.toAlignedPair := by
  have hlex : (pair.lexTargetGivenSource table config).value =
      (pair.mirror.lexSourceGivenTarget table.mirror config).value :=
    (Feature.score_mirror table config ⟨0, 0, 0⟩ pair .lexTargetGivenSource).symm
  have hmax : (pair.maxLexTargetGivenSource table config).value =
      (pair.mirror.maxLexSourceGivenTarget table.mirror config).value :=
    (Feature.score_mirror table config ⟨0, 0, 0⟩ pair .maxLexTargetGivenSource).symm
  unfold lexicalWeights
  rw [hlex, hmax]
  simp only [value_lexSourceGivenTarget_eq_averaged, value_maxLexSourceGivenTarget_eq_largest]
  rfl

end PhrasePair

/-! ## Exact results -/

namespace Arithmetic

/-- The exact sum is the sum of the list. -/
theorem exact_sum (values : List ℚ) : exact.sum values = values.sum :=
  List.sum_eq_foldl.symm

/-- The exact product is the product of the list. -/
theorem exact_product (values : List ℚ) : exact.product values = values.prod :=
  List.prod_eq_foldl.symm

/-- Only a value of zero is replaced. -/
theorem exact_floored (least value : ℚ) :
    exact.floored least value = if value = 0 then least else value := by
  simp [floored, exact]

/-- The exact mean is that of the linked values, or the value of the null word when there are
none. -/
theorem exact_mean (null : ℚ) (linked : List ℚ) :
    exact.mean null linked = if linked = [] then null else linked.sum / linked.length := by
  cases linked with
  | nil => rfl
  | cons value rest =>
    rw [if_neg (List.cons_ne_nil value rest), ← exact_sum]
    simp [mean, exact]

variable {null bound : ℚ} {linked : List ℚ}

/-- A mean of values that are not negative is not negative. -/
theorem exact_mean_nonneg (hnull : 0 ≤ null) (hlinked : ∀ value ∈ linked, 0 ≤ value) :
    0 ≤ exact.mean null linked := by
  rw [exact_mean]
  split
  · exact hnull
  · exact div_nonneg (List.sum_nonneg hlinked) (Nat.cast_nonneg _)

/-- A mean exceeds nothing that all its values stay below. -/
theorem exact_mean_le (hnull : null ≤ bound) (hlinked : ∀ value ∈ linked, value ≤ bound) :
    exact.mean null linked ≤ bound := by
  rw [exact_mean]
  split
  · exact hnull
  · rename_i hne
    have hlength : (0 : ℚ) < linked.length := by
      exact_mod_cast List.length_pos_iff.2 hne
    rw [div_le_iff₀ hlength, mul_comm]
    simpa using List.sum_le_card_nsmul linked bound hlinked

/-- The greatest value is bounded just when all values are. -/
theorem exact_greatest_le_iff {start : ℚ} {values : List ℚ} :
    exact.greatest start values ≤ bound ↔ start ≤ bound ∧ ∀ value ∈ values, value ≤ bound := by
  induction values generalizing start with
  | nil => simp [greatest]
  | cons value rest ih =>
    have hstep : exact.greatest start (value :: rest) = exact.greatest (max start value) rest := by
      rw [max_def_lt]
      simp [greatest, exact]
    rw [hstep, ih, max_le_iff, List.forall_mem_cons, and_assoc]

/-- The greatest value is no less than the first one. -/
theorem le_exact_greatest (start : ℚ) (values : List ℚ) : start ≤ exact.greatest start values :=
  (exact_greatest_le_iff.1 le_rfl).1

/-- The greatest value is no less than any of them. -/
theorem le_exact_greatest_of_mem (start : ℚ) {value : ℚ} {values : List ℚ} (h : value ∈ values) :
    value ≤ exact.greatest start values :=
  (exact_greatest_le_iff.1 le_rfl).2 value h

end Arithmetic

end PhraseTable
