import Mathlib.Algebra.Order.Field.Power
import Mathlib.Data.Rat.Cast.Order
import Mathlib.Tactic.FieldSimp
import Mathlib.Tactic.Linarith
import Mathlib.Tactic.NormNum
import Mathlib.Tactic.Positivity
import Mathlib.Tactic.Ring
import PhraseTable.Number.Binary64

/-!
# Rounding to doubles

An operation on doubles computes a mantissa with two more bits, which say on which side of the
middle the exact result lies (`Approximates`). Shifting the mantissa keeps what they say, and
rounding gives one of the naturals around the result, so no double ever lies strictly between a
number and what it is rounded to: `roundWithAccuracy_between`.
-/

set_option autoImplicit false

namespace PhraseTable.Binary64

open Float.Model (Format totalExponent)
open Float.Model.UnpackedFloat (Accuracy ExtendedMantissa accuracyOfFraction shiftToTargetExponent
  roundWithAccuracy)

/-- The exact value of a mantissa with an exponent. -/
def fraction (mantissa : ℚ) (exponent : ℤ) : ℚ :=
  mantissa * 2 ^ exponent

/-- A mantissa with its round bit, counted in halves. -/
def halves (em : ExtendedMantissa) : ℕ :=
  2 * em.mantissa + em.roundBit.toNat

/-- The number is the one that the bits tell, or lies between it and the next half. -/
def Approximates (em : ExtendedMantissa) (x : ℚ) : Prop :=
  if em.stickyBit then halves em < 2 * x ∧ 2 * x < halves em + 1 else 2 * x = halves em

variable {em : ExtendedMantissa} {x : ℚ}

/-- A mantissa becomes the number of halves when it is shifted by one bit. -/
theorem halves_shiftRightOne (em : ExtendedMantissa) :
    halves em.shiftRightOne = em.mantissa := by
  have hbit : (em.mantissa % 2 != 0).toNat = em.mantissa % 2 := by
    rcases Nat.mod_two_eq_zero_or_one em.mantissa with h | h <;> rw [h] <;> rfl
  unfold halves ExtendedMantissa.shiftRightOne
  dsimp only
  rw [hbit]
  omega

/-- A shifted mantissa approximates half the number. -/
theorem Approximates.shiftRightOne (h : Approximates em x) :
    Approximates em.shiftRightOne (x / 2) := by
  unfold Approximates
  rw [halves_shiftRightOne]
  obtain ⟨mantissa, roundBit, stickyBit⟩ := em
  cases roundBit <;> cases stickyBit <;>
    simp only [Approximates, halves, ExtendedMantissa.shiftRightOne, Bool.or_true, Bool.or_false,
      Bool.toNat_true, Bool.toNat_false, Bool.false_eq_true, if_true, if_false,
      Nat.cast_add, Nat.cast_mul, Nat.cast_ofNat, Nat.cast_one, Nat.cast_zero] at h ⊢
  · linarith
  · constructor <;> linarith
  · constructor <;> linarith
  · constructor <;> linarith

/-- A mantissa that is shifted by some bits approximates the number over this power of two. -/
theorem Approximates.shiftRight (h : Approximates em x) (n : ℕ) :
    Approximates (em >>> n) (x / 2 ^ n) := by
  induction n with
  | zero =>
    rw [pow_zero, div_one]
    exact h
  | succ n ih =>
    have hnext := ih.shiftRightOne
    rw [div_div, ← pow_succ] at hnext
    exact hnext

/-- The rounded mantissa is one of the naturals around the number, and a natural is rounded to
itself. -/
theorem Approximates.roundedMantissa_cases (h : Approximates em x) :
    (em.mantissa : ℚ) ≤ x ∧ x < em.mantissa + 1 ∧
      (em.roundedMantissa = em.mantissa ∨
        em.roundedMantissa = em.mantissa + 1 ∧ (em.mantissa : ℚ) < x) := by
  obtain ⟨mantissa, roundBit, stickyBit⟩ := em
  have hparity : mantissa + mantissa % 2 = mantissa ∨ mantissa + mantissa % 2 = mantissa + 1 := by
    omega
  cases roundBit <;> cases stickyBit <;>
    simp only [Approximates, halves, Bool.toNat_true, Bool.toNat_false, Bool.false_eq_true, if_true,
      if_false, Nat.cast_add, Nat.cast_mul, Nat.cast_ofNat, Nat.cast_one, Nat.cast_zero] at h ⊢
  · exact ⟨by linarith, by linarith, .inl rfl⟩
  · exact ⟨by linarith, by linarith, .inl rfl⟩
  -- in the middle between two naturals the even one is taken
  · exact ⟨by linarith, by linarith, hparity.imp_right fun heq => ⟨heq, by linarith⟩⟩
  · exact ⟨by linarith, by linarith, .inr ⟨rfl, by linarith⟩⟩

/-- A number is not rounded past a natural above it. -/
theorem Approximates.roundedMantissa_le (h : Approximates em x) {n : ℕ} (hn : x ≤ n) :
    em.roundedMantissa ≤ n := by
  obtain ⟨hle, -, heq | ⟨heq, hlt⟩⟩ := h.roundedMantissa_cases
  · rw [heq]
    exact_mod_cast hle.trans hn
  · rw [heq]
    exact_mod_cast hlt.trans_le hn

/-- A number is not rounded past a natural below it. -/
theorem Approximates.le_roundedMantissa (h : Approximates em x) {n : ℕ} (hn : n ≤ x) :
    n ≤ em.roundedMantissa := by
  obtain ⟨-, hlt, hrounded⟩ := h.roundedMantissa_cases
  have hle : n ≤ em.mantissa := by
    have hnext : (n : ℚ) < (em.mantissa + 1 : ℕ) := by
      rw [Nat.cast_add_one]
      exact hn.trans_lt hlt
    exact Nat.lt_add_one_iff.1 (Nat.cast_lt.1 hnext)
  omega

/-- An exact mantissa approximates itself. -/
theorem approximates_exact (mantissa : ℕ) :
    Approximates (.ofMantissaAndAccuracy mantissa .exact) mantissa := by
  show 2 * (mantissa : ℚ) = ((2 * mantissa + 0 : ℕ) : ℚ)
  push_cast
  ring

/-- The quotient of naturals, with what its remainder says of the next bits, approximates the
fraction. -/
theorem approximates_quotient (k : ℕ) {n : ℕ} (hn : 0 < n) :
    Approximates (.ofMantissaAndAccuracy (k / n) (accuracyOfFraction (k % n) n)) (k / n : ℚ) := by
  have hnpos : (0 : ℚ) < n := by exact_mod_cast hn
  have hvalue : (k / n : ℚ) = (k / n : ℕ) + (k % n : ℕ) / n := by
    have hdivmod : ((n * (k / n) + k % n : ℕ) : ℚ) = k := by rw [Nat.div_add_mod]
    rw [← hdivmod]
    push_cast
    field_simp
  have hrest : ((k % n : ℕ) : ℚ) < n := by exact_mod_cast Nat.mod_lt k hn
  rw [hvalue]
  generalize k / n = quotient
  generalize k % n = remainder at hrest
  unfold accuracyOfFraction
  by_cases hzero : remainder = 0
  · rw [if_pos hzero, hzero, Nat.cast_zero, zero_div, add_zero]
    exact approximates_exact quotient
  · have hpos : 0 < (remainder : ℚ) / n :=
      div_pos (by exact_mod_cast Nat.pos_of_ne_zero hzero) hnpos
    have hone : (remainder : ℚ) / n < 1 := (div_lt_one hnpos).2 hrest
    rw [if_neg hzero]
    rcases lt_trichotomy (2 * remainder) n with hlt | heq | hgt
    · have hhalf : 2 * ((remainder : ℚ) / n) < 1 := by
        rw [← mul_div_assoc, div_lt_one hnpos]
        exact_mod_cast hlt
      rw [compare_lt_iff_lt.2 hlt]
      simp only [ExtendedMantissa.ofMantissaAndAccuracy, Approximates, halves, if_true,
        Bool.toNat_false, Nat.cast_add, Nat.cast_mul, Nat.cast_ofNat, Nat.cast_zero]
      constructor <;> linarith
    · have hhalf : 2 * ((remainder : ℚ) / n) = 1 := by
        rw [← mul_div_assoc, div_eq_one_iff_eq hnpos.ne']
        exact_mod_cast heq
      rw [compare_eq_iff_eq.2 heq]
      simp only [ExtendedMantissa.ofMantissaAndAccuracy, Approximates, halves,
        Bool.false_eq_true, if_false, Bool.toNat_true, Nat.cast_add, Nat.cast_mul,
        Nat.cast_ofNat, Nat.cast_one]
      linarith
    · have hhalf : 1 < 2 * ((remainder : ℚ) / n) := by
        rw [← mul_div_assoc, one_lt_div hnpos]
        exact_mod_cast hgt
      rw [compare_gt_iff_gt.2 hgt]
      simp only [ExtendedMantissa.ofMantissaAndAccuracy, Approximates, halves, if_true,
        Bool.toNat_true, Nat.cast_add, Nat.cast_mul, Nat.cast_ofNat, Nat.cast_one]
      constructor <;> linarith

/-! ## Doubles -/

/-- The greatest exponent of a double's mantissa. -/
def maxExponent : ℤ := 971

/-- The mantissa has 53 bits, or fewer at the least exponent. -/
structure Canonical (mantissa : ℕ) (exponent : ℤ) : Prop where
  pos : 0 < mantissa
  lt : mantissa < 2 ^ 53
  minExponent_le : minExponent ≤ exponent
  normal : exponent = minExponent ∨ 2 ^ 52 ≤ mantissa

/-- A positive double. -/
structure IsDouble (mantissa : ℕ) (exponent : ℤ) : Prop extends Canonical mantissa exponent where
  le_maxExponent : exponent ≤ maxExponent

/-- A fraction is positive just when its mantissa is. -/
theorem fraction_pos {a : ℚ} {d : ℤ} : 0 < fraction a d ↔ 0 < a :=
  mul_pos_iff_of_pos_right (zpow_pos two_pos d)

/-- With one exponent, fractions are in the order of their mantissas. -/
theorem fraction_le_fraction {a b : ℚ} {d : ℤ} : fraction a d ≤ fraction b d ↔ a ≤ b :=
  mul_le_mul_iff_of_pos_right (zpow_pos two_pos d)

/-- With one exponent, fractions are strictly in the order of their mantissas. -/
theorem fraction_lt_fraction {a b : ℚ} {d : ℤ} : fraction a d < fraction b d ↔ a < b :=
  mul_lt_mul_iff_of_pos_right (zpow_pos two_pos d)

/-- A greater exponent outweighs 53 bits. -/
theorem fraction_lt_of_exponent_lt {a b : ℚ} {d e : ℤ} (ha : a < 2 ^ 53) (hde : d < e)
    (hb : 2 ^ 52 ≤ b) : fraction a d < fraction b e := by
  have hd : (0 : ℚ) < 2 ^ d := zpow_pos two_pos d
  have hpow : (2 : ℚ) * 2 ^ d ≤ 2 ^ e := by
    rw [← zpow_one_add₀ two_ne_zero]
    exact zpow_le_zpow_right₀ one_le_two (by omega)
  unfold fraction
  calc a * 2 ^ d < 2 ^ 53 * 2 ^ d := mul_lt_mul_of_pos_right ha hd
    _ = 2 ^ 52 * (2 * 2 ^ d) := by ring
    _ ≤ 2 ^ 52 * 2 ^ e := mul_le_mul_of_nonneg_left hpow (by positivity)
    _ ≤ b * 2 ^ e := mul_le_mul_of_nonneg_right hb (zpow_pos two_pos e).le

/-- Doubles are in the order of their exponents and then of their mantissas. -/
theorem Canonical.fraction_lt {m n : ℕ} {d e : ℤ} (hm : Canonical m d) (hn : Canonical n e)
    (hde : d < e) : fraction m d < fraction n e := by
  have hmin := hm.minExponent_le
  apply fraction_lt_of_exponent_lt (by exact_mod_cast hm.lt) hde
  rcases hn.normal with heq | hle
  · omega
  · exact_mod_cast hle

/-- The last of 53 bits has the target exponent, but no less than the least one. -/
theorem targetExponent_eq (total : ℤ) :
    Format.binary64.targetExponent total = max (total - 53) minExponent :=
  rfl

/-! ## Rounding -/

/-- 53 bits are enough for rounding. -/
theorem le_targetExponent {mantissa : ℕ} {exponent : ℤ}
    (h : exponent ≤ minExponent ∨ 2 ^ 52 ≤ mantissa) :
    exponent ≤ Format.binary64.targetExponent (totalExponent mantissa exponent) := by
  rw [targetExponent_eq]
  rcases h with hle | hle
  · exact hle.trans (le_max_right _ _)
  · have hlog : 52 ≤ mantissa.log2 := (Nat.le_log2 (by omega)).2 hle
    unfold totalExponent
    omega

/-- The two further bits leave the mantissa as it is. -/
theorem mantissa_ofMantissaAndAccuracy (mantissa : ℕ) (accuracy : Accuracy) :
    (ExtendedMantissa.ofMantissaAndAccuracy mantissa accuracy).mantissa = mantissa := by
  cases accuracy with
  | exact => rfl
  | inexact place => cases place <;> rfl

/-- A mantissa is shifted until its last bit has the target exponent. -/
theorem shiftToTargetExponent_eq {mantissa shift : ℕ} {exponent : ℤ} (accuracy : Accuracy)
    (hshift : (max ((mantissa.log2 : ℤ) + 1 + exponent - 53) minExponent - exponent).toNat =
      shift) :
    shiftToTargetExponent .binary64 mantissa exponent accuracy =
      (ExtendedMantissa.ofMantissaAndAccuracy mantissa accuracy >>> shift, exponent + shift) := by
  rw [← hshift]
  rfl

/-- The first shift makes room for 53 bits and loses nothing. -/
theorem exists_shifted {mantissa : ℕ} {exponent : ℤ} {accuracy : Accuracy} {x : ℚ}
    (hx : Approximates (.ofMantissaAndAccuracy mantissa accuracy) x)
    (hbits : exponent ≤ Format.binary64.targetExponent (totalExponent mantissa exponent)) :
    ∃ (em : ExtendedMantissa) (target : ℤ) (y : ℚ),
      shiftToTargetExponent .binary64 mantissa exponent accuracy = (em, target) ∧
      Approximates em y ∧ fraction y target = fraction x exponent ∧ y < 2 ^ 53 ∧
      minExponent ≤ target ∧ (target = minExponent ∨ 2 ^ 52 ≤ y) := by
  obtain ⟨hle, hlt, -⟩ := hx.roundedMantissa_cases
  rw [mantissa_ofMantissaAndAccuracy] at hle hlt
  generalize htarget : Format.binary64.targetExponent (totalExponent mantissa exponent) = target
    at hbits
  obtain ⟨shift, rfl⟩ : ∃ shift : ℕ, target = exponent + shift :=
    ⟨(target - exponent).toNat, by omega⟩
  rw [targetExponent_eq, totalExponent] at htarget
  have hpow : (0 : ℚ) < 2 ^ shift := by positivity
  refine ⟨_, exponent + shift, x / 2 ^ shift, shiftToTargetExponent_eq accuracy (by omega),
    hx.shiftRight shift, ?_, ?_, by omega, ?_⟩
  · unfold fraction
    rw [zpow_add₀ two_ne_zero, zpow_natCast]
    field_simp
  · have hbound : (mantissa : ℚ) + 1 ≤ 2 ^ (53 + shift) := by
      have hlog := Nat.lt_log2_self (n := mantissa)
      have hexp : 2 ^ (mantissa.log2 + 1) ≤ 2 ^ (53 + shift) :=
        Nat.pow_le_pow_right two_pos (by omega)
      exact_mod_cast hlog.trans_le hexp
    rw [div_lt_iff₀ hpow, ← pow_add]
    exact hlt.trans_le hbound
  · by_cases hmin : exponent + shift = minExponent
    · exact .inl hmin
    · right
      have hbound : (2 : ℚ) ^ (52 + shift) ≤ mantissa := by
        -- a mantissa of no bits is shifted at the least exponent only
        have hne : mantissa ≠ 0 := by
          rintro rfl
          rw [Nat.log2_zero] at htarget
          omega
        have hlog := Nat.log2_self_le hne
        have hexp : 52 + shift = mantissa.log2 := by omega
        rw [hexp]
        exact_mod_cast hlog
      rw [le_div_iff₀ hpow, ← pow_add]
      exact hbound.trans hle

/-- The second shift makes room for a carry out of 53 bits. -/
theorem exists_canonical {mantissa : ℕ} {exponent : ℤ} (hpos : 0 < mantissa)
    (hle : mantissa ≤ 2 ^ 53) (hmin : minExponent ≤ exponent)
    (hnormal : exponent = minExponent ∨ 2 ^ 52 ≤ mantissa) :
    ∃ (em : ExtendedMantissa) (target : ℤ),
      shiftToTargetExponent .binary64 mantissa exponent .exact = (em, target) ∧
      Canonical em.mantissa target ∧ fraction em.mantissa target = fraction mantissa exponent := by
  rcases hle.lt_or_eq with hlt | rfl
  · have hlog : mantissa.log2 < 53 := (Nat.log2_lt hpos.ne').2 hlt
    have hshift := @shiftToTargetExponent_eq mantissa 0 exponent .exact (by omega)
    rw [Nat.cast_zero, add_zero] at hshift
    exact ⟨_, exponent, hshift, ⟨hpos, hlt, hmin, hnormal⟩, rfl⟩
  · have hlog : (2 ^ 53).log2 = 53 := Nat.log2_two_pow
    have hshift := @shiftToTargetExponent_eq (2 ^ 53) 1 exponent .exact (by omega)
    have hhalf : (ExtendedMantissa.ofMantissaAndAccuracy (2 ^ 53) .exact >>> 1).mantissa =
        2 ^ 52 := by decide
    refine ⟨_, exponent + 1, hshift, ?_, ?_⟩
    · rw [hhalf]
      exact ⟨by decide, by decide, by omega, .inr le_rfl⟩
    · rw [hhalf]
      unfold fraction
      rw [zpow_add_one₀ two_ne_zero]
      push_cast
      ring

section Bounds

variable {m : ℕ} {e target : ℤ} {y : ℚ}

/-- A double with a greater exponent is a whole number of units. -/
theorem exists_multiple (m : ℕ) (h : target ≤ e) : ∃ n : ℕ, fraction m e = fraction n target := by
  obtain ⟨shift, rfl⟩ : ∃ shift : ℕ, e = target + shift := ⟨(e - target).toNat, by omega⟩
  refine ⟨m * 2 ^ shift, ?_⟩
  unfold fraction
  rw [zpow_add₀ two_ne_zero, zpow_natCast]
  push_cast
  ring

/-- A number is not rounded past a double below it. -/
theorem Approximates.fraction_le_rounded (hy : Approximates em y) (hm : Canonical m e)
    (hnormal : target = minExponent ∨ 2 ^ 52 ≤ y) (h : fraction m e ≤ fraction y target) :
    fraction m e ≤ fraction em.roundedMantissa target := by
  by_cases hexp : target ≤ e
  · obtain ⟨n, hn⟩ := exists_multiple m hexp
    rw [hn, fraction_le_fraction] at h ⊢
    exact_mod_cast hy.le_roundedMantissa h
  · have hmin := hm.minExponent_le
    have hrounded : 2 ^ 52 ≤ em.roundedMantissa := by
      apply hy.le_roundedMantissa
      exact_mod_cast hnormal.resolve_left (by omega)
    exact (fraction_lt_of_exponent_lt (by exact_mod_cast hm.lt) (by omega)
      (by exact_mod_cast hrounded)).le

/-- A number is not rounded past a double above it. -/
theorem Approximates.rounded_le_fraction (hy : Approximates em y) (hm : Canonical m e)
    (hnormal : target = minExponent ∨ 2 ^ 52 ≤ y) (h : fraction y target ≤ fraction m e) :
    fraction em.roundedMantissa target ≤ fraction m e := by
  by_cases hexp : target ≤ e
  · obtain ⟨n, hn⟩ := exists_multiple m hexp
    rw [hn, fraction_le_fraction] at h ⊢
    exact_mod_cast hy.roundedMantissa_le h
  · have hmin := hm.minExponent_le
    have hlarge : 2 ^ 52 ≤ y := hnormal.resolve_left (by omega)
    have hcross : fraction m e < fraction y target :=
      fraction_lt_of_exponent_lt (by exact_mod_cast hm.lt) (by omega) hlarge
    exact absurd h (not_le.2 hcross)

end Bounds

/-- **Rounding never crosses a double.** A number between two positive doubles is rounded to one
between them. -/
theorem roundWithAccuracy_between {mantissa l u : ℕ} {exponent d e : ℤ} {accuracy : Accuracy}
    {x : ℚ} (hx : Approximates (.ofMantissaAndAccuracy mantissa accuracy) x)
    (hbits : exponent ≤ Format.binary64.targetExponent (totalExponent mantissa exponent))
    (hl : IsDouble l d) (hu : IsDouble u e) (hlow : fraction l d ≤ fraction x exponent)
    (hhigh : fraction x exponent ≤ fraction u e) :
    ∃ (m : ℕ) (c : ℤ) (hm : IsDouble m c),
      roundWithAccuracy .binary64 .positive mantissa exponent accuracy =
        .finite .positive m c hm.pos ∧
      fraction l d ≤ fraction m c ∧ fraction m c ≤ fraction u e := by
  obtain ⟨em, target, y, hshift, hy, heq, hlt, hmin, hnormal⟩ := exists_shifted hx hbits
  rw [← heq] at hlow hhigh
  have hroundedLow := hy.fraction_le_rounded hl.toCanonical hnormal hlow
  have hroundedHigh := hy.rounded_le_fraction hu.toCanonical hnormal hhigh
  generalize hrounded : em.roundedMantissa = rounded at hroundedLow hroundedHigh
  have hroundedLe : rounded ≤ 2 ^ 53 := by
    rw [← hrounded]
    exact hy.roundedMantissa_le (by exact_mod_cast hlt.le)
  have hroundedNormal : target = minExponent ∨ 2 ^ 52 ≤ rounded := by
    rw [← hrounded]
    exact hnormal.imp_right fun h => hy.le_roundedMantissa (by exact_mod_cast h)
  have hroundedPos : 0 < rounded := by
    have hlpos : 0 < fraction l d := fraction_pos.2 (by exact_mod_cast hl.pos)
    exact_mod_cast fraction_pos.1 (hlpos.trans_le hroundedLow)
  obtain ⟨em', target', hshift', hcanonical, heq'⟩ :=
    exists_canonical hroundedPos hroundedLe hmin hroundedNormal
  rw [← heq'] at hroundedLow hroundedHigh
  -- no overflow, as the upper double would lie below the result
  have hmax : target' ≤ maxExponent := by
    by_contra hover
    have hcross := hu.toCanonical.fraction_lt hcanonical (by have := hu.le_maxExponent; omega)
    exact absurd hroundedHigh (not_le.2 hcross)
  refine ⟨em'.mantissa, target', ⟨hcanonical, hmax⟩, ?_, hroundedLow, hroundedHigh⟩
  unfold roundWithAccuracy
  rw [hshift]
  dsimp only
  rw [hrounded, hshift']
  exact dif_neg hcanonical.pos.ne'

end PhraseTable.Binary64
