import PhraseTable.Number.Numeral
import PhraseTable.Proofs.Number.Decimal

/-!
# Which fractions are refused

A numeral is refused if it rounds to infinity, or if it is too small for a normal double and cut
short. Both are told by the fraction itself: `nearest_bits_lt` bounds the fractions that stay
finite, `tiny_nearest` and `not_tiny_nearest` tell on which side of the normal doubles a fraction
is, and `cut_nearest` says that a fraction which is no whole number of any power of two is cut.
-/

set_option autoImplicit false

namespace PhraseTable.Binary64

open Number (twoTo twoTo_eq ratio_scaled)

variable {num den : ℕ}

/-- A fraction counted in units of a power of two. -/
theorem ratio_inUnits (num den : ℕ) (exponent : ℤ) :
    ((inUnits num den exponent).1 / (inUnits num den exponent).2 : ℚ) =
      num / den * 2 ^ (-exponent) := by
  have h := ratio_scaled two_pos num den (-exponent)
  rw [neg_neg] at h
  exact_mod_cast h

/-- The denominator stays positive in other units. -/
theorem inUnits_pos (num : ℕ) (hden : 0 < den) (exponent : ℤ) : 0 < (inUnits num den exponent).2 :=
  Nat.mul_pos hden (Nat.pow_pos two_pos)

/-- The highest bit of a positive fraction counts this power of two. -/
theorem leadingExponent_spec (hnum : 0 < num) (hden : 0 < den) :
    (2 : ℚ) ^ leadingExponent num den ≤ num / den ∧
      (num / den : ℚ) < 2 ^ (leadingExponent num den + 1) := by
  have hdenpos : (0 : ℚ) < den := by exact_mod_cast hden
  have hnumlow : (2 : ℚ) ^ num.log2 ≤ num := by exact_mod_cast Nat.log2_self_le hnum.ne'
  have hnumhigh : (num : ℚ) < 2 ^ (num.log2 + 1) := by exact_mod_cast Nat.lt_log2_self
  have hdenlow : (2 : ℚ) ^ den.log2 ≤ den := by exact_mod_cast Nat.log2_self_le hden.ne'
  have hdenhigh : (den : ℚ) < 2 ^ (den.log2 + 1) := by exact_mod_cast Nat.lt_log2_self
  unfold leadingExponent
  dsimp only
  generalize hguess : (num.log2 : ℤ) - den.log2 = guess
  have hratio := ratio_inUnits num den guess
  have hpos := inUnits_pos num hden guess
  generalize (inUnits num den guess).1 = n at hratio ⊢
  generalize (inUnits num den guess).2 = d at hratio hpos ⊢
  have hunit : n < d ↔ (num / den : ℚ) < 2 ^ guess := by
    have hdpos : (0 : ℚ) < d := by exact_mod_cast hpos
    rw [← @Nat.cast_lt ℚ, ← div_lt_one hdpos, hratio, zpow_neg, ← div_eq_mul_inv,
      div_lt_one (by positivity)]
  split
  · rename_i hlt
    rw [sub_add_cancel]
    refine ⟨?_, hunit.1 hlt⟩
    rw [le_div_iff₀ hdenpos]
    calc (2 : ℚ) ^ (guess - 1) * den ≤ 2 ^ (guess - 1) * 2 ^ (den.log2 + 1) := by gcongr
      _ = 2 ^ num.log2 := by
        rw [← zpow_natCast, ← zpow_natCast, ← zpow_add₀ two_ne_zero]
        congr 1
        omega
      _ ≤ num := hnumlow
  · rename_i hle
    refine ⟨not_lt.1 fun hlt => hle (hunit.2 hlt), ?_⟩
    rw [div_lt_iff₀ hdenpos]
    calc (num : ℚ) < 2 ^ (num.log2 + 1) := hnumhigh
      _ = 2 ^ (guess + 1) * 2 ^ den.log2 := by
        rw [← zpow_natCast, ← zpow_natCast, ← zpow_add₀ two_ne_zero]
        congr 1
        omega
      _ ≤ 2 ^ (guess + 1) * den := by gcongr

/-- Less than half a unit below `2 ^ 53` the mantissa keeps to 53 bits. -/
theorem roundQuotient_inUnits_lt (hden : 0 < den) {exponent : ℤ}
    (h : (num / den : ℚ) < (2 ^ 54 - 1) * 2 ^ (exponent - 1)) :
    roundQuotient (inUnits num den exponent).1 (inUnits num den exponent).2 < twoTo 53 := by
  have hle : roundQuotient (inUnits num den exponent).1 (inUnits num den exponent).2 ≤
      2 ^ 53 - 1 := by
    apply roundQuotient_le (inUnits_pos num hden exponent)
    rw [ratio_inUnits, zpow_neg, ← div_eq_mul_inv, div_lt_iff₀ (by positivity)]
    rw [zpow_sub_one₀ two_ne_zero] at h
    norm_num at h ⊢
    linarith only [h]
  rw [twoTo_eq]
  omega

/-! ## Fractions that stay finite -/

/-- A fraction less than half a unit above the greatest double is not rounded to infinity. -/
theorem nearest_bits_lt (hnum : 0 < num) (hden : 0 < den)
    (h : (num / den : ℚ) < (2 ^ 54 - 1) * 2 ^ (970 : ℤ)) :
    (nearest num den).bits < infinityBits := by
  obtain ⟨hlow, hhigh⟩ := leadingExponent_spec hnum hden
  unfold nearest
  rw [if_neg hnum.ne']
  dsimp only
  generalize leadingExponent num den = leading at hlow hhigh ⊢
  have hleading : leading < 1024 := by
    rw [← zpow_lt_zpow_iff_right₀ (one_lt_two : (1 : ℚ) < 2)]
    refine hlow.trans_lt (h.trans ?_)
    rw [show (1024 : ℤ) = 54 + 970 from rfl, zpow_add₀ two_ne_zero]
    gcongr
    norm_num
  have hplace : twoTo 52 = 4503599627370496 := rfl
  have hinfinity : infinityBits = 2047 * 4503599627370496 := rfl
  have hmin : minExponent = -1074 := rfl
  generalize hexponent : max (leading - 52) minExponent = exponent
  suffices hbits : (exponent - minExponent).toNat * twoTo 52 +
      roundQuotient (inUnits num den exponent).1 (inUnits num den exponent).2 < infinityBits from
    lt_of_le_of_lt (min_le_left _ _) hbits
  rw [hplace, hinfinity]
  by_cases hlast : exponent = 971
  · have hround : roundQuotient (inUnits num den exponent).1 (inUnits num den exponent).2 <
        twoTo 53 := by
      rw [hlast]
      exact roundQuotient_inUnits_lt hden h
    have htwice : twoTo 53 = 9007199254740992 := rfl
    omega
  · have hround : roundQuotient (inUnits num den exponent).1 (inUnits num den exponent).2 ≤
        2 ^ 53 := by
      apply roundQuotient_le (inUnits_pos num hden exponent)
      rw [ratio_inUnits, zpow_neg, ← div_eq_mul_inv, div_lt_iff₀ (by positivity)]
      calc (num / den : ℚ) < 2 ^ (leading + 1) := hhigh
        _ ≤ 2 ^ (53 + exponent) := zpow_le_zpow_right₀ one_le_two (by omega)
        _ = 2 ^ 53 * 2 ^ exponent := by rw [zpow_add₀ two_ne_zero]; rfl
        _ ≤ ((2 ^ 53 : ℕ) + 1 / 2) * 2 ^ exponent := by gcongr; norm_num
    omega

/-! ## Fractions below the normal doubles -/

/-- A fraction more than half a unit below the normal doubles is tiny. -/
theorem tiny_nearest (hnum : 0 < num) (hden : 0 < den)
    (h : (num / den : ℚ) < (2 ^ 54 - 1) * 2 ^ (-1076 : ℤ)) : (nearest num den).tiny = true := by
  obtain ⟨hlow, hhigh⟩ := leadingExponent_spec hnum hden
  unfold nearest
  rw [if_neg hnum.ne']
  dsimp only
  rw [decide_eq_true_iff]
  generalize leadingExponent num den = leading at hlow hhigh ⊢
  constructor
  · rw [← zpow_lt_zpow_iff_right₀ (one_lt_two : (1 : ℚ) < 2)]
    refine hlow.trans_lt (h.trans ?_)
    rw [show (-1022 : ℤ) = 54 + -1076 from rfl, zpow_add₀ two_ne_zero]
    gcongr
    norm_num
  · rintro ⟨rfl, hcarry⟩
    exact (roundQuotient_inUnits_lt hden h).ne hcarry

/-- A fraction as large as a normal double is not tiny. -/
theorem not_tiny_nearest (hnum : 0 < num) (hden : 0 < den)
    (h : (2 : ℚ) ^ (-1022 : ℤ) ≤ num / den) : (nearest num den).tiny = false := by
  obtain ⟨-, hhigh⟩ := leadingExponent_spec hnum hden
  have hlt := (zpow_lt_zpow_iff_right₀ one_lt_two).1 (h.trans_lt hhigh)
  unfold nearest
  rw [if_neg hnum.ne']
  dsimp only
  rw [decide_eq_false_iff_not, not_and]
  intro hleading
  omega

/-- A fraction with bits below every place is cut. -/
theorem cut_nearest (hnum : 0 < num) (hden : 0 < den)
    (h : ∀ (n : ℕ) (e : ℤ), (num / den : ℚ) ≠ n * 2 ^ e) : (nearest num den).cut = true := by
  unfold nearest isCut
  rw [if_neg hnum.ne']
  dsimp only
  rw [decide_eq_true_iff]
  generalize leadingExponent num den - 52 = exponent
  have hratio := ratio_inUnits num den exponent
  have hpos := inUnits_pos num hden exponent
  generalize (inUnits num den exponent).1 = n at hratio ⊢
  generalize (inUnits num den exponent).2 = d at hratio hpos ⊢
  right
  intro hzero
  obtain ⟨halves, hhalves⟩ := Nat.dvd_of_mod_eq_zero hzero
  apply h halves (exponent - 1)
  have hdpos : (d : ℚ) ≠ 0 := by exact_mod_cast hpos.ne'
  have hcast : (2 * n : ℚ) = d * halves := by exact_mod_cast hhalves
  have hn : (n / d : ℚ) = halves / 2 := by
    field_simp
    linarith
  rw [hn, zpow_neg, ← div_eq_mul_inv, eq_div_iff (by positivity)] at hratio
  rw [← hratio, zpow_sub_one₀ two_ne_zero]
  ring

end PhraseTable.Binary64

namespace PhraseTable.Number

/-! ## Decimal numerals -/

/-- Sizes between `10 ^ -400` and `10 ^ 400` are taken as they are. -/
theorem decimalFraction_spec {mantissa : ℕ} {exponent : ℤ}
    (hlow : (10 : ℚ) ^ (-400 : ℤ) ≤ mantissa * 10 ^ exponent)
    (hhigh : (mantissa * 10 ^ exponent : ℚ) < 10 ^ (400 : ℤ)) :
    0 < (decimalFraction mantissa exponent).1 ∧ 0 < (decimalFraction mantissa exponent).2 ∧
      ((decimalFraction mantissa exponent).1 / (decimalFraction mantissa exponent).2 : ℚ) =
        mantissa * 10 ^ exponent := by
  have hmantissa : 0 < mantissa := by
    refine Nat.pos_of_ne_zero ?_
    rintro rfl
    rw [Nat.cast_zero, zero_mul] at hlow
    exact absurd hlow (not_le.2 (by positivity))
  have hlengthpos := decimalLength_pos mantissa
  have hlength : (10 : ℚ) ^ (decimalLength mantissa - 1) ≤ mantissa := by
    exact_mod_cast pow_decimalLength_le hmantissa
  have hlength' : (mantissa : ℚ) < 10 ^ decimalLength mantissa := by
    exact_mod_cast lt_pow_decimalLength mantissa
  unfold decimalFraction
  dsimp only
  generalize decimalLength mantissa = length at hlengthpos hlength hlength' ⊢
  have hsmall : ¬400 < (length : ℤ) + exponent := by
    have hlt : (10 : ℚ) ^ (((length - 1 : ℕ) : ℤ) + exponent) < 10 ^ (400 : ℤ) := by
      rw [zpow_add₀ (by norm_num), zpow_natCast]
      refine lt_of_le_of_lt ?_ hhigh
      gcongr
    have := (zpow_lt_zpow_iff_right₀ (by norm_num)).1 hlt
    omega
  have hlarge : ¬(length : ℤ) + exponent < -400 := by
    have hlt : (10 : ℚ) ^ (-400 : ℤ) < 10 ^ ((length : ℤ) + exponent) := by
      rw [zpow_add₀ (by norm_num), zpow_natCast]
      refine lt_of_le_of_lt hlow ?_
      gcongr
    have := (zpow_lt_zpow_iff_right₀ (by norm_num)).1 hlt
    omega
  rw [if_neg hmantissa.ne', if_neg hsmall, if_neg hlarge]
  refine ⟨Nat.mul_pos hmantissa (Nat.pow_pos (by decide)), Nat.pow_pos (by decide), ?_⟩
  have h := ratio_scaled (by decide : 0 < 10) mantissa 1 exponent
  rw [Nat.one_mul, Nat.cast_one, div_one] at h
  exact_mod_cast h

/-- With fewer digits than places behind the point, a decimal fraction is no whole number of any
power of two. -/
theorem decimal_ne_dyadic {value places : ℕ} (hvalue : 0 < value) (hlt : value < 5 ^ places) (n : ℕ)
    (e : ℤ) : (value * 10 ^ (-places : ℤ) : ℚ) ≠ n * 2 ^ e := by
  intro heq
  obtain ⟨shift, hshift⟩ : ∃ shift : ℕ, 0 ≤ shift + places + e := ⟨(-(places + e)).toNat, by omega⟩
  obtain ⟨power, hpower⟩ : ∃ power : ℕ, (power : ℤ) = shift + places + e :=
    ⟨(shift + places + e).toNat, by omega⟩
  -- both sides times a power of ten and one of two are naturals
  have hnat : value * 2 ^ shift = n * 2 ^ power * 5 ^ places := by
    have hten : (10 : ℚ) ^ places ≠ 0 := by positivity
    have hcast : (value * 2 ^ shift : ℚ) = n * 2 ^ power * 5 ^ places := by
      have htwo : (2 : ℚ) ^ power = 2 ^ shift * 2 ^ places * 2 ^ e := by
        rw [← zpow_natCast, hpower, zpow_add₀ two_ne_zero, zpow_add₀ two_ne_zero, zpow_natCast,
          zpow_natCast]
      have hsplit : (10 : ℚ) ^ places = 2 ^ places * 5 ^ places := by
        rw [← mul_pow]
        norm_num
      rw [zpow_neg, zpow_natCast, ← div_eq_mul_inv, div_eq_iff hten, hsplit] at heq
      rw [heq, htwo]
      ring
    exact_mod_cast hcast
  have hdvd : 5 ^ places ∣ value := by
    have hcoprime : Nat.Coprime (5 ^ places) (2 ^ shift) :=
      Nat.Coprime.pow _ _ (by decide)
    exact hcoprime.dvd_of_dvd_mul_right ⟨n * 2 ^ power, by rw [hnat]; ring⟩
  exact absurd (Nat.le_of_dvd hvalue hdvd) (not_le.2 hlt)

namespace Numeral

variable {negative : Bool} {mantissa : ℕ} {exponent : ℤ}

/-- A decimal numeral that is no smaller than the normal doubles and does not round to infinity is
in range. -/
theorem outOfRange_eq_false
    (hlow : (2 : ℚ) ^ (-1022 : ℤ) ≤ mantissa * 10 ^ exponent)
    (hhigh : (mantissa * 10 ^ exponent : ℚ) < (2 ^ 54 - 1) * 2 ^ (970 : ℤ)) :
    outOfRange ⟨negative, .decimal mantissa exponent⟩ = false := by
  have hten : (10 : ℚ) ^ (-400 : ℤ) ≤ 2 ^ (-1022 : ℤ) := by
    have hscaled := (scaled_le_scaled_iff (by decide) (by decide)).2
      (by decide +kernel : 1 * 2 ^ 1022 ≤ 1 * 10 ^ 400)
    rw [Nat.cast_one, one_mul, one_mul] at hscaled
    exact_mod_cast hscaled
  have hten' : ((2 ^ 54 - 1) * 2 ^ (970 : ℤ) : ℚ) < 10 ^ (400 : ℤ) :=
    calc ((2 ^ 54 - 1) * 2 ^ (970 : ℤ) : ℚ) < 2 ^ 54 * 2 ^ (970 : ℤ) := by gcongr; norm_num
      _ = 2 ^ (1024 : ℤ) := by rw [← zpow_natCast, ← zpow_add₀ two_ne_zero]; rfl
      _ ≤ 10 ^ (400 : ℤ) := by
        rw [zpow_ofNat, zpow_ofNat]
        exact_mod_cast (by decide +kernel : 2 ^ 1024 ≤ 10 ^ 400)
  obtain ⟨hnum, hden, hratio⟩ :=
    decimalFraction_spec (hten.trans hlow) (hhigh.trans hten')
  rw [← hratio] at hlow hhigh
  have hbits := Binary64.nearest_bits_lt hnum hden hhigh
  have htiny := Binary64.not_tiny_nearest hnum hden hlow
  unfold outOfRange Magnitude.fraction?
  dsimp only
  rw [htiny, Bool.false_and, Bool.or_false, beq_eq_false_iff_ne]
  exact hbits.ne

/-- A decimal numeral below the normal doubles is out of range if it is no whole number of any power
of two. -/
theorem outOfRange_eq_true
    (hlow : (10 : ℚ) ^ (-400 : ℤ) ≤ mantissa * 10 ^ exponent)
    (hhigh : (mantissa * 10 ^ exponent : ℚ) < (2 ^ 54 - 1) * 2 ^ (-1076 : ℤ))
    (hdyadic : ∀ (n : ℕ) (e : ℤ), (mantissa * 10 ^ exponent : ℚ) ≠ n * 2 ^ e) :
    outOfRange ⟨negative, .decimal mantissa exponent⟩ = true := by
  have hten : ((2 ^ 54 - 1) * 2 ^ (-1076 : ℤ) : ℚ) < 10 ^ (400 : ℤ) :=
    calc ((2 ^ 54 - 1) * 2 ^ (-1076 : ℤ) : ℚ) < 2 ^ 54 * 2 ^ (-1076 : ℤ) := by gcongr; norm_num
      _ = 2 ^ (-1022 : ℤ) := by rw [← zpow_natCast, ← zpow_add₀ two_ne_zero]; rfl
      _ ≤ 2 ^ (0 : ℤ) := zpow_le_zpow_right₀ one_le_two (by decide)
      _ = 10 ^ (0 : ℤ) := by rw [zpow_zero, zpow_zero]
      _ ≤ 10 ^ (400 : ℤ) := zpow_le_zpow_right₀ (by norm_num) (by decide)
  obtain ⟨hnum, hden, hratio⟩ := decimalFraction_spec hlow (hhigh.trans hten)
  rw [← hratio] at hhigh hdyadic
  have htiny := Binary64.tiny_nearest hnum hden hhigh
  have hcut := Binary64.cut_nearest hnum hden hdyadic
  unfold outOfRange Magnitude.fraction?
  dsimp only
  rw [htiny, hcut, Bool.true_or, Bool.and_true, Bool.or_true]

end Numeral

end PhraseTable.Number
