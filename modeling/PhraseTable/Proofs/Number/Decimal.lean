import Mathlib.Algebra.Order.Field.Power
import Mathlib.Data.Rat.Cast.Order
import Mathlib.Tactic.FieldSimp
import Mathlib.Tactic.GCongr
import Mathlib.Tactic.Linarith
import Mathlib.Tactic.NormNum
import Mathlib.Tactic.Positivity
import Mathlib.Tactic.Ring
import PhraseTable.Number.Notation

/-!
# Rounding to decimal digits

A positive fraction is rounded to a number of significant digits: the power of ten of its leading
digit says in which units, and the digits are a quotient rounded to a natural. The digits fill their
places (`roundDigits_spec`), and a bound on the fraction that lies half a unit off a number with as
many digits is a bound on what it is rounded to (`roundedValue_le_of_even`, `le_roundedValue`).
-/

set_option autoImplicit false

namespace PhraseTable

open Number (twoTo tenTo)

/-! ## Rounded quotients -/

namespace Binary64

variable {num den c : ℕ}

/-- A rounded quotient is at most one half off, and it is even if it is one half above. -/
theorem roundQuotient_bounds (num : ℕ) (hden : 0 < den) :
    (num / den : ℚ) ≤ roundQuotient num den + 1 / 2 ∧
      (roundQuotient num den : ℚ) ≤ num / den + 1 / 2 ∧
      ((roundQuotient num den : ℚ) = num / den + 1 / 2 → roundQuotient num den % 2 = 0) := by
  have hdenpos : (0 : ℚ) < den := by exact_mod_cast hden
  have hvalue : (num / den : ℚ) = (num / den : ℕ) + (num % den : ℕ) / den := by
    have hdivmod : ((den * (num / den) + num % den : ℕ) : ℚ) = num := by rw [Nat.div_add_mod]
    rw [← hdivmod]
    push_cast
    field_simp
  have hrest : (0 : ℚ) ≤ (num % den : ℕ) / den := by positivity
  have hhalf : ((num % den : ℕ) / den : ℚ) ≤ 1 / 2 ↔ 2 * (num % den) ≤ den := by
    rw [div_le_iff₀ hdenpos, one_div, inv_mul_eq_div, le_div_iff₀' two_pos]
    exact_mod_cast Iff.rfl
  have hone : ((num % den : ℕ) / den : ℚ) < 1 := by
    rw [div_lt_one hdenpos]
    exact_mod_cast Nat.mod_lt num hden
  unfold roundQuotient
  dsimp only
  rw [hvalue]
  split
  · rename_i hdown
    have hle := hhalf.2 (hdown.elim le_of_lt fun htie => htie.1.le)
    exact ⟨by linarith, by linarith, fun heq => absurd heq (by linarith)⟩
  · rename_i hup
    rw [not_or, not_lt, not_and'] at hup
    push_cast
    refine ⟨by linarith, ?_, ?_⟩
    · have hge : (1 / 2 : ℚ) ≤ (num % den : ℕ) / den := by
        rw [le_div_iff₀ hdenpos, one_div, inv_mul_eq_div, div_le_iff₀' two_pos]
        exact_mod_cast hup.1
      linarith
    · intro heq
      have htie : 2 * (num % den) ≤ den := hhalf.1 (by linarith)
      have hodd : ¬num / den % 2 = 0 := fun heven => hup.2 heven (le_antisymm htie hup.1)
      omega

/-- A quotient less than half a unit above a natural is rounded to no more. -/
theorem roundQuotient_le (hden : 0 < den) (h : (num / den : ℚ) < c + 1 / 2) :
    roundQuotient num den ≤ c := by
  obtain ⟨-, hle, -⟩ := roundQuotient_bounds num hden
  have hlt : (roundQuotient num den : ℚ) < (c + 1 : ℕ) := by
    push_cast
    linarith
  exact Nat.lt_add_one_iff.1 (by exact_mod_cast hlt)

/-- A quotient at most half a unit above an even natural is rounded to no more. -/
theorem roundQuotient_le_of_even (hden : 0 < den) (h : (num / den : ℚ) ≤ c + 1 / 2)
    (hc : c % 2 = 0) : roundQuotient num den ≤ c := by
  rcases h.lt_or_eq with hlt | heq
  · exact roundQuotient_le hden hlt
  · obtain ⟨-, hle, htie⟩ := roundQuotient_bounds num hden
    rw [heq] at hle htie
    have hsucc : roundQuotient num den ≤ c + 1 := by
      have : (roundQuotient num den : ℚ) ≤ (c + 1 : ℕ) := by
        push_cast
        linarith
      exact_mod_cast this
    have hne : roundQuotient num den ≠ c + 1 := by
      intro hodd
      have := htie (by rw [hodd]; push_cast; ring)
      omega
    omega

/-- A quotient less than half a unit below a natural is rounded to no less. -/
theorem le_roundQuotient (hden : 0 < den) (h : (c : ℚ) < num / den + 1 / 2) :
    c ≤ roundQuotient num den := by
  obtain ⟨hle, -, -⟩ := roundQuotient_bounds num hden
  have hlt : (c : ℚ) < (roundQuotient num den + 1 : ℕ) := by
    push_cast
    linarith
  exact Nat.lt_add_one_iff.1 (by exact_mod_cast hlt)

end Binary64

/-! ## The leading digit -/

namespace Number

/-- A natural has at least one digit. -/
theorem decimalLength_pos (n : ℕ) : 0 < decimalLength n := Nat.length_toDigits_pos

/-- A natural lies below the power of ten of its number of digits. -/
theorem lt_pow_decimalLength (n : ℕ) : n < 10 ^ decimalLength n :=
  (Nat.length_toDigits_le_iff (by decide) (decimalLength_pos n)).1 le_rfl

/-- A positive natural reaches the power of ten of its leading digit. -/
theorem pow_decimalLength_le {n : ℕ} (hn : 0 < n) : 10 ^ (decimalLength n - 1) ≤ n := by
  by_contra hlt
  have hpos : decimalLength n - 1 ≠ 0 := by
    intro hzero
    rw [hzero] at hlt
    omega
  have hle := (Nat.length_toDigits_le_iff (by decide) (Nat.pos_of_ne_zero hpos)).2 (not_le.1 hlt)
  have := decimalLength_pos n
  unfold decimalLength at hle this hpos
  omega

/-- The leading digit of a positive fraction counts this power of ten. -/
theorem leadingPower_spec {num den : ℕ} (hnum : 0 < num) (hden : 0 < den) :
    (10 : ℚ) ^ leadingPower num den ≤ num / den ∧
      (num / den : ℚ) < 10 ^ (leadingPower num den + 1) := by
  have hnumpos : (0 : ℚ) < num := by exact_mod_cast hnum
  have hdenpos : (0 : ℚ) < den := by exact_mod_cast hden
  unfold leadingPower
  split
  · rename_i hle
    have hlow := pow_decimalLength_le (Nat.div_pos hle hden)
    have hhigh := lt_pow_decimalLength (num / den)
    have hlength := decimalLength_pos (num / den)
    generalize decimalLength (num / den) = length at hlow hhigh hlength ⊢
    rw [sub_add_cancel, zpow_natCast]
    constructor
    · have hpower : (length : ℤ) - 1 = (length - 1 : ℕ) := by omega
      rw [hpower, zpow_natCast, le_div_iff₀ hdenpos]
      exact_mod_cast (Nat.le_div_iff_mul_le hden).1 hlow
    · rw [div_lt_iff₀ hdenpos]
      exact_mod_cast (Nat.div_lt_iff_lt_mul hden).1 hhigh
  · rename_i hlt
    have hone : 0 < (den - 1) / num := Nat.div_pos (by omega) hnum
    have hlow := pow_decimalLength_le hone
    have hhigh := lt_pow_decimalLength ((den - 1) / num)
    have hlength := decimalLength_pos ((den - 1) / num)
    generalize decimalLength ((den - 1) / num) = length at hlow hhigh hlength ⊢
    rw [Nat.le_div_iff_mul_le hnum] at hlow
    rw [Nat.div_lt_iff_lt_mul hnum] at hhigh
    constructor
    · rw [zpow_neg, zpow_natCast, inv_le_comm₀ (by positivity) (by positivity), inv_div,
        div_le_iff₀ hnumpos]
      have : den ≤ 10 ^ length * num := by omega
      exact_mod_cast this
    · have hpower : -(length : ℤ) + 1 = -((length - 1 : ℕ) : ℤ) := by omega
      rw [hpower, zpow_neg, zpow_natCast, lt_inv_comm₀ (by positivity) (by positivity), inv_div,
        lt_div_iff₀ hnumpos]
      have : 10 ^ (length - 1) * num < den := by omega
      exact_mod_cast this

/-! ## Significant digits -/

/-- The power of two, as the library has it. -/
theorem twoTo_eq (n : ℕ) : twoTo n = 2 ^ n := rfl

/-- The power of ten, as the library has it. -/
theorem tenTo_eq (n : ℕ) : tenTo n = 10 ^ n := rfl

/-- A fraction is counted in other units by a factor on one of its sides. -/
theorem ratio_scaled {base : ℕ} (hbase : 0 < base) (num den : ℕ) (power : ℤ) :
    ((num * base ^ power.toNat : ℕ) / (den * base ^ (-power).toNat : ℕ) : ℚ) =
      num / den * base ^ power := by
  have hpos : (base : ℚ) ≠ 0 := by exact_mod_cast hbase.ne'
  push_cast
  rw [mul_div_mul_comm, ← zpow_natCast, ← zpow_natCast, ← zpow_sub₀ hpos]
  congr 2
  omega

section Scaled

variable {base base' a b m n : ℕ}

/-- Numbers in units below one are compared as naturals, each in units of the other. -/
theorem scaled_le_scaled_iff (hbase : 0 < base) (hbase' : 0 < base') :
    (a * base ^ (-m : ℤ) : ℚ) ≤ b * base' ^ (-n : ℤ) ↔ a * base' ^ n ≤ b * base ^ m := by
  have hpos : (0 : ℚ) < base := by exact_mod_cast hbase
  have hpos' : (0 : ℚ) < base' := by exact_mod_cast hbase'
  rw [zpow_neg, zpow_neg, zpow_natCast, zpow_natCast, ← div_eq_mul_inv, ← div_eq_mul_inv,
    div_le_div_iff₀ (by positivity) (by positivity)]
  exact_mod_cast Iff.rfl

/-- Numbers in units of negative powers are compared when both powers are cleared. -/
theorem scaled_lt_scaled_iff (hbase : 0 < base) (hbase' : 0 < base') :
    (a * base ^ (-m : ℤ) : ℚ) < b * base' ^ (-n : ℤ) ↔ a * base' ^ n < b * base ^ m := by
  rw [← not_le, ← not_le, scaled_le_scaled_iff hbase' hbase]

end Scaled

/-- The value of digits, the first of which counts `10 ^ power`. -/
def digitsValue (digits value : ℕ) (power : ℤ) : ℚ :=
  value * 10 ^ (power - (digits - 1))

/-- What a fraction is rounded to. -/
def roundedValue (digits num den : ℕ) : ℚ :=
  digitsValue digits (roundDigits digits num den).1 (roundDigits digits num den).2

section RoundDigits

variable {digits num den : ℕ}

/-- The digits fill their places. They are the fraction, counted in units of the last of them and
rounded, but for a carry into the next power of ten. -/
theorem roundDigits_spec (hdigits : 0 < digits) (hnum : 0 < num) (hden : 0 < den) :
    (10 ^ (digits - 1) ≤ (roundDigits digits num den).1 ∧
      (roundDigits digits num den).1 < 10 ^ digits) ∧
    ∃ num' den' : ℕ, 0 < den' ∧
      (num' / den' : ℚ) = num / den * 10 ^ (digits - 1 - leadingPower num den) ∧
      10 ^ (digits - 1) ≤ Binary64.roundQuotient num' den' ∧
      Binary64.roundQuotient num' den' ≤ 10 ^ digits ∧
      roundedValue digits num den =
        Binary64.roundQuotient num' den' * 10 ^ (leadingPower num den - (digits - 1)) := by
  obtain ⟨hlow, hhigh⟩ := leadingPower_spec hnum hden
  unfold roundedValue roundDigits
  dsimp only
  generalize leadingPower num den = power at hlow hhigh ⊢
  generalize hshift : (digits : ℤ) - 1 - power = shift
  generalize hnum' : num * tenTo shift.toNat = num'
  generalize hden' : den * tenTo (-shift).toNat = den'
  have hden'pos : 0 < den' := by
    rw [← hden']
    exact Nat.mul_pos hden (Nat.pow_pos (by decide))
  have hratio : (num' / den' : ℚ) = num / den * 10 ^ shift := by
    rw [← hnum', ← hden']
    exact ratio_scaled (by decide) num den shift
  have hplaces : ((digits - 1 : ℕ) : ℤ) = power + shift := by omega
  have hlow' : (10 : ℚ) ^ (digits - 1) ≤ num' / den' := by
    rw [hratio, ← zpow_natCast, hplaces, zpow_add₀ (by norm_num)]
    gcongr
  have hhigh' : (num' / den' : ℚ) < 10 ^ digits := by
    have hdigits' : (digits : ℤ) = power + 1 + shift := by omega
    rw [hratio, ← zpow_natCast, hdigits', zpow_add₀ (by norm_num)]
    gcongr
  have hge : 10 ^ (digits - 1) ≤ Binary64.roundQuotient num' den' := by
    apply Binary64.le_roundQuotient hden'pos
    push_cast
    linarith
  have hle : Binary64.roundQuotient num' den' ≤ 10 ^ digits := by
    apply Binary64.roundQuotient_le hden'pos
    push_cast
    linarith
  refine ⟨?digits, num', den', hden'pos, hratio, hge, hle, ?value⟩
  case digits =>
    split
    · exact ⟨le_rfl, Nat.pow_lt_pow_right (by decide) (by omega)⟩
    · rename_i hcarry
      exact ⟨hge, lt_of_le_of_ne hle hcarry⟩
  case value =>
    unfold digitsValue
    split
    · rename_i hcarry
      rw [hcarry, tenTo_eq, tenTo_eq]
      push_cast
      rw [← zpow_natCast, ← zpow_natCast, ← zpow_add₀ (by norm_num), ← zpow_add₀ (by norm_num)]
      congr 1
      omega
    · rfl

/-- The leading digit stays where it is, or moves up. -/
theorem pow_leadingPower_le_roundedValue (hdigits : 0 < digits) (hnum : 0 < num) (hden : 0 < den) :
    (10 : ℚ) ^ leadingPower num den ≤ roundedValue digits num den := by
  obtain ⟨-, num', den', -, -, hge, -, hvalue⟩ := roundDigits_spec hdigits hnum hden
  have hge' : (10 : ℚ) ^ (digits - 1) ≤ Binary64.roundQuotient num' den' := by exact_mod_cast hge
  rw [hvalue]
  calc (10 : ℚ) ^ leadingPower num den
      = 10 ^ (digits - 1) * 10 ^ (leadingPower num den - (digits - 1)) := by
        rw [← zpow_natCast, ← zpow_add₀ (by norm_num)]
        congr 1
        omega
    _ ≤ Binary64.roundQuotient num' den' * 10 ^ (leadingPower num den - (digits - 1)) := by gcongr

variable {c : ℕ} {k : ℤ}

/-- A fraction up to the middle above an even number is not rounded above that number. -/
theorem roundedValue_le_of_even (hdigits : 0 < digits) (hnum : 0 < num) (hden : 0 < den)
    (hlow : 10 ^ (digits - 1) ≤ c) (hhigh : c < 10 ^ digits) (hc : c % 2 = 0)
    (h : (num / den : ℚ) ≤ (c + 1 / 2) * 10 ^ k) : roundedValue digits num den ≤ c * 10 ^ k := by
  obtain ⟨hpower, -⟩ := leadingPower_spec hnum hden
  obtain ⟨-, num', den', hden', hratio, -, hle, hvalue⟩ := roundDigits_spec hdigits hnum hden
  rw [hvalue]
  generalize leadingPower num den = power at hpower hratio ⊢
  have hlast : power ≤ k + (digits - 1) := by
    have hlt : (10 : ℚ) ^ power < 10 ^ (digits + k) := by
      have hc' : (c + 1 / 2 : ℚ) < 10 ^ digits := by
        have : (c + 1 : ℚ) ≤ 10 ^ digits := by exact_mod_cast hhigh
        linarith
      rw [zpow_add₀ (by norm_num), zpow_natCast]
      refine hpower.trans_lt (h.trans_lt ?_)
      gcongr
    have := (zpow_lt_zpow_iff_right₀ (by norm_num)).1 hlt
    omega
  rcases hlast.lt_or_eq with hlt | rfl
  · have hle' : (Binary64.roundQuotient num' den' : ℚ) ≤ 10 ^ digits := by exact_mod_cast hle
    have hlow' : (10 : ℚ) ^ (digits - 1) ≤ c := by exact_mod_cast hlow
    calc (Binary64.roundQuotient num' den' : ℚ) * 10 ^ (power - (digits - 1))
        ≤ 10 ^ digits * 10 ^ (power - (digits - 1)) := by gcongr
      _ = 10 ^ (power + 1) := by
        rw [← zpow_natCast, ← zpow_add₀ (by norm_num)]
        congr 1
        omega
      _ ≤ 10 ^ (((digits - 1 : ℕ) : ℤ) + k) := zpow_le_zpow_right₀ (by norm_num) (by omega)
      _ = 10 ^ (digits - 1) * 10 ^ k := by rw [zpow_add₀ (by norm_num), zpow_natCast]
      _ ≤ c * 10 ^ k := by gcongr
  · rw [add_sub_cancel_right]
    gcongr
    refine Binary64.roundQuotient_le_of_even hden' ?_ hc
    have hunits : (digits : ℤ) - 1 - (k + (digits - 1)) = -k := by ring
    rw [hratio, hunits, zpow_neg, ← div_eq_mul_inv, div_le_iff₀ (by positivity)]
    exact h

/-- A fraction above the middle below a number is not rounded below that number. -/
theorem le_roundedValue (hdigits : 0 < digits) (hnum : 0 < num) (hden : 0 < den)
    (hlow : 10 ^ (digits - 1) < c) (hhigh : c < 10 ^ digits)
    (h : (c - 1 / 2) * 10 ^ k < (num / den : ℚ)) : c * 10 ^ k ≤ roundedValue digits num den := by
  obtain ⟨-, hpower⟩ := leadingPower_spec hnum hden
  obtain ⟨-, num', den', hden', hratio, hge, -, hvalue⟩ := roundDigits_spec hdigits hnum hden
  rw [hvalue]
  generalize leadingPower num den = power at hpower hratio ⊢
  have hlast : k + (digits - 1) ≤ power := by
    have hlt : (10 : ℚ) ^ (((digits - 1 : ℕ) : ℤ) + k) < 10 ^ (power + 1) := by
      have hc' : (10 : ℚ) ^ (digits - 1) ≤ c - 1 / 2 := by
        have : (10 ^ (digits - 1) + 1 : ℚ) ≤ c := by exact_mod_cast hlow
        linarith
      rw [zpow_add₀ (by norm_num), zpow_natCast]
      refine lt_of_le_of_lt ?_ (h.trans hpower)
      gcongr
    have := (zpow_lt_zpow_iff_right₀ (by norm_num)).1 hlt
    omega
  rcases hlast.lt_or_eq with hlt | rfl
  · have hge' : (10 : ℚ) ^ (digits - 1) ≤ Binary64.roundQuotient num' den' := by
      exact_mod_cast hge
    have hhigh' : (c : ℚ) ≤ 10 ^ digits := by exact_mod_cast hhigh.le
    calc (c : ℚ) * 10 ^ k ≤ 10 ^ digits * 10 ^ k := by gcongr
      _ = 10 ^ (digits + k) := by rw [zpow_add₀ (by norm_num), zpow_natCast]
      _ ≤ 10 ^ (((digits - 1 : ℕ) : ℤ) + (power - (digits - 1))) :=
        zpow_le_zpow_right₀ (by norm_num) (by omega)
      _ = 10 ^ (digits - 1) * 10 ^ (power - (digits - 1)) := by
        rw [zpow_add₀ (by norm_num), zpow_natCast]
      _ ≤ Binary64.roundQuotient num' den' * 10 ^ (power - (digits - 1)) := by gcongr
  · rw [add_sub_cancel_right]
    gcongr
    apply Binary64.le_roundQuotient hden'
    have hunits : (digits : ℤ) - 1 - (k + (digits - 1)) = -k := by ring
    have hpos : (0 : ℚ) < 10 ^ k := by positivity
    have hmiddle := (lt_div_iff₀ hpos).2 h
    rw [hratio, hunits, zpow_neg, ← div_eq_mul_inv]
    linarith

end RoundDigits

end Number

end PhraseTable
