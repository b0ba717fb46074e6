import Mathlib
import PhraseTable.Proofs.Number.Rounding

/-!
# The values of doubles

`Denotes` says that a double is positive and finite, and what it is worth. Doubles are compared as
their values are. A product or quotient that lies between two doubles is a double between them, and
a whole number below `2 ^ 53` is a double itself. So the part that a count is of a count as great or
greater is a double above zero that is at most one: `quotient_mem`.
-/

set_option autoImplicit false

namespace PhraseTable.Binary64

open Float.Model (Format totalExponent)
open Float.Model.UnpackedFloat (Accuracy Sign finite accuracyOfFraction divCore roundWithAccuracy
  decreaseExponent pack unpack packComponents unpackMantissa_packComponents
  unpackExponent_packComponents unpackSign_packComponents)

/-! ## Packing -/

/-- The implicit bit in front of the stored ones makes the mantissa. -/
theorem toNat_implicit {m : ℕ} (hlow : 2 ^ 52 ≤ m) (hhigh : m < 2 ^ 53) :
    (1#1 ++ BitVec.ofNat 52 m).toNat = m := by
  rw [BitVec.toNat_append, BitVec.toNat_ofNat, BitVec.toNat_ofNat,
    ← Nat.shiftLeft_add_eq_or_of_lt (Nat.mod_lt m (by decide)), Nat.shiftLeft_eq]
  omega

/-- A normal double is unpacked from its stored parts. -/
theorem unpack_normal {m biased : ℕ} (hpos : 0 < biased) (hbiased : biased < 2047)
    (hlow : 2 ^ 52 ≤ m) (hhigh : m < 2 ^ 53) :
    unpack .binary64 (packComponents .binary64 .positive (BitVec.ofNat 11 biased)
      (BitVec.ofNat 52 m)) = .finite .positive m ((biased : ℤ) - 1075) (by omega) := by
  have hnat : (BitVec.ofNat 11 biased).toNat = biased := by
    rw [BitVec.toNat_ofNat, Nat.mod_eq_of_lt (by omega)]
  have hfinite : BitVec.ofNat 11 biased ≠ -1#11 := by
    intro heq
    have : biased = 2047 := hnat.symm.trans (congrArg BitVec.toNat heq)
    omega
  have hnormal : BitVec.ofNat 11 biased ≠ 0#11 := by
    intro heq
    have : biased = 0 := hnat.symm.trans (congrArg BitVec.toNat heq)
    omega
  unfold unpack
  simp only [unpackMantissa_packComponents, unpackExponent_packComponents,
    unpackSign_packComponents, Sign.ofBitVec_toBitVec]
  rw [if_neg hfinite, if_neg hnormal]
  simp only [finite.injEq, true_and]
  exact ⟨toNat_implicit hlow hhigh, by rw [hnat]; rfl⟩

/-- A subnormal double is unpacked from its stored parts. -/
theorem unpack_subnormal {m : ℕ} (hpos : 0 < m) (hhigh : m < 2 ^ 52) :
    unpack .binary64 (packComponents .binary64 .positive 0#11 (BitVec.ofNat 52 m)) =
      .finite .positive m minExponent hpos := by
  have hnat : (BitVec.ofNat 52 m).toNat = m := by
    rw [BitVec.toNat_ofNat, Nat.mod_eq_of_lt hhigh]
  have hne : BitVec.ofNat 52 m ≠ 0#52 := by
    intro heq
    have : m = 0 := hnat.symm.trans (congrArg BitVec.toNat heq)
    omega
  unfold unpack
  simp only [unpackMantissa_packComponents, unpackExponent_packComponents,
    unpackSign_packComponents, Sign.ofBitVec_toBitVec]
  rw [if_neg (by decide), if_pos trivial, dif_neg hne]
  simp only [finite.injEq, true_and]
  exact ⟨hnat, rfl⟩

/-- A double that is packed is unpacked again. -/
theorem unpack_pack {m : ℕ} {e : ℤ} (h : IsDouble m e) :
    unpack .binary64 (pack .binary64 (.finite .positive m e h.pos)) =
      .finite .positive m e h.pos := by
  have hmin := h.minExponent_le
  have hmax := h.le_maxExponent
  unfold minExponent at hmin
  unfold maxExponent at hmax
  obtain ⟨biased, hbiased⟩ : ∃ biased : ℕ, (biased : ℤ) = e + 1075 :=
    ⟨(e + 1075).toNat, by omega⟩
  have hpacked : (e + (Format.binary64.exponentBias : ℤ) +
      (Format.binary64.mantissaBitsWithoutImplicit : ℤ)).toNat = biased := by
    show (e + 1023 + 52).toNat = biased
    omega
  have hover : ¬2 ^ Format.binary64.exponentBits ≤ biased + 1 := by
    show ¬2 ^ 11 ≤ biased + 1
    omega
  unfold pack
  dsimp only
  rw [hpacked, if_neg hover]
  by_cases hnormal : 2 ^ 52 ≤ m
  · have hlog : m.log2 = 52 := (Nat.log2_eq_iff h.pos.ne').2 ⟨hnormal, h.lt⟩
    rw [if_pos (by rw [hlog]; rfl), unpack_normal (by omega) (by omega) hnormal h.lt]
    simp only [finite.injEq, true_and]
    omega
  · have hlog : m.log2 < 52 := (Nat.log2_lt h.pos.ne').2 (not_le.1 hnormal)
    have hsubnormal : e = minExponent := h.normal.resolve_right hnormal
    rw [if_neg (by show ¬m.log2 + 1 = 53; omega),
      unpack_subnormal h.pos (not_le.1 hnormal)]
    simp only [finite.injEq, true_and]
    exact hsubnormal.symm

/-! ## Values -/

/-- The double is positive and finite, and this is its value. -/
def Denotes (x : Float) (q : ℚ) : Prop :=
  ∃ (m : ℕ) (e : ℤ) (h : IsDouble m e),
    x.toModel.unpack = .finite .positive m e h.pos ∧ fraction m e = q

/-- A packed double denotes its fraction. -/
theorem denotes_pack {m : ℕ} {e : ℤ} (h : IsDouble m e) :
    Denotes (.ofModel (.pack (.finite .positive m e h.pos))) (fraction m e) :=
  ⟨m, e, h, unpack_pack h, rfl⟩

variable {v w : Float} {p q : ℚ}

/-- Only positive numbers are denoted. -/
theorem Denotes.pos (h : Denotes v p) : 0 < p := by
  obtain ⟨m, e, hd, -, rfl⟩ := h
  exact fraction_pos.2 (by exact_mod_cast hd.pos)

/-- Positive doubles are compared as their values are. -/
theorem Denotes.compare_eq (hv : Denotes v p) (hw : Denotes w q) :
    v.toModel.unpack.compare w.toModel.unpack = some (compare p q) := by
  obtain ⟨m, d, hm, hvm, rfl⟩ := hv
  obtain ⟨n, e, hn, hwn, rfl⟩ := hw
  have hcompare : v.toModel.unpack.compare w.toModel.unpack =
      some ((compare d e).then (compare m n)) := by
    rw [hvm, hwn]
    rfl
  rw [hcompare]
  rcases lt_trichotomy d e with hlt | rfl | hgt
  · rw [compare_lt_iff_lt.2 hlt, compare_lt_iff_lt.2 (hm.fraction_lt hn.toCanonical hlt)]
    rfl
  · have hmantissa : compare m n = compare (fraction m d) (fraction n d) := by
      rcases lt_trichotomy m n with hlt | rfl | hgt
      · have hvalue : fraction m d < fraction n d :=
          fraction_lt_fraction.2 (by exact_mod_cast hlt)
        rw [compare_lt_iff_lt.2 hlt, compare_lt_iff_lt.2 hvalue]
      · rw [compare_eq_iff_eq.2 rfl, compare_eq_iff_eq.2 rfl]
      · have hvalue : fraction n d < fraction m d :=
          fraction_lt_fraction.2 (by exact_mod_cast hgt)
        rw [compare_gt_iff_gt.2 hgt, compare_gt_iff_gt.2 hvalue]
    rw [compare_eq_iff_eq.2 rfl, hmantissa]
    rfl
  · rw [compare_gt_iff_gt.2 hgt, compare_gt_iff_gt.2 (hn.fraction_lt hm.toCanonical hgt)]
    rfl

/-- The order of doubles is that of their values. -/
theorem Denotes.le_iff (hv : Denotes v p) (hw : Denotes w q) : v ≤ w ↔ p ≤ q := by
  have hle : v ≤ w ↔ v.toModel.unpack.le w.toModel.unpack = true := decide_eq_true_iff
  rw [hle, Float.Model.UnpackedFloat.le, hv.compare_eq hw, Option.any_some,
    Ordering.isLE_iff_ne_gt]
  exact compare_le_iff_le

/-- Doubles are in the order of the numbers that they denote. -/
theorem Denotes.lt_iff (hv : Denotes v p) (hw : Denotes w q) : v < w ↔ p < q := by
  have hlt : v < w ↔ v.toModel.unpack.lt w.toModel.unpack = true := decide_eq_true_iff
  rw [hlt, Float.Model.UnpackedFloat.lt, hv.compare_eq hw, beq_iff_eq, Option.some_inj]
  exact compare_lt_iff_lt

/-- A double that denotes a number is not below zero. -/
theorem Denotes.not_lt_zero (hv : Denotes v p) : ¬v < 0 := by
  obtain ⟨m, d, hm, hvm, rfl⟩ := hv
  have hlt : v < 0 ↔ v.toModel.unpack.lt (0 : Float).toModel.unpack = true := decide_eq_true_iff
  have hzero : (0 : Float).toModel.unpack = .zero .positive := by rfl
  rw [hlt, hzero, hvm]
  nofun

/-- A double that denotes a number is above zero. -/
theorem Denotes.zero_lt (hv : Denotes v p) : 0 < v := by
  obtain ⟨m, d, hm, hvm, rfl⟩ := hv
  have hlt : 0 < v ↔ (0 : Float).toModel.unpack.lt v.toModel.unpack = true := decide_eq_true_iff
  have hzero : (0 : Float).toModel.unpack = .zero .positive := by rfl
  rw [hlt, hzero, hvm]
  rfl

/-! ## Arithmetic -/

/-- There is a positive double with this value. -/
def Representable (q : ℚ) : Prop :=
  ∃ (m : ℕ) (e : ℤ), IsDouble m e ∧ fraction m e = q

/-- A number that is denoted is representable. -/
theorem Denotes.representable (h : Denotes v p) : Representable p := by
  obtain ⟨m, e, hm, -, heq⟩ := h
  exact ⟨m, e, hm, heq⟩

/-- A power of two is representable, if it is that of a normal double. -/
theorem representable_zpow {k : ℤ} (hlow : -1022 ≤ k) (hhigh : k ≤ 1023) :
    Representable (2 ^ k) := by
  refine ⟨2 ^ 52, k - 52, ⟨⟨by decide, by decide, ?_, .inr le_rfl⟩, ?_⟩, ?_⟩
  · unfold minExponent
    omega
  · unfold maxExponent
    omega
  · unfold fraction
    rw [zpow_sub₀ two_ne_zero]
    push_cast
    field_simp

/-- A number between two doubles is rounded to one between them. -/
theorem denotes_round {mantissa : ℕ} {exponent : ℤ} {accuracy : Accuracy} {x lo hi : ℚ}
    (hx : Approximates (.ofMantissaAndAccuracy mantissa accuracy) x)
    (hbits : exponent ≤ Format.binary64.targetExponent (totalExponent mantissa exponent))
    (hlo : Representable lo) (hhi : Representable hi) (hlow : lo ≤ fraction x exponent)
    (hhigh : fraction x exponent ≤ hi) :
    ∃ r : ℚ, Denotes
        (.ofModel (.pack (roundWithAccuracy .binary64 .positive mantissa exponent accuracy))) r ∧
      lo ≤ r ∧ r ≤ hi := by
  obtain ⟨l, d, hl, rfl⟩ := hlo
  obtain ⟨u, e, hu, rfl⟩ := hhi
  obtain ⟨m, c, hm, hround, hbetween⟩ := roundWithAccuracy_between hx hbits hl hu hlow hhigh
  rw [hround]
  exact ⟨_, denotes_pack hm, hbetween⟩

/-- A product between two representable numbers is rounded to a double between them. -/
theorem denotes_mul {lo hi : ℚ} (hv : Denotes v p) (hw : Denotes w q) (hlo : Representable lo)
    (hhi : Representable hi) (hlow : lo ≤ p * q) (hhigh : p * q ≤ hi) :
    ∃ r : ℚ, Denotes (v * w) r ∧ lo ≤ r ∧ r ≤ hi := by
  obtain ⟨m, d, hm, hvm, rfl⟩ := hv
  obtain ⟨n, e, hn, hwn, rfl⟩ := hw
  have hmul : v * w =
      .ofModel (.pack (roundWithAccuracy .binary64 .positive (m * n) (d + e) .exact)) := by
    show Float.ofModel (.pack (.mul .binary64 v.toModel.unpack w.toModel.unpack)) = _
    rw [hvm, hwn]
    rfl
  have hvalue : fraction (m * n : ℕ) (d + e) = fraction m d * fraction n e := by
    unfold fraction
    rw [zpow_add₀ two_ne_zero]
    push_cast
    ring
  have hbits : d + e ≤ minExponent ∨ 2 ^ 52 ≤ m * n := by
    rcases hm.normal with hd | hle
    · rcases hn.normal with he | hle
      · left
        rw [hd, he]
        decide
      · exact .inr (hle.trans (Nat.le_mul_of_pos_left n hm.pos))
    · exact .inr (hle.trans (Nat.le_mul_of_pos_right m hn.pos))
  rw [hmul]
  rw [← hvalue] at hlow hhigh
  exact denotes_round (approximates_exact _) (le_targetExponent hbits) hlo hhi hlow hhigh

/-- A quotient between two representable numbers is rounded to a double between them. -/
theorem denotes_div {lo hi : ℚ} (hv : Denotes v p) (hw : Denotes w q) (hlo : Representable lo)
    (hhi : Representable hi) (hlow : lo ≤ p / q) (hhigh : p / q ≤ hi) :
    ∃ r : ℚ, Denotes (v / w) r ∧ lo ≤ r ∧ r ≤ hi := by
  obtain ⟨m, d, hm, hvm, rfl⟩ := hv
  obtain ⟨n, e, hn, hwn, rfl⟩ := hw
  generalize htarget : min (d - e)
    (Format.binary64.targetExponent (totalExponent m d - totalExponent n e)) = target
  obtain ⟨shift, hshift⟩ : ∃ shift : ℕ, d - e = target + shift :=
    ⟨(d - e - target).toNat, by omega⟩
  have hcore : divCore .binary64 m d n e =
      (m * 2 ^ shift / n, target, accuracyOfFraction (m * 2 ^ shift % n) n) := by
    have hamount : (d - e - target).toNat = shift := by omega
    rw [← Nat.shiftLeft_eq, ← hamount, ← htarget]
    rfl
  have hdiv : v / w = .ofModel (.pack (roundWithAccuracy .binary64 .positive (m * 2 ^ shift / n)
      target (accuracyOfFraction (m * 2 ^ shift % n) n))) := by
    show Float.ofModel (.pack (.div .binary64 v.toModel.unpack w.toModel.unpack)) = _
    rw [hvm, hwn]
    show Float.ofModel (.pack (roundWithAccuracy .binary64 .positive (divCore .binary64 m d n e).1
      (divCore .binary64 m d n e).2.1 (divCore .binary64 m d n e).2.2)) = _
    rw [hcore]
  have hvalue : fraction (((m * 2 ^ shift : ℕ) : ℚ) / n) target = fraction m d / fraction n e := by
    have hd : d = target + shift + e := by omega
    unfold fraction
    rw [hd, zpow_add₀ two_ne_zero, zpow_add₀ two_ne_zero, zpow_natCast]
    push_cast
    field_simp
  have hbits : target ≤ minExponent ∨ 2 ^ 52 ≤ m * 2 ^ shift / n := by
    rw [or_iff_not_imp_left, Nat.le_div_iff_mul_le hn.pos]
    intro hnormal
    rw [targetExponent_eq, totalExponent, totalExponent] at htarget
    calc 2 ^ 52 * n ≤ 2 ^ 52 * 2 ^ (n.log2 + 1) := Nat.mul_le_mul_left _ Nat.lt_log2_self.le
      _ = 2 ^ (52 + (n.log2 + 1)) := (pow_add 2 52 _).symm
      _ ≤ 2 ^ (m.log2 + shift) := Nat.pow_le_pow_right two_pos (by omega)
      _ = 2 ^ m.log2 * 2 ^ shift := pow_add 2 _ shift
      _ ≤ m * 2 ^ shift := Nat.mul_le_mul_right _ (Nat.log2_self_le hm.pos.ne')
  rw [hdiv]
  rw [← hvalue] at hlow hhigh
  exact denotes_round (approximates_quotient _ hn.pos) (le_targetExponent hbits) hlo hhi hlow hhigh

/-! ## Whole numbers -/

/-- A natural keeps its value when it is shifted and its exponent makes up for it. -/
theorem fraction_shifted (n shift : ℕ) : fraction (n * 2 ^ shift : ℕ) (-shift) = n := by
  unfold fraction
  rw [zpow_neg, zpow_natCast]
  push_cast
  field_simp

/-- A natural below 53 bits is shifted to a normal double. -/
theorem isDouble_shifted {n : ℕ} (hpos : 0 < n) (hlt : n < 2 ^ 53) :
    IsDouble (n * 2 ^ (52 - n.log2)) (-(52 - n.log2 : ℕ)) := by
  have hlog : n.log2 < 53 := (Nat.log2_lt hpos.ne').2 hlt
  have hlow : 2 ^ 52 ≤ n * 2 ^ (52 - n.log2) :=
    calc 2 ^ 52 = 2 ^ n.log2 * 2 ^ (52 - n.log2) := by rw [← pow_add]; congr 1; omega
      _ ≤ n * 2 ^ (52 - n.log2) := Nat.mul_le_mul_right _ (Nat.log2_self_le hpos.ne')
  have hhigh : n * 2 ^ (52 - n.log2) < 2 ^ 53 :=
    calc n * 2 ^ (52 - n.log2) < 2 ^ (n.log2 + 1) * 2 ^ (52 - n.log2) :=
        Nat.mul_lt_mul_of_pos_right Nat.lt_log2_self (by positivity)
      _ = 2 ^ 53 := by rw [← pow_add]; congr 1; omega
  refine ⟨⟨by omega, hhigh, ?_, .inr hlow⟩, ?_⟩
  · unfold minExponent
    omega
  · unfold maxExponent
    omega

/-- A natural below 53 bits is representable. -/
theorem representable_natCast {n : ℕ} (hpos : 0 < n) (hlt : n < 2 ^ 53) : Representable n :=
  ⟨_, _, isDouble_shifted hpos hlt, fraction_shifted n _⟩

/-- A natural below 53 bits is converted without rounding. -/
theorem denotes_toFloat {n : ℕ} (hpos : 0 < n) (hlt : n < 2 ^ 53) :
    Denotes n.toUInt64.toFloat n := by
  have hdouble := isDouble_shifted hpos hlt
  have hlog : n.log2 < 53 := (Nat.log2_lt hpos.ne').2 hlt
  have hnat : n.toUInt64.toNat = n := Nat.mod_eq_of_lt (by omega)
  have hamount : (0 - Format.binary64.targetExponent (totalExponent n 0)).toNat = 52 - n.log2 := by
    rw [targetExponent_eq, totalExponent]
    unfold minExponent
    omega
  have hfloat : n.toUInt64.toFloat = .ofModel (.pack (roundWithAccuracy .binary64 .positive
      (n * 2 ^ (52 - n.log2)) (-(52 - n.log2 : ℕ)) .exact)) := by
    show Float.ofModel (.pack (.normalize .binary64 (n.toUInt64.toNat : ℤ) 0 .positive)) = _
    rw [hnat]
    unfold Float.Model.UnpackedFloat.normalize
    rw [compare_gt_iff_gt.2 (by exact_mod_cast hpos)]
    unfold Float.Model.UnpackedFloat.round decreaseExponent
    dsimp only
    rw [Int.toNat_natCast, hamount, Nat.shiftLeft_eq, zero_sub]
  have hbits := le_targetExponent (hdouble.normal.imp_left le_of_eq)
  have hrepresentable := representable_natCast hpos hlt
  have hvalue := fraction_shifted n (52 - n.log2)
  obtain ⟨r, hr, hlow, hhigh⟩ := denotes_round (approximates_exact _) hbits hrepresentable
    hrepresentable hvalue.ge hvalue.le
  rw [hfloat]
  rwa [le_antisymm hhigh hlow] at hr

/-- These are the bits of one. -/
theorem denotes_one : Denotes (.ofBits 0x3FF0000000000000) 1 := by
  refine ⟨2 ^ 52, -52, ⟨⟨by decide, by decide, by decide, .inr le_rfl⟩, by decide⟩, by rfl, ?_⟩
  have h := fraction_shifted 1 52
  simpa using h

/-- A numeral below 53 bits is the double of this natural. -/
theorem denotes_ofNat {n : ℕ} (hpos : 0 < n) (hlt : n < 2 ^ 53) : Denotes (Float.ofNat n) n := by
  have hfloat : Float.ofNat n = n.toUInt64.toFloat * .ofBits 0x3FF0000000000000 := by
    show Float.ofScientific n false 0 = _
    unfold Float.ofScientific
    rw [dif_pos ⟨hlt, by decide⟩]
    rfl
  have hrepresentable := representable_natCast hpos hlt
  obtain ⟨r, hr, hlow, hhigh⟩ := denotes_mul (denotes_toFloat hpos hlt) denotes_one hrepresentable
    hrepresentable (mul_one _).ge (mul_one _).le
  rw [hfloat]
  rwa [le_antisymm hhigh hlow] at hr

/-- The numeral one denotes one. -/
theorem denotes_ofNat_one : Denotes 1 1 := by
  have h := denotes_ofNat one_pos (by decide)
  rwa [Nat.cast_one] at h

/-- A positive integer below 53 bits is converted without rounding. -/
theorem denotes_ofInt {n : ℤ} (hpos : 0 < n) (hlt : n < 2 ^ 53) : Denotes (Float.ofInt n) n := by
  obtain ⟨k, rfl⟩ := Int.eq_ofNat_of_zero_le hpos.le
  rw [Int.cast_natCast]
  exact denotes_ofNat (by omega) (by omega)

/-- The quotient of a count and one as great or greater has a value, which is at most one. -/
theorem denotes_quotient {a b : ℤ} (hpos : 0 < a) (hle : a ≤ b) (hlt : b < 2 ^ 53) :
    ∃ r : ℚ, Denotes (Float.ofInt a / Float.ofInt b) r ∧ r ≤ 1 := by
  have ha := denotes_ofInt hpos (hle.trans_lt hlt)
  have hb := denotes_ofInt (hpos.trans_le hle) hlt
  have hbpos := hb.pos
  have hlow : (2 : ℚ) ^ (-53 : ℤ) ≤ a / b := by
    have hone : (1 : ℚ) ≤ a := by exact_mod_cast hpos
    have hbound : (b : ℚ) ≤ 2 ^ 53 := by exact_mod_cast hlt.le
    rw [le_div_iff₀ hbpos]
    calc (2 : ℚ) ^ (-53 : ℤ) * b ≤ 2 ^ (-53 : ℤ) * 2 ^ 53 := by gcongr
      _ = 1 := by norm_num
      _ ≤ a := hone
  have hhigh : (a / b : ℚ) ≤ 1 := (div_le_one hbpos).2 (by exact_mod_cast hle)
  obtain ⟨r, hr, -, hrle⟩ :=
    denotes_div ha hb (representable_zpow (by decide) (by decide)) denotes_ofNat_one.representable
      hlow hhigh
  exact ⟨r, hr, hrle⟩

/-- The quotient of a count and one as great or greater is above zero and at most one. -/
theorem quotient_mem {a b : ℤ} (hpos : 0 < a) (hle : a ≤ b) (hlt : b < 2 ^ 53) :
    0 < Float.ofInt a / Float.ofInt b ∧ Float.ofInt a / Float.ofInt b ≤ 1 := by
  obtain ⟨r, hr, hrle⟩ := denotes_quotient hpos hle hlt
  exact ⟨hr.zero_lt, (hr.le_iff denotes_ofNat_one).2 hrle⟩

end PhraseTable.Binary64
