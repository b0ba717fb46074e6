import PhraseTable.Proofs.Number.Double

/-!
# A double divided by an equal one

Two doubles that compare as equal are the same one, unless they are zeros of two signs. So the
quotient of equal doubles depends on their kind alone: it is one, with no rounding, if they are
finite and not zero (`denotes_div_of_unpack`), and no number if they are zeros or infinities
(`unpack_div_of_beq`). A double is known by its value (`Denotes.unpack_eq`), so whatever is computed
from a quotient that is one is computed from the number one.
-/

set_option autoImplicit false

namespace PhraseTable.Binary64

open Float.Model (Format UnpackedFloat)
open Float.Model.UnpackedFloat (Sign pack packedNaN unpack unpackExponent unpackMantissa
  unpackExponent_packComponents unpackMantissa_packComponents)

/-- A subnormal mantissa stands as it is, at the least exponent. -/
theorem isDouble_subnormal {mantissa : BitVec 52} (h : mantissa ≠ 0#52) :
    IsDouble mantissa.toNat minExponent where
  pos := mantissa.toNat_pos.2 (mantissa.pos_iff_ne_zero.2 h)
  lt := mantissa.isLt.trans (by decide)
  minExponent_le := le_rfl
  normal := .inl rfl
  le_maxExponent := by decide

/-- A normal mantissa has one bit more. -/
theorem isDouble_normal {mantissa : BitVec 52} {biased : BitVec 11} (hzero : biased ≠ 0#11)
    (hfinite : biased ≠ -1#11) :
    IsDouble (1#1 ++ mantissa).toNat ((biased.toNat : ℤ) - 1075) := by
  have hlow : biased.toNat ≠ 0 := fun h => hzero (BitVec.eq_of_toNat_eq h)
  have hhigh : biased.toNat ≠ 2047 := fun h => hfinite (BitVec.eq_of_toNat_eq h)
  have hbiased := biased.isLt
  have hmantissa : (1#1 ++ mantissa).toNat = 2 ^ 52 + mantissa.toNat := by
    rw [BitVec.toNat_append, ← Nat.shiftLeft_add_eq_or_of_lt mantissa.isLt]
    rfl
  have hlt := mantissa.isLt
  refine ⟨⟨?_, ?_, ?_, .inr ?_⟩, ?_⟩
  · omega
  · omega
  · unfold minExponent
    omega
  · omega
  · unfold maxExponent
    omega

/-- A finite double that is not zero is a positive double with a sign. -/
theorem isDouble_of_unpack {x : Float} {sign : Sign} {m : ℕ} {e : ℤ} {h : 0 < m}
    (hx : x.toModel.unpack = .finite sign m e h) : IsDouble m e := by
  change unpack .binary64 x.toModel.toBits.toBitVec = _ at hx
  unfold unpack at hx
  dsimp only at hx
  split at hx
  · split at hx <;> cases hx
  · rename_i hfinite
    split at hx
    · rename_i hzero
      split at hx
      · cases hx
      · rename_i hmantissa
        rw [hzero] at hx
        cases hx
        exact isDouble_subnormal hmantissa
    · rename_i hzero
      cases hx
      exact isDouble_normal hzero hfinite

/-! ## Equal doubles -/

/-- Doubles are equal just when they compare so. -/
theorem beq_iff {x y : Float} :
    (x == y) = true ↔ x.toModel.unpack.compare y.toModel.unpack = some .eq := by
  show (x.toModel.unpack.compare y.toModel.unpack == some .eq) = true ↔ _
  rw [beq_iff_eq]

/-- What compares equal to a finite double is this double. -/
theorem eq_finite_of_compare {v : UnpackedFloat} {sign : Sign} {m : ℕ} {e : ℤ} {h : 0 < m}
    (hcompare : (UnpackedFloat.finite sign m e h).compare v = some .eq) :
    v = .finite sign m e h := by
  cases v with
  | notANumber => cases sign <;> cases hcompare
  | infinity other => cases sign <;> cases other <;> cases hcompare
  | zero other => cases sign <;> cases hcompare
  | finite other n d h' =>
    have hsame : sign = other ∧ e = d ∧ m = n := by
      cases sign <;> cases other
      · simpa [UnpackedFloat.compare, Ordering.then_eq_eq] using hcompare
      · cases hcompare
      · cases hcompare
      · simpa [UnpackedFloat.compare, Ordering.then_eq_eq] using hcompare
    obtain ⟨rfl, rfl, rfl⟩ := hsame
    rfl

/-- A double is known by its value. -/
theorem Denotes.unpack_eq {v w : Float} {p : ℚ} (hv : Denotes v p) (hw : Denotes w p) :
    w.toModel.unpack = v.toModel.unpack := by
  have hcompare := hv.compare_eq hw
  obtain ⟨m, e, h, hunpack, -⟩ := hv
  rw [compare_eq_iff_eq.2 rfl, hunpack] at hcompare
  rw [hunpack]
  exact eq_finite_of_compare hcompare

/-! ## Quotients -/

/-- The quotient of two equal doubles that are finite and not zero is one, whatever their sign. -/
theorem denotes_div_of_unpack {x y : Float} {sign : Sign} {m : ℕ} {e : ℤ} {h : 0 < m}
    (hx : x.toModel.unpack = .finite sign m e h) (hy : y.toModel.unpack = .finite sign m e h) :
    Denotes (x / y) 1 := by
  have hz := denotes_pack (isDouble_of_unpack hx)
  generalize hv : Float.ofModel (.pack (.finite .positive m e h)) = v at hz
  have hvunpack : v.toModel.unpack = .finite .positive m e h := by
    rw [← hv]
    exact unpack_pack (isDouble_of_unpack hx)
  have hquotient : x / y = v / v := by
    show Float.ofModel (.pack (.div .binary64 x.toModel.unpack y.toModel.unpack)) =
      .ofModel (.pack (.div .binary64 v.toModel.unpack v.toModel.unpack))
    rw [hx, hy, hvunpack]
    cases sign <;> rfl
  have hone := div_self hz.pos.ne'
  obtain ⟨r, hr, hlow, hhigh⟩ := denotes_div hz hz denotes_ofNat_one.representable
    denotes_ofNat_one.representable hone.ge hone.le
  rw [hquotient]
  rwa [le_antisymm hhigh hlow] at hr

/-- What is not a number stays so when it is packed. -/
theorem unpack_pack_notANumber :
    unpack .binary64 (pack .binary64 .notANumber) = .notANumber := by
  unfold pack packedNaN unpack
  simp only [unpackMantissa_packComponents, unpackExponent_packComponents]
  rw [if_pos trivial, if_neg (by decide)]

/-- A quotient that is not a number before packing is none afterwards. -/
theorem unpack_div_of_notANumber {x y : Float}
    (h : UnpackedFloat.div .binary64 x.toModel.unpack y.toModel.unpack = .notANumber) :
    (x / y).toModel.unpack = .notANumber := by
  show unpack .binary64 (pack .binary64 (.div .binary64 x.toModel.unpack y.toModel.unpack)) = _
  rw [h]
  exact unpack_pack_notANumber

/-- **The quotient of equal doubles.** It is the double one if they are finite and not zero, and no
number otherwise. -/
theorem unpack_div_of_beq {x y : Float} (h : (x == y) = true) :
    (x / y).toModel.unpack =
      if y.isFinite && !(y == 0) then (1 : Float).toModel.unpack else .notANumber := by
  have hfinite : y.isFinite = y.toModel.unpack.isFinite := rfl
  have hzero : (y == 0) = (y.toModel.unpack.compare (.zero .positive) == some .eq) := rfl
  rw [beq_iff] at h
  rw [hfinite, hzero]
  cases hx : x.toModel.unpack with
  | notANumber =>
    rw [hx] at h
    cases h
  | infinity sign =>
    rw [hx] at h
    cases hy : y.toModel.unpack with
    | infinity other =>
      apply unpack_div_of_notANumber
      rw [hx, hy]
      rfl
    | notANumber | zero | finite =>
      rw [hy] at h
      cases sign <;> cases h
  | zero sign =>
    rw [hx] at h
    cases hy : y.toModel.unpack with
    | zero other =>
      apply unpack_div_of_notANumber
      rw [hx, hy]
      rfl
    | notANumber =>
      rw [hy] at h
      cases h
    | infinity other | finite other =>
      rw [hy] at h
      cases other <;> cases h
  | finite sign m e hm =>
    rw [hx] at h
    have hy := eq_finite_of_compare h
    rw [hy, denotes_ofNat_one.unpack_eq (denotes_div_of_unpack hx hy)]
    cases sign <;> rfl

end PhraseTable.Binary64
