import PhraseTable.Proofs.Number.Nearest
import PhraseTable.Proofs.Number.Scan

/-!
# Which written doubles can be read

Every double is written as a word without blanks or bars (`isPlainWord_significant`). A finite one
other than zero is written as a decimal numeral with the value of its digits
(`isDecimal_significant`), so whether it can be read again is a question of its size: with twelve
digits, every double can be read but for those that are `Faint`.
-/

set_option autoImplicit false

namespace PhraseTable.Number

open Binary64 (decode)

/-- A finite double has 53 bits and an exponent in the range of doubles. -/
theorem decode_finite {x : Float} {negative : Bool} {mantissa : ℕ} {exponent : ℤ}
    (h : decode x = .finite negative mantissa exponent) :
    mantissa < 2 ^ 53 ∧ -1074 ≤ exponent ∧ exponent ≤ 971 := by
  have hplace : twoTo 52 = 4503599627370496 := rfl
  have hmin : Binary64.minExponent = -1074 := rfl
  unfold decode at h
  dsimp only at h
  have hfraction : x.toBits.toNat % twoTo 52 < 4503599627370496 := by
    rw [hplace]
    exact Nat.mod_lt _ (by decide)
  have hbiased : x.toBits.toNat / twoTo 52 % 2048 < 2048 := Nat.mod_lt _ (by decide)
  generalize x.toBits.toNat % twoTo 52 = fraction at h hfraction
  generalize x.toBits.toNat / twoTo 52 % 2048 = biased at h hbiased
  split at h
  · split at h <;> cases h
  · split at h
    · cases h
      omega
    · cases h
      omega

/-- The value of a finite size. -/
theorem ratio_fractionOf (mantissa : ℕ) (exponent : ℤ) :
    ((fractionOf mantissa exponent).1 / (fractionOf mantissa exponent).2 : ℚ) =
      mantissa * 2 ^ exponent := by
  have h := ratio_scaled two_pos mantissa 1 exponent
  rw [Nat.one_mul, Nat.cast_one, div_one] at h
  exact_mod_cast h

/-- A size other than zero is a positive fraction. -/
theorem fractionOf_pos {mantissa : ℕ} (h : 0 < mantissa) (exponent : ℤ) :
    0 < (fractionOf mantissa exponent).1 ∧ 0 < (fractionOf mantissa exponent).2 :=
  ⟨Nat.mul_pos h (Nat.pow_pos two_pos), Nat.pow_pos two_pos⟩

/-- A finite double other than zero is written as its sign and a decimal numeral. -/
theorem isDecimal_significant {digits : ℕ} (hdigits : 0 < digits) {x : Float} {negative : Bool}
    {mantissa : ℕ} {exponent : ℤ} (h : decode x = .finite negative mantissa exponent)
    (hmantissa : 0 < mantissa) :
    ∃ cs : List Char, (significant digits x).toList = (signText negative).toList ++ cs ∧
      IsDecimal cs (roundedValue digits (fractionOf mantissa exponent).1
        (fractionOf mantissa exponent).2) := by
  obtain ⟨hnum, hden⟩ := fractionOf_pos hmantissa exponent
  obtain ⟨⟨hlow, hhigh⟩, -⟩ := roundDigits_spec hdigits hnum hden
  refine ⟨_, ?_, isDecimal_layout hdigits hlow hhigh⟩
  unfold significant
  rw [h]
  dsimp only
  rw [if_neg hmantissa.ne', String.toList_append, String.toList_ofList]

/-- The texts of zeros, of infinities and of values that are not numbers. -/
def specialTexts : List String := ["nan", "-nan", "inf", "-inf", "0", "-0"]

/-- The double is a zero, an infinity or not a number. -/
def Special (x : Float) : Prop :=
  ∀ (negative : Bool) (mantissa : ℕ) (exponent : ℤ),
    decode x = .finite negative mantissa exponent → mantissa = 0

/-- Zeros, infinities and values that are not numbers have one of the special texts. -/
theorem significant_of_special {x : Float} (h : Special x) (digits : ℕ) :
    significant digits x ∈ specialTexts := by
  unfold significant
  cases hdecode : decode x with
  | nan => exact List.mem_cons_self
  | infinite negative =>
    dsimp only
    cases negative <;> decide
  | finite negative mantissa exponent =>
    obtain rfl := h negative mantissa exponent hdecode
    dsimp only
    rw [if_pos rfl]
    cases negative <;> decide

/-- A double that is not special is finite and not zero. -/
theorem special_or_finite (x : Float) :
    Special x ∨ ∃ (negative : Bool) (mantissa : ℕ) (exponent : ℤ),
      decode x = .finite negative mantissa exponent ∧ 0 < mantissa := by
  rw [or_iff_not_imp_right]
  intro h negative mantissa exponent hdecode
  by_contra hne
  exact h ⟨negative, mantissa, exponent, hdecode, Nat.pos_of_ne_zero hne⟩

/-- A character that neither ends a word nor separates fields. -/
def IsPlain (c : Char) : Prop := Text.isBlank c = false ∧ c ≠ '|'

instance : DecidablePred IsPlain := fun _ => inferInstanceAs (Decidable (_ ∧ _))

/-- A digit is a plain character. -/
theorem isPlain_of_isDigit {c : Char} (h : c.isDigit = true) : IsPlain c := by
  refine ⟨isBlank_of_isDigit h, ?_⟩
  rintro rfl
  cases h

/-- The text is a word without bars. -/
def IsPlainWord (s : String) : Prop := s.toList ≠ [] ∧ ∀ c ∈ s.toList, IsPlain c

/-- The special texts are words without bars. -/
theorem isPlainWord_of_special : ∀ text ∈ specialTexts, IsPlainWord text := by
  unfold IsPlainWord
  simp only [← List.all_iff_forall_prop]
  decide

/-- A double is written as a word without bars. -/
theorem isPlainWord_significant {digits : ℕ} (hdigits : 0 < digits) (x : Float) :
    IsPlainWord (significant digits x) := by
  obtain hspecial | ⟨negative, mantissa, exponent, hdecode, hmantissa⟩ := special_or_finite x
  · exact isPlainWord_of_special _ (significant_of_special hspecial digits)
  · obtain ⟨cs, htext, hdecimal⟩ := isDecimal_significant hdigits hdecode hmantissa
    obtain ⟨c, rest, hcons, -⟩ := hdecimal.exists_cons
    have hminus : ∀ c ∈ (signText negative).toList, IsPlain c := by
      cases negative <;> exact List.all_iff_forall_prop.1 (by decide)
    have hothers : ∀ c ∈ ['.', 'e', '+', '-'], IsPlain c :=
      List.all_iff_forall_prop.1 (by decide)
    unfold IsPlainWord
    rw [htext, List.forall_mem_append]
    refine ⟨?_, hminus, fun c hc => (hdecimal.mem_cases hc).elim isPlain_of_isDigit (hothers c)⟩
    rw [hcons]
    exact List.append_ne_nil_of_right_ne_nil _ (List.cons_ne_nil c rest)

/-! ## Faint doubles -/

end PhraseTable.Number

namespace PhraseTable.Binary64.Parts

/-- The size is not zero, but so small that its twelve digits stay below the normal doubles: it is
at most `2225073858505 / 10 ^ 320`. -/
def Faint : Parts → Prop
  | .nan => False
  | .infinite _ => False
  | .finite _ mantissa exponent =>
    0 < mantissa ∧ (Number.fractionOf mantissa exponent).1 * Number.tenTo 320 ≤
      2225073858505 * (Number.fractionOf mantissa exponent).2

instance : DecidablePred Faint
  | .nan => inferInstanceAs (Decidable False)
  | .infinite _ => inferInstanceAs (Decidable False)
  | .finite _ _ _ => inferInstanceAs (Decidable (_ ∧ _))

/-- A size is faint just when it is at most half a digit above the greatest faint numeral. -/
theorem faint_finite_iff {negative : Bool} {mantissa : ℕ} {exponent : ℤ} (h : 0 < mantissa) :
    (finite negative mantissa exponent).Faint ↔
      ((Number.fractionOf mantissa exponent).1 / (Number.fractionOf mantissa exponent).2 : ℚ) ≤
        (222507385850 + 1 / 2) * 10 ^ (-319 : ℤ) := by
  obtain ⟨-, hden⟩ := Number.fractionOf_pos h exponent
  unfold Faint
  dsimp only
  generalize (Number.fractionOf mantissa exponent).1 = num
  generalize (Number.fractionOf mantissa exponent).2 = den at hden ⊢
  have hdenpos : (0 : ℚ) < den := by exact_mod_cast hden
  have hten : ((Number.tenTo 320 : ℕ) : ℚ) = 10 ^ 319 * 10 := by
    rw [Number.tenTo_eq, Nat.cast_pow]
    exact pow_succ 10 319
  rw [and_iff_right h, ← @Nat.cast_le ℚ, Nat.cast_mul, Nat.cast_mul, hten, zpow_neg, zpow_ofNat,
    ← div_eq_mul_inv, div_le_div_iff₀ hdenpos (by positivity)]
  generalize (10 : ℚ) ^ 319 = unit
  constructor <;> (intro hle; push_cast at hle ⊢; linarith only [hle])

end PhraseTable.Binary64.Parts

namespace PhraseTable.Number

open Binary64 (decode)

/-- The double is not zero, but its twelve digits stay below the normal doubles. -/
def Faint (x : Float) : Prop := (decode x).Faint

instance : DecidablePred Faint :=
  fun x => inferInstanceAs (Decidable (decode x).Faint)

/-- No special double is faint. -/
theorem not_faint_of_special {x : Float} (h : Special x) : ¬Faint x := by
  unfold Faint
  cases hdecode : decode x with
  | nan => exact id
  | infinite negative => exact id
  | finite negative mantissa exponent =>
    obtain rfl := h negative mantissa exponent hdecode
    exact fun hfaint => absurd hfaint.1 (lt_irrefl 0)

/-! ## Reading -/

section Read

variable {x : Float} {negative : Bool} {mantissa : ℕ} {exponent : ℤ}

/-- A numeral is read to its double, unless this is out of range. -/
theorem read_eq {s : String} {numeral : Numeral} (h : Numeral.scan? s.toList = some numeral) :
    read s = if numeral.outOfRange then .error .outOfRange
      else .ok ⟨numeral.toFloat, numeral.negative⟩ := by
  unfold read
  rw [h]

/-- The special texts are read back. -/
theorem exists_read_of_special {text : String} (h : text ∈ specialTexts) :
    ∃ reading : Reading, read text = .ok reading := by
  have hread : ∀ text ∈ specialTexts, (read text).toOption.isSome = true := by decide +kernel
  have hsome := hread text h
  cases hread : read text with
  | error error =>
    rw [hread] at hsome
    cases hsome
  | ok reading => exact ⟨reading, rfl⟩

/-- The text of a finite double other than zero is scanned as a decimal numeral with the value of
its digits. -/
theorem exists_scan_significant {digits : ℕ} (hdigits : 0 < digits)
    (h : decode x = .finite negative mantissa exponent) (hmantissa : 0 < mantissa) :
    ∃ (mantissa' : ℕ) (exponent' : ℤ),
      Numeral.scan? (significant digits x).toList =
        some ⟨negative, .decimal mantissa' exponent'⟩ ∧
      (mantissa' * 10 ^ exponent' : ℚ) = roundedValue digits (fractionOf mantissa exponent).1
        (fractionOf mantissa exponent).2 := by
  obtain ⟨cs, htext, hdecimal⟩ := isDecimal_significant hdigits h hmantissa
  obtain ⟨mantissa', exponent', hscan, hvalue⟩ := hdecimal.scan? negative
  rw [htext]
  exact ⟨mantissa', exponent', hscan, hvalue⟩

/-- No double is so small that the fraction of its digits is cut off. -/
theorem pow_le_roundedValue (h : decode x = .finite negative mantissa exponent)
    (hmantissa : 0 < mantissa) :
    (10 : ℚ) ^ (-400 : ℤ) ≤
      roundedValue 12 (fractionOf mantissa exponent).1 (fractionOf mantissa exponent).2 := by
  obtain ⟨hnum, hden⟩ := fractionOf_pos hmantissa exponent
  obtain ⟨-, hleading⟩ := leadingPower_spec hnum hden
  have hrounded := pow_leadingPower_le_roundedValue (by decide : 0 < 12) hnum hden
  rw [ratio_fractionOf] at hleading
  obtain ⟨-, hexponent, -⟩ := decode_finite h
  have hleast : (10 : ℚ) ^ (-324 : ℤ) ≤ 2 ^ (-1074 : ℤ) := by
    have hscaled := (scaled_le_scaled_iff (by decide) (by decide)).2
      (by decide +kernel : 1 * 2 ^ 1074 ≤ 1 * 10 ^ 324)
    rw [Nat.cast_one, one_mul, one_mul] at hscaled
    exact_mod_cast hscaled
  have hsize : (10 : ℚ) ^ (-324 : ℤ) < 10 ^
      (leadingPower (fractionOf mantissa exponent).1 (fractionOf mantissa exponent).2 + 1) := by
    refine lt_of_le_of_lt ?_ hleading
    calc (10 : ℚ) ^ (-324 : ℤ) ≤ 1 * 2 ^ (-1074 : ℤ) := by rw [one_mul]; exact hleast
      _ ≤ mantissa * 2 ^ exponent := by
        gcongr
        · exact_mod_cast hmantissa
        · exact one_le_two
  have hpower := (zpow_lt_zpow_iff_right₀ (by norm_num)).1 hsize
  exact (zpow_le_zpow_right₀ (by norm_num) (by omega)).trans hrounded

/-- The twelve digits of a faint double are no whole number of any power of two, and stay below the
normal doubles. -/
theorem roundedValue_of_faint (hmantissa : 0 < mantissa)
    (h : (Binary64.Parts.finite negative mantissa exponent).Faint) :
    roundedValue 12 (fractionOf mantissa exponent).1 (fractionOf mantissa exponent).2 <
        (2 ^ 54 - 1) * 2 ^ (-1076 : ℤ) ∧
      ∀ (n : ℕ) (e : ℤ),
        roundedValue 12 (fractionOf mantissa exponent).1 (fractionOf mantissa exponent).2 ≠
          n * 2 ^ e := by
  obtain ⟨hnum, hden⟩ := fractionOf_pos hmantissa exponent
  rw [Binary64.Parts.faint_finite_iff hmantissa] at h
  generalize (fractionOf mantissa exponent).1 = num at hnum h ⊢
  generalize (fractionOf mantissa exponent).2 = den at hden h ⊢
  have hle : roundedValue 12 num den ≤ (222507385850 : ℕ) * 10 ^ (-319 : ℤ) :=
    roundedValue_le_of_even (by decide) hnum hden (by decide) (by decide) (by decide)
      (by exact_mod_cast h)
  have hbelow : ((222507385850 : ℕ) * 10 ^ (-319 : ℤ) : ℚ) < (2 ^ 54 - 1) * 2 ^ (-1076 : ℤ) := by
    have hscaled := (scaled_lt_scaled_iff (by decide) (by decide)).2
      (by decide +kernel : 222507385850 * 2 ^ 1076 < 18014398509481983 * 10 ^ 319)
    have hmantissa53 : (2 ^ 54 - 1 : ℚ) = (18014398509481983 : ℕ) := by norm_num
    rw [hmantissa53]
    exact_mod_cast hscaled
  refine ⟨hle.trans_lt hbelow, ?_⟩
  obtain ⟨-, num', den', -, -, hge, hle', hvalue⟩ :=
    roundDigits_spec (by decide : 0 < 12) hnum hden
  have hfirst := pow_leadingPower_le_roundedValue (by decide : 0 < 12) hnum hden
  generalize leadingPower num den = power at hfirst hvalue
  generalize Binary64.roundQuotient num' den' = rounded at hge hle' hvalue
  have hpower : power < -307 := by
    rw [← zpow_lt_zpow_iff_right₀ (by norm_num : (1 : ℚ) < 10)]
    calc (10 : ℚ) ^ power ≤ (222507385850 : ℕ) * 10 ^ (-319 : ℤ) := hfirst.trans hle
      _ < 10 ^ (12 : ℤ) * 10 ^ (-319 : ℤ) := by gcongr; norm_num
      _ = 10 ^ (-307 : ℤ) := by rw [← zpow_add₀ (by norm_num)]; rfl
  obtain ⟨places, hplaces⟩ : ∃ places : ℕ, power - ((12 : ℕ) - 1) = -(places : ℤ) :=
    ⟨(11 - power).toNat, by omega⟩
  intro n e
  rw [hvalue, hplaces]
  apply decimal_ne_dyadic (lt_of_lt_of_le (by decide) hge)
  calc rounded ≤ 10 ^ 12 := hle'
    _ < 5 ^ 18 := by norm_num
    _ ≤ 5 ^ places := Nat.pow_le_pow_right (by decide) (by omega)

/-- The twelve digits of a faint double are refused as out of range. -/
theorem read_significant_of_faint (h : Faint x) :
    read (significant 12 x) = .error .outOfRange := by
  obtain hspecial | ⟨negative, mantissa, exponent, hdecode, hmantissa⟩ := special_or_finite x
  · exact absurd h (not_faint_of_special hspecial)
  · obtain ⟨mantissa', exponent', hscan, hvalue⟩ :=
      exists_scan_significant (by decide : 0 < 12) hdecode hmantissa
    unfold Faint at h
    rw [hdecode] at h
    obtain ⟨hsmall, hdyadic⟩ := roundedValue_of_faint hmantissa h
    have hlow := pow_le_roundedValue hdecode hmantissa
    rw [← hvalue] at hsmall hdyadic hlow
    rw [read_eq hscan, Numeral.outOfRange_eq_true hlow hsmall hdyadic]
    rfl

/-- The twelve digits of a finite double that is neither zero nor faint are as large as the normal
doubles, and do not round to infinity. -/
theorem roundedValue_of_not_faint (hdecode : decode x = .finite negative mantissa exponent)
    (hmantissa : 0 < mantissa) (h : ¬Faint x) :
    (2 : ℚ) ^ (-1022 : ℤ) ≤
        roundedValue 12 (fractionOf mantissa exponent).1 (fractionOf mantissa exponent).2 ∧
      roundedValue 12 (fractionOf mantissa exponent).1 (fractionOf mantissa exponent).2 <
        (2 ^ 54 - 1) * 2 ^ (970 : ℤ) := by
  obtain ⟨hnum, hden⟩ := fractionOf_pos hmantissa exponent
  obtain ⟨hlt, -, hexponent⟩ := decode_finite hdecode
  unfold Faint at h
  rw [hdecode, Binary64.Parts.faint_finite_iff hmantissa, not_le] at h
  constructor
  · have hnormal : (2 : ℚ) ^ (-1022 : ℤ) ≤ (222507385851 : ℕ) * 10 ^ (-319 : ℤ) := by
      have hscaled := (scaled_le_scaled_iff (by decide) (by decide)).2
        (by decide +kernel : 1 * 10 ^ 319 ≤ 222507385851 * 2 ^ 1022)
      rw [Nat.cast_one, one_mul] at hscaled
      exact_mod_cast hscaled
    refine hnormal.trans
      (le_roundedValue (by decide) hnum hden (by decide) (by decide) (lt_of_eq_of_lt ?_ h))
    congr 1
    norm_num
  · have hlargest : ((fractionOf mantissa exponent).1 / (fractionOf mantissa exponent).2 : ℚ) ≤
        ((179769313486 : ℕ) + 1 / 2) * 10 ^ (297 : ℤ) := by
      have hmantissa53 : (mantissa : ℚ) ≤ (9007199254740991 : ℕ) := Nat.cast_le.2 (by omega)
      have hnat : ((2 * 9007199254740991 * 2 ^ 971 : ℕ) : ℚ) ≤ (359538626973 * 10 ^ 297 : ℕ) :=
        Nat.cast_le.2 (by decide +kernel)
      rw [Nat.cast_mul, Nat.cast_mul, Nat.cast_mul, Nat.cast_pow, Nat.cast_pow] at hnat
      rw [ratio_fractionOf, zpow_ofNat]
      calc (mantissa * 2 ^ exponent : ℚ) ≤ (9007199254740991 : ℕ) * 2 ^ (971 : ℤ) := by
            gcongr
            exact one_le_two
        _ ≤ ((179769313486 : ℕ) + 1 / 2) * 10 ^ 297 := by
          rw [zpow_ofNat]
          push_cast at hnat ⊢
          generalize (2 : ℚ) ^ 971 = binary at hnat ⊢
          generalize (10 : ℚ) ^ 297 = decimal at hnat ⊢
          linarith only [hnat]
    have hfinite : ((179769313486 : ℕ) * 10 ^ (297 : ℤ) : ℚ) < (2 ^ 54 - 1) * 2 ^ (970 : ℤ) := by
      have hnat : ((179769313486 * 10 ^ 297 : ℕ) : ℚ) < (18014398509481983 * 2 ^ 970 : ℕ) :=
        Nat.cast_lt.2 (by decide +kernel)
      have hmantissa53 : (2 ^ 54 - 1 : ℚ) = (18014398509481983 : ℕ) := by norm_num
      rw [zpow_ofNat, zpow_ofNat, hmantissa53]
      rwa [Nat.cast_mul, Nat.cast_mul, Nat.cast_pow, Nat.cast_pow] at hnat
    exact (roundedValue_le_of_even (by decide) hnum hden (by decide) (by decide) (by decide)
      hlargest).trans_lt hfinite

/-- The twelve digits of any other double are read back. -/
theorem exists_read_significant (h : ¬Faint x) :
    ∃ reading : Reading, read (significant 12 x) = .ok reading := by
  obtain hspecial | ⟨negative, mantissa, exponent, hdecode, hmantissa⟩ := special_or_finite x
  · exact exists_read_of_special (significant_of_special hspecial 12)
  · obtain ⟨mantissa', exponent', hscan, hvalue⟩ :=
      exists_scan_significant (by decide : 0 < 12) hdecode hmantissa
    obtain ⟨hnormal, hfinite⟩ := roundedValue_of_not_faint hdecode hmantissa h
    rw [← hvalue] at hnormal hfinite
    rw [read_eq hscan, Numeral.outOfRange_eq_false hnormal hfinite]
    exact ⟨_, rfl⟩

end Read

end PhraseTable.Number
