import Mathlib.Data.Bool.AllAny
import PhraseTable.Proofs.Number.Decimal
import PhraseTable.Proofs.Number.Integer

/-!
# Reading what was written

The text of significant digits is a row of digits, a point with more digits if any are left, and an
exponent if the number is very large or very small. It is a decimal numeral with the value of the
digits (`isDecimal_layout`), and a decimal numeral is scanned as a whole, to a mantissa and an
exponent with the same value (`IsDecimal.scan?`).
-/

set_option autoImplicit false

namespace PhraseTable.Number

/-! ## Rows of digits -/

/-- Zeros behind the digits are powers of ten. -/
theorem natOfDigits_append_zeros (cs : List Char) (n : ℕ) :
    natOfDigits (cs ++ List.replicate n '0') = natOfDigits cs * 10 ^ n := by
  show Nat.ofDigitChars 10 (cs ++ List.replicate n '0') 0 = _
  rw [Nat.ofDigitChars_append, Nat.ofDigitChars_replicate_zero, Nat.mul_comm]
  rfl

/-- Zeros in front of the digits have no value. -/
theorem natOfDigits_zeros_append (n : ℕ) (cs : List Char) :
    natOfDigits (List.replicate n '0' ++ cs) = natOfDigits cs := by
  show Nat.ofDigitChars 10 (List.replicate n '0' ++ cs) 0 = _
  rw [Nat.ofDigitChars_append, Nat.ofDigitChars_replicate_zero, Nat.mul_zero]
  rfl

/-- Padded digits are digits. -/
theorem isDigit_of_mem_paddedDigits {length n : ℕ} {c : Char} (h : c ∈ paddedDigits length n) :
    c.isDigit = true := by
  rcases List.mem_append.1 h with hzero | hdigit
  · rw [List.eq_of_mem_replicate hzero]
    rfl
  · exact isDigit_of_mem_toDigits hdigit

/-- Padded digits have the value of the natural. -/
theorem natOfDigits_paddedDigits (length n : ℕ) : natOfDigits (paddedDigits length n) = n := by
  unfold paddedDigits
  rw [natOfDigits_zeros_append, natOfDigits_toDigits]

/-- A number that fills its places has no zeros in front. -/
theorem length_paddedDigits {length n : ℕ} (hlength : 0 < length) (h : n < 10 ^ length) :
    (paddedDigits length n).length = length := by
  have hle := (Nat.length_toDigits_le_iff (by decide) hlength).2 h
  unfold paddedDigits
  rw [List.length_append, List.length_replicate]
  omega

/-- Nothing but zeros is dropped at the end. -/
theorem exists_dropTrailingZeros (cs : List Char) :
    ∃ n : ℕ, cs = dropTrailingZeros cs ++ List.replicate n '0' := by
  refine ⟨(cs.reverse.takeWhile (· == '0')).length, ?_⟩
  have hzeros : cs.reverse.takeWhile (· == '0') =
      List.replicate (cs.reverse.takeWhile (· == '0')).length '0' := by
    refine List.eq_replicate_of_mem fun c hc => ?_
    have hzero := List.mem_takeWhile_imp (p := (· == '0')) hc
    exact beq_iff_eq.1 hzero
  have hsplit := List.takeWhile_append_dropWhile (p := (· == '0')) (l := cs.reverse)
  unfold dropTrailingZeros
  rw [← List.reverse_inj, List.reverse_append, List.reverse_reverse, List.reverse_replicate,
    ← hzeros, hsplit]

/-- Dropping zeros adds no characters. -/
theorem mem_of_mem_dropTrailingZeros {cs : List Char} {c : Char} (h : c ∈ dropTrailingZeros cs) :
    c ∈ cs := by
  obtain ⟨n, hn⟩ := exists_dropTrailingZeros cs
  rw [hn]
  exact List.mem_append_left _ h

/-! ## Scanning a decimal numeral -/

/-- Digits are read up to the first character that is none. -/
theorem takeWhile_isDigit_append {digits tail : List Char}
    (hdigits : ∀ c ∈ digits, c.isDigit = true) (htail : ∀ c ∈ tail.head?, c.isDigit = false) :
    (digits ++ tail).takeWhile Char.isDigit = digits ∧
      (digits ++ tail).dropWhile Char.isDigit = tail := by
  rw [List.takeWhile_append_of_pos hdigits, List.dropWhile_append_of_pos hdigits]
  cases tail with
  | nil => exact ⟨List.append_nil _, rfl⟩
  | cons c cs =>
    have hc := htail c rfl
    rw [List.takeWhile_cons, List.dropWhile_cons, hc]
    exact ⟨List.append_nil _, rfl⟩

/-- What follows the digits of a numeral neither is a digit nor continues them. -/
def EndsDigits (tail : List Char) : Prop :=
  ∀ c ∈ tail.head?, c.isDigit = false ∧ c ≠ '.'

/-- A numeral is split into its digits in front of the point, those behind it, and the rest. -/
theorem splitPoint_parts {whole part tail : List Char} (hwhole : ∀ c ∈ whole, c.isDigit = true)
    (hpart : ∀ c ∈ part, c.isDigit = true) (htail : EndsDigits tail) :
    splitPoint Char.isDigit (whole ++ afterPoint part ++ tail) = (whole, part, tail) := by
  have hends : ∀ c ∈ tail.head?, c.isDigit = false := fun c hc => (htail c hc).1
  unfold splitPoint
  cases part with
  | nil =>
    obtain ⟨htake, hdrop⟩ := takeWhile_isDigit_append hwhole hends
    rw [show whole ++ afterPoint [] ++ tail = whole ++ tail by simp [afterPoint], htake, hdrop]
    split
    · exact absurd rfl (htail '.' rfl).2
    · rfl
  | cons c part =>
    have hpoint : ∀ d ∈ ('.' :: (c :: part) ++ tail).head?, d.isDigit = false := by
      rintro _ ⟨⟩
      rfl
    obtain ⟨htake, hdrop⟩ := takeWhile_isDigit_append hwhole hpoint
    obtain ⟨htake', hdrop'⟩ := takeWhile_isDigit_append hpart hends
    have htext : whole ++ afterPoint (c :: part) ++ tail =
        whole ++ ('.' :: (c :: part) ++ tail) := by
      simp [afterPoint]
    rw [htext, htake, hdrop]
    show (whole, (c :: part ++ tail).takeWhile Char.isDigit,
      (c :: part ++ tail).dropWhile Char.isDigit) = _
    rw [htake', hdrop']

/-- A numeral is read as its digits, with an exponent that counts those behind the point. -/
theorem scanDecimal?_parts {whole part tail : List Char} (hne : whole ≠ [])
    (hwhole : ∀ c ∈ whole, c.isDigit = true) (hpart : ∀ c ∈ part, c.isDigit = true)
    (htail : EndsDigits tail) :
    scanDecimal? (whole ++ afterPoint part ++ tail) =
      some (.decimal (natOfDigits (whole ++ part))
        (exponentAfter 'e' tail - (part.length : ℤ))) := by
  unfold scanDecimal?
  rw [splitPoint_parts hwhole hpart htail]
  dsimp only
  rw [if_neg]
  simp [hne]

/-- A written exponent is read back. -/
theorem exponentAfter_powerChars (power : ℤ) :
    exponentAfter 'e' ('e' :: powerChars power) = power := by
  have hdigits : ∀ c ∈ paddedDigits 2 power.natAbs, c.isDigit = true :=
    fun c hc => isDigit_of_mem_paddedDigits hc
  have htake := (takeWhile_isDigit hdigits).1
  have hvalue := natOfDigits_paddedDigits 2 power.natAbs
  unfold powerChars
  by_cases hneg : power < 0
  · rw [if_pos hneg]
    show -((natOfDigits ((paddedDigits 2 power.natAbs).takeWhile Char.isDigit) : ℕ) : ℤ) = power
    rw [htake, hvalue]
    omega
  · rw [if_neg hneg]
    show ((natOfDigits ((paddedDigits 2 power.natAbs).takeWhile Char.isDigit) : ℕ) : ℤ) = power
    rw [htake, hvalue]
    omega

/-! ## Significant digits -/

/-- The text is a decimal numeral with this value, without a sign. -/
def IsDecimal (cs : List Char) (x : ℚ) : Prop :=
  ∃ whole part tail : List Char, cs = whole ++ afterPoint part ++ tail ∧ whole ≠ [] ∧
    (∀ c ∈ whole, c.isDigit = true) ∧ (∀ c ∈ part, c.isDigit = true) ∧
    (tail = [] ∨ ∃ power : ℤ, tail = 'e' :: powerChars power) ∧
    natOfDigits (whole ++ part) * 10 ^ (exponentAfter 'e' tail - (part.length : ℤ)) = x

/-- The zeros that are dropped behind a place count in the exponent. -/
theorem natOfDigits_take_drop {cs : List Char} {k : ℕ} (hk : k ≤ cs.length) :
    (natOfDigits (cs.take k ++ dropTrailingZeros (cs.drop k)) : ℚ) *
        10 ^ ((cs.length : ℤ) - k - (dropTrailingZeros (cs.drop k)).length) = natOfDigits cs := by
  obtain ⟨n, hn⟩ := exists_dropTrailingZeros (cs.drop k)
  have hlength := congrArg List.length hn
  rw [List.length_drop, List.length_append, List.length_replicate] at hlength
  have hzeros : (cs.length : ℤ) - k - (dropTrailingZeros (cs.drop k)).length = n := by omega
  have hall : cs.take k ++ dropTrailingZeros (cs.drop k) ++ List.replicate n '0' = cs := by
    rw [List.append_assoc, ← hn, List.take_append_drop]
  have hvalue := natOfDigits_append_zeros (cs.take k ++ dropTrailingZeros (cs.drop k)) n
  rw [hall] at hvalue
  rw [hzeros, zpow_natCast]
  exact_mod_cast hvalue.symm

/-- A power of ten is split off. -/
theorem mul_zpow_ten {x y : ℚ} {a b c : ℤ} (h : x * 10 ^ b = y) (ha : a = b + c) :
    x * 10 ^ a = y * 10 ^ c := by
  rw [ha, zpow_add₀ (by norm_num), ← mul_assoc, h]

/-- Digits with a value other than zero are not all dropped. -/
theorem dropTrailingZeros_ne_nil {cs : List Char} (h : natOfDigits cs ≠ 0) :
    dropTrailingZeros cs ≠ [] := by
  intro hnil
  obtain ⟨n, hn⟩ := exists_dropTrailingZeros cs
  rw [hnil] at hn
  rw [hn, natOfDigits_append_zeros, show natOfDigits [] = 0 from rfl, Nat.zero_mul] at h
  exact h rfl

section Layout

variable {digits value : ℕ} {power : ℤ}

/-- The layout of digits that fill their places is a decimal numeral with their value. -/
theorem isDecimal_layout (hdigits : 0 < digits) (hlow : 10 ^ (digits - 1) ≤ value)
    (hhigh : value < 10 ^ digits) :
    IsDecimal (layout digits value power) (digitsValue digits value power) := by
  have hlength := length_paddedDigits hdigits hhigh
  have hvalue := natOfDigits_paddedDigits digits value
  have hall : ∀ c ∈ paddedDigits digits value, c.isDigit = true :=
    fun c hc => isDigit_of_mem_paddedDigits hc
  unfold layout digitsValue
  dsimp only
  generalize paddedDigits digits value = cs at hlength hvalue hall ⊢
  have htake : ∀ k : ℕ, ∀ c ∈ cs.take k, c.isDigit = true :=
    fun k c hc => hall c (List.mem_of_mem_take hc)
  have hdrop : ∀ k : ℕ, ∀ c ∈ dropTrailingZeros (cs.drop k), c.isDigit = true :=
    fun k c hc => hall c (List.mem_of_mem_drop (mem_of_mem_dropTrailingZeros hc))
  have hne : ∀ k : ℕ, 0 < k → cs.take k ≠ [] := by
    intro k hk hnil
    have := congrArg List.length hnil
    rw [List.length_take, List.length_nil] at this
    omega
  have hsplit : ∀ k : ℕ, k ≤ digits →
      (natOfDigits (cs.take k ++ dropTrailingZeros (cs.drop k)) : ℚ) *
        10 ^ ((digits : ℤ) - k - (dropTrailingZeros (cs.drop k)).length) = value := by
    intro k hk
    rw [← hvalue, ← hlength]
    exact natOfDigits_take_drop (hk.trans hlength.ge)
  split
  · refine ⟨cs.take 1, dropTrailingZeros (cs.drop 1), 'e' :: powerChars power, rfl, hne 1 one_pos,
      htake 1, hdrop 1, .inr ⟨power, rfl⟩, mul_zpow_ten (hsplit 1 hdigits) ?_⟩
    rw [exponentAfter_powerChars]
    push_cast
    ring
  · split
    · rename_i hlarge hneg
      have hpart : List.replicate (-power - 1).toNat '0' ++ dropTrailingZeros cs ≠ [] := by
        have hpos : natOfDigits cs ≠ 0 := by
          rw [hvalue]
          exact (lt_of_lt_of_le (by positivity) hlow).ne'
        simp [dropTrailingZeros_ne_nil hpos]
      refine ⟨['0'], List.replicate (-power - 1).toNat '0' ++ dropTrailingZeros cs, [], ?_,
        List.cons_ne_nil _ _, by simp, ?_, .inl rfl, ?_⟩
      · rw [afterPoint, if_neg (by simpa using hpart), List.append_nil]
        rfl
      · intro c hc
        rcases List.mem_append.1 hc with hzero | hc
        · rw [List.eq_of_mem_replicate hzero]
          rfl
        · exact hall c (mem_of_mem_dropTrailingZeros hc)
      · have hvalue' := hsplit 0 (Nat.zero_le _)
        rw [List.take_zero, List.nil_append, List.drop_zero] at hvalue'
        have hzeros : ['0'] ++ (List.replicate (-power - 1).toNat '0' ++ dropTrailingZeros cs) =
            List.replicate ((-power - 1).toNat + 1) '0' ++ dropTrailingZeros cs := by
          rw [List.replicate_succ]
          rfl
        rw [hzeros, natOfDigits_zeros_append]
        refine mul_zpow_ten hvalue' ?_
        rw [List.length_append, List.length_replicate, show exponentAfter 'e' [] = 0 from rfl]
        push_cast
        omega
    · rename_i hsmall hneg
      rw [not_or] at hsmall
      refine ⟨cs.take (power.toNat + 1), dropTrailingZeros (cs.drop (power.toNat + 1)), [],
        (List.append_nil _).symm, hne _ (Nat.succ_pos _), htake _, hdrop _, .inl rfl,
        mul_zpow_ten (hsplit _ (by omega)) ?_⟩
      rw [show exponentAfter 'e' [] = 0 from rfl]
      push_cast
      omega

end Layout

/-! ## The whole text -/

/-- A digit is its own lower case. -/
theorem toLower_of_isDigit {c : Char} (h : c.isDigit = true) : c.toLower = c := by
  simp only [Char.isDigit, Bool.and_eq_true, decide_eq_true_eq] at h
  refine dif_neg ?_
  rintro ⟨hupper, -⟩
  have := UInt32.le_trans hupper h.2
  revert this
  decide

/-- A word does not stand at the front of a text without one of its letters. -/
theorem beginsWith_eq_false {word cs : List Char} {letter : Char} (hletter : letter ∈ word)
    (h : ∀ c ∈ cs, c.toLower ≠ letter) : beginsWith word cs = false := by
  unfold beginsWith
  rw [beq_eq_false_iff_ne]
  intro hword
  rw [← hword] at hletter
  obtain ⟨c, hc, heq⟩ := List.mem_map.1 hletter
  exact h c (List.mem_of_mem_take hc) heq

namespace IsDecimal

variable {cs : List Char} {x : ℚ}

/-- A decimal numeral begins with a digit. -/
theorem exists_cons (h : IsDecimal cs x) : ∃ (c : Char) (rest : List Char),
    cs = c :: rest ∧ c.isDigit = true := by
  obtain ⟨whole, part, tail, rfl, hne, hwhole, -⟩ := h
  obtain ⟨c, rest, rfl⟩ := List.exists_cons_of_ne_nil hne
  exact ⟨c, _, rfl, hwhole c List.mem_cons_self⟩

/-- A decimal numeral has no characters but digits, the point, the exponent mark and signs. -/
theorem mem_cases (h : IsDecimal cs x) {c : Char} (hc : c ∈ cs) :
    c.isDigit = true ∨ c ∈ ['.', 'e', '+', '-'] := by
  obtain ⟨whole, part, tail, rfl, -, hwhole, hpart, htail, -⟩ := h
  rcases List.mem_append.1 hc with hc | hc
  · rcases List.mem_append.1 hc with hc | hc
    · exact .inl (hwhole c hc)
    · unfold afterPoint at hc
      split at hc
      · cases hc
      · rcases List.mem_cons.1 hc with rfl | hc
        · exact .inr (by decide)
        · exact .inl (hpart c hc)
  · rcases htail with rfl | ⟨power, rfl⟩
    · cases hc
    · rcases List.mem_cons.1 hc with rfl | hc
      · exact .inr (by decide)
      · unfold powerChars at hc
        rcases List.mem_cons.1 hc with rfl | hc
        · right
          split <;> decide
        · exact .inl (isDigit_of_mem_paddedDigits hc)

/-- A decimal numeral is scanned as such, also behind a minus sign. -/
theorem scan? (h : IsDecimal cs x) (negative : Bool) :
    ∃ (mantissa : ℕ) (exponent : ℤ),
      Numeral.scan? ((signText negative).toList ++ cs) =
        some ⟨negative, .decimal mantissa exponent⟩ ∧ mantissa * 10 ^ exponent = x := by
  obtain ⟨first, rest, hcons, hfirst⟩ := h.exists_cons
  have hothers : ∀ c ∈ ['.', 'e', '+', '-'], c.toLower ≠ 'n' ∧ c.toLower ≠ 'x' :=
    List.all_iff_forall_prop.1 (by decide)
  have hletters : ∀ c ∈ cs, c.toLower ≠ 'n' ∧ c.toLower ≠ 'x' := by
    intro c hc
    rcases h.mem_cases hc with hdigit | hother
    · rw [toLower_of_isDigit hdigit]
      constructor <;> (rintro rfl; cases hdigit)
    · exact hothers c hother
  have hsign : takeSign (((signText negative).toList ++ cs).dropWhile Text.isBlank) =
      (negative, cs) := by
    rw [hcons]
    cases negative with
    | true => rfl
    | false =>
      show takeSign ((first :: rest).dropWhile Text.isBlank) = _
      rw [List.dropWhile_cons_of_neg (by simp [isBlank_of_isDigit hfirst]),
        takeSign_of_isDigit hfirst]
  obtain ⟨whole, part, tail, rfl, hne, hwhole, hpart, htail, hvalue⟩ := h
  have hends : EndsDigits tail := by
    rcases htail with rfl | ⟨power, rfl⟩
    · nofun
    · rintro _ ⟨⟩
      decide
  refine ⟨_, _, ?_, hvalue⟩
  unfold Numeral.scan?
  rw [hsign]
  dsimp only
  unfold scanMagnitude?
  rw [beginsWith_eq_false (by decide : 'n' ∈ "inf".toList) fun c hc => (hletters c hc).1,
    beginsWith_eq_false (by decide : 'n' ∈ "nan".toList) fun c hc => (hletters c hc).1,
    beginsWith_eq_false (by decide : 'x' ∈ "0x".toList) fun c hc => (hletters c hc).2,
    scanDecimal?_parts hne hwhole hpart hends]
  rfl

end IsDecimal

end PhraseTable.Number
