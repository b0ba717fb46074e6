import Mathlib.Data.List.TakeWhile
import PhraseTable.Number.Integer

/-!
# How integers are written

The texts that are read to their end are those of `IntegerText` in the 32-bit range
(`readInt?_eq_some_nil_iff`). The decimal digits of a natural number are such a text, since they
have its value (`natOfDigits_toDigits`). Without a minus sign no negative number is read
(`nonneg_of_readInt?`).
-/

set_option autoImplicit false

namespace PhraseTable.Number

/-- A wrapped integer does not exceed the 32-bit range. -/
theorem wrapped_le (n : Int) : wrapped n ≤ 2147483647 := by
  have hlt : n.bmod 4294967296 < (4294967296 + 1) / 2 := Int.bmod_lt (by omega)
  unfold wrapped
  omega

/-- Every integer that is read lies in the 32-bit range. -/
theorem inRange_of_readInt? {cs rest : List Char} {n : Int} (h : readInt? cs = some (n, rest)) :
    InRange n := by
  unfold readInt? at h
  simp only [Option.ite_none_left_eq_some, Option.ite_none_right_eq_some, Option.some.injEq,
    Prod.mk.injEq] at h
  obtain ⟨-, hrange, hvalue, -⟩ := h
  exact hvalue ▸ hrange

/-- A natural is printed in its decimal digits. -/
theorem toList_toString (n : Nat) : (toString (n : Int)).toList = Nat.toDigits 10 n := by
  show n.repr.toList = _
  exact Nat.toList_repr

/-- Decimal digits are digits. -/
theorem isDigit_of_mem_toDigits {n : Nat} {c : Char} (h : c ∈ Nat.toDigits 10 n) :
    c.isDigit = true :=
  Nat.isDigit_of_mem_toDigits (by omega) (by omega) h

/-- An integer is printed in digits and maybe a dash. -/
theorem mem_toString {n : Int} {c : Char} (h : c ∈ (toString n).toList) :
    c.isDigit = true ∨ c = '-' := by
  cases n with
  | ofNat n =>
    rw [Int.ofNat_eq_natCast, toList_toString] at h
    exact Or.inl (isDigit_of_mem_toDigits h)
  | negSucc n =>
    have hneg : (toString (Int.negSucc n)).toList = '-' :: Nat.toDigits 10 (n + 1) := by
      show ("-" ++ (n + 1).repr).toList = _
      rw [String.toList_append, Nat.toList_repr]
      rfl
    rw [hneg, List.mem_cons] at h
    exact h.symm.imp_left isDigit_of_mem_toDigits

/-- A digit is no white space. -/
theorem isBlank_of_isDigit {c : Char} (h : c.isDigit = true) : Text.isBlank c = false := by
  rw [← Bool.not_eq_true]
  intro hblank
  simp only [Text.isBlank, Bool.or_eq_true, beq_iff_eq] at hblank
  rcases hblank with ((((rfl | rfl) | rfl) | rfl) | rfl) | rfl <;> simp at h

/-- A text that begins with a digit has no sign. -/
theorem takeSign_of_isDigit {c : Char} (h : c.isDigit = true) (cs : List Char) :
    takeSign (c :: cs) = (false, c :: cs) := by
  unfold takeSign
  split
  · rename_i heq
    cases heq
    simp at h
  · rename_i heq
    cases heq
    simp at h
  · rfl

/-- The digits of a natural have its value. -/
theorem natOfDigits_toDigits (n : Nat) : natOfDigits (Nat.toDigits 10 n) = n :=
  Nat.ofDigitChars_toDigits (by omega) (by omega)

/-! ## Written integers -/

/-- How an integer is written: white space, an optional sign and decimal digits. -/
inductive IntegerText : List Char → Int → Prop where
  | digits {digits : List Char} (hne : digits ≠ []) (hdigits : ∀ c ∈ digits, c.isDigit = true) :
      IntegerText digits (natOfDigits digits)
  | plus {digits : List Char} (hne : digits ≠ []) (hdigits : ∀ c ∈ digits, c.isDigit = true) :
      IntegerText ('+' :: digits) (natOfDigits digits)
  | minus {digits : List Char} (hne : digits ≠ []) (hdigits : ∀ c ∈ digits, c.isDigit = true) :
      IntegerText ('-' :: digits) (-(natOfDigits digits : Int))
  | blank {c : Char} {cs : List Char} {n : Int} (hc : Text.isBlank c = true)
      (hcs : IntegerText cs n) : IntegerText (c :: cs) n

/-- The integer that digits of this value stand for behind a sign. -/
def signed (sign : List Char) (value : Nat) : Int :=
  if sign = ['-'] then -(value : Int) else value

/-- The parts of an integer: white space, a sign that may be missing, and digits. -/
theorem integerText_iff {cs : List Char} {n : Int} : IntegerText cs n ↔
    ∃ blanks sign digits : List Char, cs = blanks ++ (sign ++ digits) ∧
      (∀ c ∈ blanks, Text.isBlank c = true) ∧ sign ∈ [[], ['+'], ['-']] ∧ digits ≠ [] ∧
      (∀ c ∈ digits, c.isDigit = true) ∧ n = signed sign (natOfDigits digits) := by
  constructor
  · intro h
    induction h with
    | @digits digits hne hdigits => exact ⟨[], [], digits, rfl, nofun, by simp, hne, hdigits, rfl⟩
    | @plus digits hne hdigits => exact ⟨[], ['+'], digits, rfl, nofun, by simp, hne, hdigits, rfl⟩
    | @minus digits hne hdigits => exact ⟨[], ['-'], digits, rfl, nofun, by simp, hne, hdigits, rfl⟩
    | @blank c cs n hc _ ih =>
      obtain ⟨blanks, sign, digits, rfl, hblanks, hrest⟩ := ih
      exact ⟨c :: blanks, sign, digits, rfl, List.forall_mem_cons.2 ⟨hc, hblanks⟩, hrest⟩
  · rintro ⟨blanks, sign, digits, rfl, hblanks, hsign, hne, hdigits, rfl⟩
    induction blanks with
    | nil =>
      simp only [List.mem_cons, List.not_mem_nil, or_false] at hsign
      rcases hsign with rfl | rfl | rfl
      · exact .digits hne hdigits
      · exact .plus hne hdigits
      · exact .minus hne hdigits
    | cons c blanks ih =>
      rw [List.forall_mem_cons] at hblanks
      exact .blank hblanks.1 (ih hblanks.2)

/-- The text behind white space and a sign is read as digits. -/
theorem readInt?_eq_some_iff_of_takeSign {cs body rest : List Char} {negative : Bool} {n : Int}
    (h : takeSign (cs.dropWhile Text.isBlank) = (negative, body)) :
    readInt? cs = some (n, rest) ↔
      body.takeWhile Char.isDigit ≠ [] ∧ body.dropWhile Char.isDigit = rest ∧ InRange n ∧
        n = if negative then -(natOfDigits (body.takeWhile Char.isDigit) : Int)
          else natOfDigits (body.takeWhile Char.isDigit) := by
  unfold readInt?
  rw [h]
  simp only [Option.ite_none_left_eq_some, Option.ite_none_right_eq_some, Option.some.injEq,
    Prod.mk.injEq, List.isEmpty_iff]
  constructor
  · rintro ⟨hne, hrange, rfl, hrest⟩
    exact ⟨hne, hrest, hrange, rfl⟩
  · rintro ⟨hne, hrest, hrange, rfl⟩
    exact ⟨hne, hrange, rfl, hrest⟩

/-- White space in front of an integer is passed over. -/
theorem readInt?_cons_of_isBlank {c : Char} (h : Text.isBlank c = true) (cs : List Char) :
    readInt? (c :: cs) = readInt? cs := by
  simp [readInt?, h]

/-- Digits alone are read to their end. -/
theorem takeWhile_isDigit {digits : List Char} (h : ∀ c ∈ digits, c.isDigit = true) :
    digits.takeWhile Char.isDigit = digits ∧ digits.dropWhile Char.isDigit = [] := by
  simpa using h

/-- The text of an integer in range is read to its end. -/
theorem readInt?_of_integerText {cs : List Char} {n : Int} (h : IntegerText cs n)
    (hrange : InRange n) : readInt? cs = some (n, []) := by
  induction h with
  | @digits digits hne hdigits =>
    obtain ⟨first, more, rfl⟩ := List.exists_cons_of_ne_nil hne
    have hfirst := hdigits first List.mem_cons_self
    have hsign : takeSign ((first :: more).dropWhile Text.isBlank) = (false, first :: more) := by
      rw [List.dropWhile_cons_of_neg (by simp [isBlank_of_isDigit hfirst])]
      exact takeSign_of_isDigit hfirst more
    rw [readInt?_eq_some_iff_of_takeSign hsign, (takeWhile_isDigit hdigits).1]
    exact ⟨hne, (takeWhile_isDigit hdigits).2, hrange, rfl⟩
  | @plus digits hne hdigits =>
    have hsign : takeSign (('+' :: digits).dropWhile Text.isBlank) = (false, digits) := rfl
    rw [readInt?_eq_some_iff_of_takeSign hsign, (takeWhile_isDigit hdigits).1]
    exact ⟨hne, (takeWhile_isDigit hdigits).2, hrange, rfl⟩
  | @minus digits hne hdigits =>
    have hsign : takeSign (('-' :: digits).dropWhile Text.isBlank) = (true, digits) := rfl
    rw [readInt?_eq_some_iff_of_takeSign hsign, (takeWhile_isDigit hdigits).1]
    exact ⟨hne, (takeWhile_isDigit hdigits).2, hrange, rfl⟩
  | blank hc _ ih => rw [readInt?_cons_of_isBlank hc, ih hrange]

/-- What is read to its end is the text of the integer. -/
theorem integerText_of_readInt? {cs : List Char} {n : Int} (h : readInt? cs = some (n, [])) :
    IntegerText cs n := by
  induction cs with
  | nil => cases h
  | cons c cs ih =>
    by_cases hc : Text.isBlank c = true
    · rw [readInt?_cons_of_isBlank hc] at h
      exact .blank hc (ih h)
    · have hdrop : (c :: cs).dropWhile Text.isBlank = c :: cs := List.dropWhile_cons_of_neg hc
      generalize hcs : c :: cs = text at h hdrop ⊢
      cases hsign : takeSign text with
      | mk negative body =>
        rw [← hdrop] at hsign
        obtain ⟨hne, hrest, -, hn⟩ := (readInt?_eq_some_iff_of_takeSign hsign).1 h
        have hdigits : ∀ d ∈ body, d.isDigit = true := by simpa using hrest
        rw [(takeWhile_isDigit hdigits).1] at hne hn
        rw [hdrop] at hsign
        unfold takeSign at hsign
        split at hsign
        · cases hsign
          exact hn ▸ .minus hne hdigits
        · cases hsign
          exact hn ▸ .plus hne hdigits
        · cases hsign
          exact hn ▸ .digits hne hdigits

/-- What is read to its end is an integer of the 32-bit range. -/
theorem readInt?_eq_some_nil_iff {cs : List Char} {n : Int} :
    readInt? cs = some (n, []) ↔ IntegerText cs n ∧ InRange n :=
  ⟨fun h => ⟨integerText_of_readInt? h, inRange_of_readInt? h⟩,
    fun h => readInt?_of_integerText h.1 h.2⟩

/-- No integer is read from white space alone. -/
theorem readInt?_of_forall_isBlank {cs : List Char} (h : ∀ c ∈ cs, Text.isBlank c = true) :
    readInt? cs = none := by
  induction cs with
  | nil => rfl
  | cons c cs ih =>
    rw [List.forall_mem_cons] at h
    rw [readInt?_cons_of_isBlank h.1, ih h.2]

/-- A text without a dash holds no negative number. -/
theorem nonneg_of_readInt? {cs rest : List Char} {n : Int} (hdash : '-' ∉ cs)
    (h : readInt? cs = some (n, rest)) : 0 ≤ n := by
  cases hsign : takeSign (cs.dropWhile Text.isBlank) with
  | mk negative body =>
    obtain ⟨-, -, -, hn⟩ := (readInt?_eq_some_iff_of_takeSign hsign).1 h
    cases negative with
    | false => simp [hn]
    | true =>
      have hmem : '-' ∈ cs.dropWhile Text.isBlank := by
        unfold takeSign at hsign
        split at hsign
        · rename_i hcs
          simp [hcs]
        · cases hsign
        · cases hsign
      exact absurd ((List.dropWhile_suffix _).subset hmem) hdash

end PhraseTable.Number
