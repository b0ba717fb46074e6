import PhraseTable.Number.Numeral

/-!
# Decimal texts of doubles

Two notations are used. `fixed` writes a set number of decimal places. `significant` writes at most
a set number of significant digits, without trailing zeros, and turns to a power of ten when the
leading digit stands right of the fourth place after the point or left of the last digit kept. Both
round the exact value of the double, a tie going to the even digit, and keep the sign of zero.
-/

set_option autoImplicit false

namespace PhraseTable.Number

/-- The minus sign of a negative value. -/
def signText (negative : Bool) : String :=
  if negative then "-" else ""

/-- A finite size `mantissa * 2 ^ exponent` as a fraction. -/
def fractionOf (mantissa : Nat) (exponent : Int) : Nat × Nat :=
  (mantissa * twoTo exponent.toNat, twoTo (-exponent).toNat)

/-- The digits of a natural, with zeros in front up to the given length. -/
def paddedDigits (length n : Nat) : List Char :=
  let digits := Nat.toDigits 10 n
  List.replicate (length - digits.length) '0' ++ digits

/-- A fraction with a fixed number of decimal places. -/
def fixedChars (places num den : Nat) : List Char :=
  let digits := paddedDigits (places + 1) (Binary64.roundQuotient (num * tenTo places) den)
  let whole := digits.length - places
  if places = 0 then digits else digits.take whole ++ '.' :: digits.drop whole

/-- The text of a double with a fixed number of decimal places. -/
def fixed (places : Nat) (x : Float) : String :=
  match Binary64.decode x with
  | .nan => "nan"
  | .infinite negative => signText negative ++ "inf"
  | .finite negative mantissa exponent =>
    let (num, den) := fractionOf mantissa exponent
    signText negative ++ String.ofList (fixedChars places num den)

/-- The text of a double that was read, with a fixed number of decimal places. The sign of a value
that is not a number is written as it was read. -/
def Reading.fixed (places : Nat) (reading : Reading) : String :=
  if reading.value.isNaN then signText reading.negative ++ "nan"
  else Number.fixed places reading.value

/-- The power of ten of the leading digit of a positive fraction. Below one, it is found from the
length of the inverse, rounded up, less one. -/
def leadingPower (num den : Nat) : Int :=
  if den ≤ num then (decimalLength (num / den) : Int) - 1
  else -(decimalLength ((den - 1) / num) : Int)

/-- A positive fraction rounded to a number of significant digits: the digits as a natural, and the
power of ten of the first of them. -/
def roundDigits (digits num den : Nat) : Nat × Int :=
  let power := leadingPower num den
  let shift := (digits : Int) - 1 - power
  let rounded := Binary64.roundQuotient (num * tenTo shift.toNat) (den * tenTo (-shift).toNat)
  if rounded = tenTo digits then (tenTo (digits - 1), power + 1) else (rounded, power)

/-- The digits without the zeros at their end. -/
def dropTrailingZeros (cs : List Char) : List Char :=
  (cs.reverse.dropWhile (· == '0')).reverse

/-- A point and the digits behind it, or nothing if there are none. -/
def afterPoint (cs : List Char) : List Char :=
  if cs.isEmpty then [] else '.' :: cs

/-- The exponent with its sign and at least two digits. -/
def powerChars (power : Int) : List Char :=
  (if power < 0 then '-' else '+') :: paddedDigits 2 power.natAbs

/-- The layout of significant digits whose first one counts `10 ^ power`. -/
def layout (digits : Nat) (value : Nat) (power : Int) : List Char :=
  let cs := paddedDigits digits value
  if power < -4 ∨ (digits : Int) ≤ power then
    cs.take 1 ++ afterPoint (dropTrailingZeros (cs.drop 1)) ++ 'e' :: powerChars power
  else if power < 0 then
    '0' :: '.' :: List.replicate (-power - 1).toNat '0' ++ dropTrailingZeros cs
  else
    let whole := power.toNat + 1
    cs.take whole ++ afterPoint (dropTrailingZeros (cs.drop whole))

/-- The text of a double with at most the given number of significant digits. -/
def significant (digits : Nat) (x : Float) : String :=
  match Binary64.decode x with
  | .nan => "nan"
  | .infinite negative => signText negative ++ "inf"
  | .finite negative mantissa exponent =>
    let (num, den) := fractionOf mantissa exponent
    if mantissa = 0 then signText negative ++ "0"
    else
      let (value, power) := roundDigits digits num den
      signText negative ++ String.ofList (layout digits value power)

end PhraseTable.Number
