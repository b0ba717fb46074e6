import PhraseTable.Text.Tokens

/-!
# Signed decimal integers

An integer is read from the front of a text: white space, an optional sign and decimal digits.
What follows the digits is handed back, so a caller decides whether it may stand there. Values
outside the 32-bit signed range are refused.
-/

set_option autoImplicit false

namespace PhraseTable.Number

/-- The value of a row of decimal digits. -/
def natOfDigits (digits : List Char) : Nat :=
  digits.foldl (fun n c => 10 * n + (c.toNat - '0'.toNat)) 0

/-- Takes an optional sign off a text; the flag says whether it was a minus. -/
def takeSign : List Char → Bool × List Char
  | '-' :: cs => (true, cs)
  | '+' :: cs => (false, cs)
  | cs => (false, cs)

/-- The 32-bit signed range. -/
def InRange (n : Int) : Prop :=
  -2147483648 ≤ n ∧ n ≤ 2147483647

instance (n : Int) : Decidable (InRange n) :=
  inferInstanceAs (Decidable (_ ∧ _))

/-- An integer as it is handed on in 32 bits: beyond their range it wraps around. -/
def wrapped (n : Int) : Int :=
  n.bmod 4294967296

/-- Reads an integer and hands back the text after its last digit. There is none if no digit
stands where the first one should, or if the value is out of range. -/
def readInt? (cs : List Char) : Option (Int × List Char) :=
  let (negative, body) := takeSign (cs.dropWhile Text.isBlank)
  let digits := body.takeWhile Char.isDigit
  let size : Int := natOfDigits digits
  let value := if negative then -size else size
  if digits.isEmpty then none
  else if InRange value then some (value, body.dropWhile Char.isDigit)
  else none

end PhraseTable.Number
