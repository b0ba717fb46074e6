import PhraseTable.Number.Binary64
import PhraseTable.Number.Integer

/-!
# Real numbers in text

A numeral stands at the front of a text, behind white space and an optional sign. It is a decimal
numeral with an optional point and an optional power of ten, a hexadecimal one with an optional
power of two, or one of the words for infinity and for a value that is not a number, in any case.
Text behind the numeral is not looked at. `read` rounds the numeral to the nearest double and
refuses those that are too large for one, and those that are both too small for a normal double and
cut short by a subnormal one.
-/

set_option autoImplicit false

namespace PhraseTable.Number

/-- The size of a numeral, apart from its sign. -/
inductive Magnitude where
  | nan
  | infinite
  /-- A mantissa times a power of ten. -/
  | decimal (mantissa : Nat) (exponent : Int)
  /-- A mantissa times a power of two. -/
  | binary (mantissa : Nat) (exponent : Int)
deriving DecidableEq, Repr

/-- A real number as it is written: a sign and a size. -/
structure Numeral where
  /-- A minus sign stands in front. -/
  negative : Bool
  magnitude : Magnitude
deriving DecidableEq, Repr

/-- The value of a hexadecimal digit. -/
def hexDigit? (c : Char) : Option Nat :=
  if c.isDigit then some (c.toNat - '0'.toNat)
  else if 'a' ≤ c ∧ c ≤ 'f' then some (c.toNat - 'a'.toNat + 10)
  else if 'A' ≤ c ∧ c ≤ 'F' then some (c.toNat - 'A'.toNat + 10)
  else none

/-- Is the character a hexadecimal digit? -/
def isHexDigit (c : Char) : Bool :=
  (hexDigit? c).isSome

/-- The value of a row of hexadecimal digits. -/
def natOfHexDigits (digits : List Char) : Nat :=
  digits.foldl (fun n c => 16 * n + (hexDigit? c).getD 0) 0

/-- Does the text begin with this lower case word, read without regard to case? -/
def beginsWith (word cs : List Char) : Bool :=
  (cs.take word.length).map Char.toLower == word

/-- The exponent at the front of a text: the mark, an optional sign and digits. Without digits the
mark belongs to the text behind the numeral and the exponent is zero. -/
def exponentAfter (mark : Char) : List Char → Int
  | [] => 0
  | c :: cs =>
    if c.toLower = mark then
      let (negative, body) := takeSign cs
      let size : Int := natOfDigits (body.takeWhile Char.isDigit)
      if negative then -size else size
    else 0

/-- The digits before the point, the digits after it, and the text behind them. -/
def splitPoint (isDigit : Char → Bool) (cs : List Char) : List Char × List Char × List Char :=
  let whole := cs.takeWhile isDigit
  match cs.dropWhile isDigit with
  | '.' :: rest => (whole, rest.takeWhile isDigit, rest.dropWhile isDigit)
  | rest => (whole, [], rest)

/-- A hexadecimal numeral behind its mark; it needs a digit on one side of the point. -/
def scanHex? (cs : List Char) : Option Magnitude :=
  let (whole, part, rest) := splitPoint isHexDigit cs
  let digits := whole ++ part
  if digits.isEmpty then none
  else some (.binary (natOfHexDigits digits) (exponentAfter 'p' rest - 4 * (part.length : Int)))

/-- A decimal numeral; it needs a digit on one side of the point. -/
def scanDecimal? (cs : List Char) : Option Magnitude :=
  let (whole, part, rest) := splitPoint Char.isDigit cs
  let digits := whole ++ part
  if digits.isEmpty then none
  else some (.decimal (natOfDigits digits) (exponentAfter 'e' rest - (part.length : Int)))

/-- The size of the numeral at the front of a text. A hexadecimal mark without digits leaves the
decimal numeral zero. -/
def scanMagnitude? (cs : List Char) : Option Magnitude :=
  if beginsWith "inf".toList cs then some .infinite
  else if beginsWith "nan".toList cs then some .nan
  else if beginsWith "0x".toList cs then (scanHex? (cs.drop 2)).or (scanDecimal? cs)
  else scanDecimal? cs

/-- The numeral at the front of a text, behind white space. -/
def Numeral.scan? (cs : List Char) : Option Numeral :=
  let (negative, body) := takeSign (cs.dropWhile Text.isBlank)
  (scanMagnitude? body).map fun magnitude => ⟨negative, magnitude⟩

/-- The number of decimal digits of a natural, one for zero. -/
def decimalLength (n : Nat) : Nat :=
  (Nat.toDigits 10 n).length

/-- A fraction that rounds like the mantissa times the power of ten. Sizes from `10 ^ 400` up and
below `10 ^ -400` round as those two bounds do, so no larger power is ever formed. -/
def decimalFraction (mantissa : Nat) (exponent : Int) : Nat × Nat :=
  let length : Int := decimalLength mantissa
  if mantissa = 0 then (0, 1)
  else if 400 < length + exponent then (tenTo 400, 1)
  else if length + exponent < -400 then (1, tenTo 400)
  else (mantissa * tenTo exponent.toNat, tenTo (-exponent).toNat)

/-- A fraction that rounds like the mantissa times the power of two, bounded in the same way. -/
def binaryFraction (mantissa : Nat) (exponent : Int) : Nat × Nat :=
  let length : Int := mantissa.log2
  if mantissa = 0 then (0, 1)
  else if 1200 < length + exponent then (twoTo 1200, 1)
  else if length + exponent < -1200 then (1, twoTo 1200)
  else (mantissa * twoTo exponent.toNat, twoTo (-exponent).toNat)

/-- The fraction of a finite size. -/
def Magnitude.fraction? : Magnitude → Option (Nat × Nat)
  | .nan => none
  | .infinite => none
  | .decimal mantissa exponent => some (decimalFraction mantissa exponent)
  | .binary mantissa exponent => some (binaryFraction mantissa exponent)

/-- The double nearest to a numeral. -/
def Numeral.toFloat (numeral : Numeral) : Float :=
  match numeral.magnitude, numeral.magnitude.fraction? with
  | .nan, _ => Binary64.ofSignAndBits false (Binary64.infinityBits + twoTo 51)
  | _, none => Binary64.ofSignAndBits numeral.negative Binary64.infinityBits
  | _, some (num, den) => Binary64.ofFraction numeral.negative num den

/-- The number of decimal places that are looked at. It reaches the guard bit of the largest
subnormal doubles. -/
def decimalPlaces : Nat := 1076

/-- Has a decimal numeral a digit other than zero behind the places that are looked at? A binary
numeral is looked at as a whole. -/
def Magnitude.isLong : Magnitude → Bool
  | .decimal mantissa exponent =>
    let (num, den) := decimalFraction mantissa exponent
    num * tenTo decimalPlaces % den != 0
  | _ => false

/-- Is the numeral too large for a double, or too small for a normal one and cut short by a
subnormal one? -/
def Numeral.outOfRange (numeral : Numeral) : Bool :=
  match numeral.magnitude.fraction? with
  | none => false
  | some (num, den) =>
    let rounded := Binary64.nearest num den
    rounded.bits == Binary64.infinityBits ||
      (rounded.tiny && (rounded.cut || numeral.magnitude.isLong))

/-- Why a text gives no double. -/
inductive NumeralError where
  /-- No numeral stands at the front of the text. -/
  | noNumeral
  /-- The numeral is too large or too small for a double. -/
  | outOfRange
deriving DecidableEq, Repr

/-- A double read from text. The sign is kept beside it, since it can also stand in front of a
value that is not a number. -/
structure Reading where
  /-- The double nearest to the numeral. -/
  value : Float
  /-- A minus sign stood in front. -/
  negative : Bool

/-- Reads the double at the front of a text. -/
def read (s : String) : Except NumeralError Reading :=
  match Numeral.scan? s.toList with
  | none => .error .noNumeral
  | some numeral =>
    if numeral.outOfRange then .error .outOfRange
    else .ok { value := numeral.toFloat, negative := numeral.negative }

end PhraseTable.Number
