/-!
# Double precision values and their exact fractions

A finite double is a natural mantissa times a power of two. `decode` reads that form off the bits,
and `nearest` goes the other way: it finds the double nearest to a fraction of two naturals, a tie
going to the even mantissa, and reports whether the fraction is too small for a normal double and
whether a subnormal one cuts it short.
-/

set_option autoImplicit false

namespace PhraseTable

/-- The power of two with the given exponent. -/
def Number.twoTo (n : Nat) : Nat := Nat.pow 2 n

/-- The power of ten with the given exponent. -/
def Number.tenTo (n : Nat) : Nat := Nat.pow 10 n

namespace Binary64

open Number (twoTo)

/-- A double taken apart: a finite one is `mantissa * 2 ^ exponent` with a sign. -/
inductive Parts where
  | nan
  | infinite (negative : Bool)
  /-- A finite value, zeros included. -/
  | finite (negative : Bool) (mantissa : Nat) (exponent : Int)
deriving DecidableEq, Repr

/-- The least exponent of a double's mantissa. -/
def minExponent : Int := -1074

/-- The parts of a double. -/
def decode (x : Float) : Parts :=
  let bits := x.toBits.toNat
  let negative := decide (twoTo 63 ≤ bits)
  let biased := bits / twoTo 52 % 2048
  let fraction := bits % twoTo 52
  if biased = 2047 then
    if fraction = 0 then .infinite negative else .nan
  else if biased = 0 then .finite negative fraction minExponent
  else .finite negative (twoTo 52 + fraction) (minExponent + (biased - 1 : Nat))

/-- The quotient of two naturals rounded to the nearest natural, a tie going to the even one. -/
def roundQuotient (num den : Nat) : Nat :=
  let quotient := num / den
  let remainder := num % den
  if 2 * remainder < den ∨ (2 * remainder = den ∧ quotient % 2 = 0) then quotient
  else quotient + 1

/-- The fraction `num / den` counted in units of `2 ^ exponent`, as numerator and denominator. -/
def inUnits (num den : Nat) (exponent : Int) : Nat × Nat :=
  (num * twoTo (-exponent).toNat, den * twoTo exponent.toNat)

/-- The exponent of the highest power of two that is at most `num / den`. The two logarithms give
it up to one step. -/
def leadingExponent (num den : Nat) : Int :=
  let guess : Int := (num.log2 : Int) - (den.log2 : Int)
  let (n, d) := inUnits num den guess
  if n < d then guess - 1 else guess

/-- A non-negative fraction after rounding to a double. -/
structure Rounded where
  /-- The bits of the double, its sign bit being clear. -/
  bits : Nat
  /-- A subnormal double has no place for a bit of the fraction. The guard bit is not looked at. -/
  cut : Bool
  /-- With 53 bits and no least exponent, the fraction would round to a value below every normal
  double. -/
  tiny : Bool
deriving DecidableEq, Repr

/-- The bits of the positive infinity. -/
def infinityBits : Nat := 2047 * twoTo 52

/-- Has a positive fraction a bit below the least exponent of a double? Of the bits from the highest
one on, at `2 ^ leading`, the 54th is the guard bit, which only rounding to 53 bits looks at. -/
def isCut (num den : Nat) (leading : Int) : Bool :=
  let (n, d) := inUnits num den (leading - 52)
  let missing := (minExponent - (leading - 52)).toNat
  decide (n / d % twoTo missing ≠ 0 ∨ 2 * n % d ≠ 0)

/-- The double nearest to `num / den`, a tie going to the even mantissa. The mantissa is added to
the place of its exponent, so one that rounds up to the next power of two carries by itself. -/
def nearest (num den : Nat) : Rounded :=
  if num = 0 then ⟨0, false, false⟩
  else
    let leading := leadingExponent num den
    let exponent := max (leading - 52) minExponent
    let (n, d) := inUnits num den exponent
    let bits := (exponent - minExponent).toNat * twoTo 52 + roundQuotient n d
    let (fn, fd) := inUnits num den (leading - 52)
    let roundsUp := leading = -1023 ∧ roundQuotient fn fd = twoTo 53
    { bits := min bits infinityBits
      cut := isCut num den leading
      tiny := decide (leading < -1022 ∧ ¬roundsUp) }

/-- The double with the given sign and the given lower bits. -/
def ofSignAndBits (negative : Bool) (bits : Nat) : Float :=
  Float.ofBits (UInt64.ofNat (if negative then bits + twoTo 63 else bits))

/-- The double nearest to the fraction `num / den` with the given sign. -/
def ofFraction (negative : Bool) (num den : Nat) : Float :=
  ofSignAndBits negative (nearest num den).bits

end Binary64

end PhraseTable
