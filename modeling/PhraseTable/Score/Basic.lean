import PhraseTable.Number.Notation

/-!
# Scores

A score is a double that tells where it comes from when it is not a number. One that was given as it
is, or comes of such a value, is written without a sign. One that comes of numbers alone, as zero
times infinity does, is indefinite and is written with a minus sign. The double itself cannot tell
the two apart.
-/

set_option autoImplicit false

namespace PhraseTable

/-- A score of a phrase pair, or a factor of one. -/
structure Score where
  value : Float
  /-- The value is not a number, but comes of numbers alone. -/
  indefinite : Bool

namespace Score

/-- A value as it is given. -/
def ofFloat (value : Float) : Score := ⟨value, false⟩

/-- A value that was computed from the given ones. -/
def computed (operands : List Float) (value : Float) : Score where
  value := value
  indefinite := value.isNaN && !operands.any Float.isNaN

/-- The product of two scores. An indefinite factor makes it indefinite. -/
def mul (x y : Score) : Score where
  value := x.value * y.value
  indefinite :=
    x.indefinite || y.indefinite || (computed [x.value, y.value] (x.value * y.value)).indefinite

instance : Mul Score := ⟨mul⟩

/-- The text of a score, given how other doubles are written. -/
def text (write : Float → String) (score : Score) : String :=
  if score.indefinite then "-nan" else write score.value

/-- The text of a score with a fixed number of decimal places. -/
def fixed (places : Nat) (score : Score) : String :=
  score.text (Number.fixed places)

/-- The text of a score with at most the given number of significant digits. -/
def significant (digits : Nat) (score : Score) : String :=
  score.text (Number.significant digits)

end Score

end PhraseTable
