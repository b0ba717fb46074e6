import PhraseTable.Number.Notation
import PhraseTable.Number.Numeral
import PhraseTable.Phrase.Reader

/-!
# Comparing scores with a reference

A score agrees with a reference value if the reference is within one percent of it. A summary counts
what was compared.
-/

set_option autoImplicit false

namespace PhraseTable

/-- How far a reference value lies from a computed score, as a part of the score. -/
def relativeError (reference computed : Float) : Float :=
  1 - reference / computed

/-- The largest relative error of a score that agrees. -/
def maxRelativeError : Float := 1e-2

/-- Does a score agree with a reference value? An error that is not a number is no agreement. -/
def agrees (reference computed : Float) : Bool :=
  decide ((relativeError reference computed).abs ≤ maxRelativeError)

/-- What a comparison with a reference came to. -/
structure Summary where
  /-- The phrase pairs that were looked up. -/
  lines : Nat
  /-- The values that were compared. -/
  features : Nat
  /-- The values that do not agree. -/
  mismatches : Nat
  /-- The phrase pairs that were turned away. -/
  rejected : Nat
deriving DecidableEq, Repr

namespace Summary

/-- Nothing compared. -/
def empty : Summary := ⟨0, 0, 0, 0⟩

/-- The report of a comparison. -/
def text (summary : Summary) : String :=
  "Checked " ++ toString summary.lines ++ " phrase pairs, " ++ toString summary.features ++
    " features, " ++ toString summary.mismatches ++ " different, " ++
    toString summary.rejected ++ " rejected"

end Summary

/-- Why a line of a reference table cannot be read. -/
inductive ReferenceFault where
  /-- The line has not five fields. -/
  | wrongFieldCount (found : Nat)
  /-- The first three fields are no phrase pair. -/
  | phrase (error : PhraseError)
  /-- A value is no number. -/
  | number (error : Number.NumeralError)
deriving DecidableEq, Repr

/-- A reference table that cannot be read, with the first faulty line. -/
structure ReferenceError where
  fault : ReferenceFault
  line : String
  /-- The number of the line, counted from one. -/
  lineNumber : Nat
deriving DecidableEq, Repr

/-- The wording of what is wrong. Every fault of a number is named by the reader of numbers. -/
def ReferenceFault.message : ReferenceFault → String
  | .wrongFieldCount found => "Expecting five fields in phrase table, found: " ++ toString found
  | .phrase error => error.message
  | .number _ => "stod"

/-- The wording of the errors of reference tables. -/
def ReferenceError.message (error : ReferenceError) : String :=
  Text.untilNull
    (error.fault.message ++ " at line " ++ toString error.lineNumber ++ ": " ++ error.line)

end PhraseTable
