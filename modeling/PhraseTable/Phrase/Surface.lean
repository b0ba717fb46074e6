/-!
# The text of a phrase

The symbols of a phrase are word numbers and, for its gaps, negative numbers. The words of its
terminals stand beside the symbols. A terminal is written as its word, or as its number when the
words have run out, and a gap as a numbered `X` in brackets.

`surface` writes a whole phrase and takes the words off one by one; `wordAt` writes one position and
counts the terminals before it.
-/

set_option autoImplicit false

namespace PhraseTable.Surface

/-- Is the symbol a gap? -/
def isGap (symbol : Int) : Bool :=
  decide (symbol < 0)

/-- The text of a gap. -/
def gapText (symbol : Int) : String :=
  "[X," ++ toString (-symbol) ++ "]"

/-- The texts of all positions of a phrase. -/
def surface : List Int → List String → List String
  | [], _ => []
  | symbol :: rest, words =>
    if isGap symbol then gapText symbol :: surface rest words
    else
      match words with
      | [] => toString symbol :: surface rest []
      | word :: words => word :: surface rest words

/-- The text of a phrase, with spaces between its positions. -/
def text (symbols : List Int) (words : List String) : String :=
  " ".intercalate (surface symbols words)

/-- The text of one position of a phrase. -/
def wordAt (symbols : List Int) (words : List String) (position : Nat) : String :=
  let symbol := symbols.getD position 0
  if isGap symbol then gapText symbol
  else words.getD ((symbols.take position).countP (!isGap ·)) (toString symbol)

end PhraseTable.Surface
