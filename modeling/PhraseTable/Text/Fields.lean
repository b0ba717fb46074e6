import PhraseTable.Text.Tokens

/-!
# Fields between bars

Three bars separate the fields of a line. The cut is made at the leftmost group of three, then at
the leftmost one after it, and so on, so that a fourth bar belongs to the next field. A line has
always at least one field.
-/

set_option autoImplicit false

namespace PhraseTable.Text

/-- The pieces between groups of three bars, groups being taken from the left. -/
def splitBars : List Char → List (List Char)
  | [] => [[]]
  | '|' :: '|' :: '|' :: cs => [] :: splitBars cs
  | c :: cs => (splitBars cs).modifyHead (c :: ·)

/-- The fields of a line without the white space around them. -/
def fieldChars (cs : List Char) : List (List Char) :=
  (splitBars cs).map trimChars

/-- The text before the first group of three bars and the text after it, if there is one. -/
def cutBars : List Char → Option (List Char × List Char)
  | [] => none
  | '|' :: '|' :: '|' :: cs => some ([], cs)
  | c :: cs => (cutBars cs).map fun (before, after) => (c :: before, after)

/-- The fields of a line without the white space around them. -/
def fields (s : String) : List String :=
  (fieldChars s.toList).map String.ofList

/-- The two sides of a line around its first separator, if it has one. -/
def sides? (s : String) : Option (String × String) :=
  (cutBars s.toList).map fun (before, after) => (String.ofList before, String.ofList after)

end PhraseTable.Text
