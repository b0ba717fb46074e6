/-!
# Lines of a text and words of a line

A line feed ends a line. What follows the last line feed is a line only if it is not empty, so a
text that ends with a line feed has as many lines as line feeds, and the empty text has none.

White space is the six characters space, tab, line feed, vertical tab, form feed and carriage
return. `trim` removes them at both ends of a text; `tokens` cuts what is left at runs of spaces
and tabs only, so that the other four may stand inside a word. `splitRuns` is the cut at runs of
separators in which a run at either end of the text leaves an empty piece.

Messages and the words of logged weights are handed on as null-terminated texts, so a null character
ends them.
-/

set_option autoImplicit false

namespace PhraseTable.Text

/-- The lines of a text without their line feeds. -/
def lineChars (cs : List Char) : List (List Char) :=
  let pieces := cs.splitOn '\n'
  if pieces.getLast? = some [] then pieces.dropLast else pieces

/-- The lines of a text without their line feeds. -/
def lines (s : String) : List String :=
  (lineChars s.toList).map String.ofList

/-- The six white space characters. -/
def isBlank (c : Char) : Bool :=
  c == ' ' || c == '\t' || c == '\n' || c == '\x0b' || c == '\x0c' || c == '\r'

/-- The two characters that separate words. -/
def isGap (c : Char) : Bool :=
  c == ' ' || c == '\t'

/-- The text without the white space at its two ends. -/
def trimChars (cs : List Char) : List Char :=
  ((cs.dropWhile isBlank).reverse.dropWhile isBlank).reverse

/-- The words of a text, in order. After trimming, the first and the last piece of the cut are
words, so the empty pieces are exactly those inside a run of separators. -/
def tokenChars (cs : List Char) : List (List Char) :=
  ((trimChars cs).splitOnP isGap).filter (fun piece => !piece.isEmpty)

/-- The pieces but for those empty ones that are not the last. -/
def dropInnerEmpty : List (List Char) → List (List Char)
  | [] => []
  | [last] => [last]
  | piece :: rest =>
    if piece.isEmpty then dropInnerEmpty rest else piece :: dropInnerEmpty rest

/-- The cut at maximal runs of separators. There is always at least one piece, and a run that
begins or ends the text leaves an empty piece there. -/
def splitRuns (sep : Char → Bool) (cs : List Char) : List (List Char) :=
  match cs.splitOnP sep with
  | [] => []
  | [piece] => [piece]
  | first :: rest => first :: dropInnerEmpty rest

/-- The text without the white space at its two ends. -/
def trim (s : String) : String :=
  String.ofList (trimChars s.toList)

/-- The words of a text, in order. -/
def tokens (s : String) : List String :=
  (tokenChars s.toList).map String.ofList

/-- The text up to its first null character. -/
def untilNull (s : String) : String :=
  String.ofList (s.toList.takeWhile (· != '\x00'))

end PhraseTable.Text
