import PhraseTable.Alignment.Link
import PhraseTable.Number.Integer
import PhraseTable.Text.Tokens

/-!
# Alignments of phrases

The links inside a phrase pair are written in one of two ways. Either every word of the text is a
link, two positions with a dash between them, or there is one word for each source position, a list
of target positions in parentheses. A parenthesis anywhere in the text decides for the lists.
-/

set_option autoImplicit false

namespace PhraseTable

/-- Why a text is no alignment of a phrase pair. -/
inductive PhraseAlignmentFault where
  /-- A word has no dash. -/
  | badLink (item : String)
  /-- A position is not a number of the allowed range. -/
  | badPosition (token : String)
  /-- There are more or fewer lists than source positions. -/
  | wrongListCount (expected : Int) (found : Nat)
  /-- A word is not in parentheses. -/
  | badList (item : String)
deriving DecidableEq, Repr

/-- An alignment of a phrase pair that cannot be read. -/
structure PhraseAlignmentError where
  fault : PhraseAlignmentFault
  text : String
deriving DecidableEq, Repr

/-- The wording of what is wrong. -/
def PhraseAlignmentFault.message : PhraseAlignmentFault → String
  | .badLink item => "Bad alignment link '" ++ item ++ "'"
  | .badPosition token => "Bad alignment position '" ++ token ++ "'"
  | .wrongListCount expected found =>
    "Expected " ++ toString expected ++ " alignment lists, found " ++ toString found
  | .badList item => "Bad alignment list '" ++ item ++ "'"

/-- The wording of the errors of phrase alignments. -/
def PhraseAlignmentError.message (error : PhraseAlignmentError) : String :=
  Text.untilNull (error.fault.message ++ " in: " ++ error.text)

namespace PhraseAlignment

/-- The position that a token holds: a natural number and nothing behind it. -/
def position (cs : List Char) : Except PhraseAlignmentFault Int :=
  match Number.readInt? cs with
  | some (n, []) => if 0 ≤ n then .ok n else .error (.badPosition (String.ofList cs))
  | _ => .error (.badPosition (String.ofList cs))

/-- The link that a word holds. The first dash separates its positions. If neither is a number, the
target position is the one that is reported. -/
def linkOf (item : List Char) : Except PhraseAlignmentFault RawLink :=
  match item.dropWhile (· != '-') with
  | [] => .error (.badLink (String.ofList item))
  | _ :: behind => do
    let target ← position behind
    let source ← position (item.takeWhile (· != '-'))
    return ⟨source, target⟩

/-- The text between the parentheses around a word. -/
def inside? : List Char → Option (List Char)
  | '(' :: rest => if rest.getLast? = some ')' then some rest.dropLast else none
  | _ => none

/-- The links of a source position from the list of its target positions. -/
def listLinks (source : Nat) (item : List Char) : Except PhraseAlignmentFault (List RawLink) :=
  match inside? item with
  | none => .error (.badList (String.ofList item))
  | some [] => .ok []
  | some positions => (positions.splitOn ',').mapM fun token => do
    let target ← position token
    return ⟨source, target⟩

/-- The links of one list for each source position, from the given position on. -/
def listsLinks (source : Nat) : List (List Char) → Except PhraseAlignmentFault (List RawLink)
  | [] => .ok []
  | item :: rest => do
    let links ← listLinks source item
    let others ← listsLinks (source + 1) rest
    return links ++ others

/-- The links that a text holds for a source phrase with the given number of symbols. -/
def linksOf (cs : List Char) (sourceSize : Int) : Except PhraseAlignmentFault (List RawLink) :=
  let items := Text.tokenChars cs
  if cs.contains '(' then
    if (items.length : Int) = sourceSize then listsLinks 0 items
    else .error (.wrongListCount sourceSize items.length)
  else items.mapM linkOf

/-- Reads the alignment of a phrase pair whose source phrase has the given number of symbols. -/
def parse (text : String) (sourceSize : Int) : Except PhraseAlignmentError (List RawLink) :=
  (linksOf text.toList sourceSize).mapError fun fault => ⟨fault, text⟩

end PhraseAlignment

end PhraseTable
