import PhraseTable.Alignment.Link
import PhraseTable.Number.Integer
import PhraseTable.Text.Tokens

/-!
# Alignments of sentences

The alignment of a corpus is a text with one line for each sentence pair. A line is cut at runs of
spaces, tabs and dashes, and the numbers between them are taken two by two as links. A line of white
space has no links.
-/

set_option autoImplicit false

namespace PhraseTable

/-- The links of every sentence pair of a corpus. -/
abbrev Alignment := List (List RawLink)

/-- Why a line holds no links. The line is given without the white space around it. -/
inductive AlignmentFault where
  /-- A source position has no partner. -/
  | oddPositions
  /-- A position is not a number. -/
  | badLink
deriving DecidableEq, Repr

/-- An alignment that cannot be read, with the first faulty line. -/
structure AlignmentError where
  fault : AlignmentFault
  /-- The number of the line, counted from one. -/
  lineNumber : Nat
  /-- The line without the white space around it. -/
  line : String
deriving DecidableEq, Repr

/-- The wording of the errors of alignments. -/
def AlignmentError.message (error : AlignmentError) : String :=
  let what := match error.fault with
    | .oddPositions => "Odd number of alignment positions at line "
    | .badLink => "Bad alignment link at line "
  Text.untilNull (what ++ toString error.lineNumber ++ ": " ++ error.line)

namespace Alignment

/-- The characters that separate positions. -/
def isSeparator (c : Char) : Bool :=
  Text.isGap c || c == '-'

/-- Takes texts two by two as links. Text behind a number is not looked at. -/
def pairUp : List (List Char) → Option (List RawLink)
  | i :: j :: rest => do
    let (source, _) ← Number.readInt? i
    let (target, _) ← Number.readInt? j
    let links ← pairUp rest
    return ⟨source, target⟩ :: links
  | _ => some []

/-- The links of a line without white space around it. -/
def ofTrimmed (cs : List Char) : Except AlignmentFault (List RawLink) :=
  let items := Text.splitRuns isSeparator cs
  if cs.isEmpty then .ok []
  else if items.length % 2 = 1 then .error .oddPositions
  else (pairUp items).elim (.error .badLink) .ok

/-- The links of the lines from the given line number on. -/
def ofLines (lineNumber : Nat) : List String → Except AlignmentError Alignment
  | [] => .ok []
  | line :: rest =>
    let trimmed := Text.trimChars line.toList
    match ofTrimmed trimmed with
    | .error fault => .error ⟨fault, lineNumber, String.ofList trimmed⟩
    | .ok links => (ofLines (lineNumber + 1) rest).map (links :: ·)

/-- The alignment that a text holds. -/
def ofText (text : String) : Except AlignmentError Alignment :=
  ofLines 1 (Text.lines text)

end Alignment

end PhraseTable
