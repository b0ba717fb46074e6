import PhraseTable.Config
import PhraseTable.Corpus
import PhraseTable.Phrase.Reader
import PhraseTable.Reference.File

/-!
# What a run is asked to do

A run reads an alignment, a corpus and the occurrences of phrase pairs from files. The corpus is one
file for each side, or one bitext file, which goes before the two.
-/

set_option autoImplicit false

namespace PhraseTable.Run

/-- What a run is asked to do. -/
structure Options where
  /-- The file of the alignment. -/
  alignment : String
  /-- The file of the phrase pairs. -/
  phrases : String
  /-- The file of the source side. -/
  source : Option String := none
  /-- The file of the target side. -/
  target : Option String := none
  /-- The file with both sides. -/
  bitext : Option String := none
  /-- The file of a reference table. -/
  check : Option String := none
  /-- The number of threads. It is reported, and with one thread a run takes everything in the order
  of its files; with any other number the order is that of the run's `Schedule`. -/
  threads : Int := 1
  config : Config := {}

/-- Where a corpus stands. -/
inductive CorpusFiles where
  /-- In one file with both sides. -/
  | bitext (name : String)
  /-- In one file for each side. -/
  | sides (source target : String)
deriving DecidableEq, Repr

/-- Where the corpus of a run stands, if it was told. -/
def Options.corpusFiles? (options : Options) : Option CorpusFiles :=
  match options.bitext, options.source, options.target with
  | some bitext, _, _ => some (.bitext bitext)
  | none, some source, some target => some (.sides source target)
  | _, _, _ => none

/-- Why a run ends early. -/
inductive RunError where
  | missingFile (name : String)
  | lockedFile (name : String)
  | alignment (error : AlignmentError)
  | corpus (error : CorpusError)
  | phrase (name : String) (lineNumber : Nat) (error : PhraseError)
deriving DecidableEq, Repr

/-- The wording of the errors of runs. -/
def RunError.message : RunError → String
  | .missingFile name => "No such file: " ++ name
  | .lockedFile name => "Can't open file: " ++ name
  | .alignment error => error.message
  | .corpus error => error.message
  | .phrase name lineNumber error => name ++ ":" ++ toString lineNumber ++ ": " ++ error.message

/-- The text of a file that a run needs. -/
def contentOf (name : String) : Option FileEntry → Except RunError String
  | some (.text content) => .ok content
  | some .locked => .error (.lockedFile name)
  | some .directory => .error (.missingFile name)
  | none => .error (.missingFile name)

/-- Reads the phrase pairs of a file from the given line number on. Empty lines are passed over. -/
def readPhrases (name : String) (vocabulary : Vocabulary) (lineNumber : Nat) :
    List String → Except RunError (Vocabulary × List PhrasePair)
  | [] => .ok (vocabulary, [])
  | line :: rest =>
    if line.isEmpty then readPhrases name vocabulary (lineNumber + 1) rest
    else
      match PhrasePair.parse vocabulary line with
      | (_, .error error) => .error (.phrase name lineNumber error)
      | (vocabulary, .ok pair) => do
        let (vocabulary, pairs) ← readPhrases name vocabulary (lineNumber + 1) rest
        return (vocabulary, pair :: pairs)

end PhraseTable.Run
