import PhraseTable.Alignment.Phrase
import PhraseTable.Phrase.Pair
import PhraseTable.Text.Fields
import PhraseTable.Vocabulary

/-!
# Reading phrase pairs

A phrase pair is read from a line of three fields: the source phrase, the target phrase and the
alignment. Words enter the vocabulary while they are read, source words first, so also a line that
is refused for its alignment leaves its words behind. The gaps of each phrase are numbered from one
in the order in which they stand.
-/

set_option autoImplicit false

namespace PhraseTable

/-- Why a phrase pair cannot be read. -/
inductive PhraseError where
  /-- The line has not three fields. -/
  | wrongFieldCount (found : Nat) (line : String)
  | alignment (error : PhraseAlignmentError)
  | link (error : PhraseLinkError)
deriving DecidableEq, Repr

/-- The wording of the errors of phrase pairs. -/
def PhraseError.message : PhraseError → String
  | .wrongFieldCount found line =>
    Text.untilNull
      ("Expecting three fields in phrase pair, found " ++ toString found ++ ": " ++ line)
  | .alignment error => error.message
  | .link error => error.message

/-- A phrase as it is read: its symbols, and the words of its terminals. -/
structure Phrase where
  symbols : List Int
  /-- The words of the terminals. -/
  words : List String
deriving DecidableEq, Repr

namespace Vocabulary

/-- Reads the tokens of a phrase behind a number of gaps. -/
def internPhrase (vocabulary : Vocabulary) (gaps : Nat) : List String → Vocabulary × Phrase
  | [] => (vocabulary, ⟨[], []⟩)
  | token :: rest =>
    if isGapToken token then
      let (vocabulary, phrase) := vocabulary.internPhrase (gaps + 1) rest
      (vocabulary, ⟨gapSymbol ((gaps : Int) + 1) :: phrase.symbols, phrase.words⟩)
    else
      let (vocabulary, id) := vocabulary.intern token
      let (vocabulary, phrase) := vocabulary.internPhrase gaps rest
      (vocabulary, ⟨(id : Int) :: phrase.symbols, token :: phrase.words⟩)

/-- Reads a phrase. -/
def readPhrase (vocabulary : Vocabulary) (text : String) : Vocabulary × Phrase :=
  vocabulary.internPhrase 0 (Text.tokens text)

end Vocabulary

namespace PhrasePair

/-- The pair of two phrases with an alignment. -/
def ofPhrases (source target : Phrase) (alignment : String) : Except PhraseError PhrasePair :=
  match PhraseAlignment.parse alignment (Number.wrapped source.symbols.length) with
  | .error error => .error (.alignment error)
  | .ok links =>
    (ofLinks source.symbols target.symbols source.words target.words links).mapError .link

/-- Reads a phrase pair from its three parts. -/
def build (vocabulary : Vocabulary) (source target alignment : String) :
    Vocabulary × Except PhraseError PhrasePair :=
  let (vocabulary, source) := vocabulary.readPhrase source
  let (vocabulary, target) := vocabulary.readPhrase target
  (vocabulary, ofPhrases source target alignment)

/-- Reads a phrase pair from a line. -/
def parse (vocabulary : Vocabulary) (line : String) : Vocabulary × Except PhraseError PhrasePair :=
  match Text.fields line with
  | [source, target, alignment] => build vocabulary source target alignment
  | fields => (vocabulary, .error (.wrongFieldCount fields.length line))

end PhrasePair

end PhraseTable
