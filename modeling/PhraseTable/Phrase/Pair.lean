import PhraseTable.Alignment.AlignedPair
import PhraseTable.Phrase.Surface

/-!
# Phrase pairs

A phrase pair is an aligned pair of phrases with the words of its terminals. It carries three
numbers under which it is counted: one of the pair and one of each of its phrases. A pair without
numbers has the number -1 in their places.
-/

set_option autoImplicit false

namespace PhraseTable

/-- The numbers under which a phrase pair is counted. -/
structure PhraseIds where
  pair : Int
  source : Int
  target : Int
deriving DecidableEq, Repr

/-- The place of a number that was not given. -/
def unassignedId : Int := -1

/-- No numbers. -/
def PhraseIds.unassigned : PhraseIds := ⟨unassignedId, unassignedId, unassignedId⟩

/-- Two phrases with links between their symbols. -/
structure PhrasePair extends AlignedPair where
  /-- The words of the source terminals. -/
  sourceWords : List String
  /-- The words of the target terminals. -/
  targetWords : List String
  /-- The numbers under which the pair is counted. -/
  ids : PhraseIds

/-- A link that lies outside of its phrase pair. -/
structure PhraseLinkError where
  link : RawLink
deriving DecidableEq, Repr

/-- The wording of the error. -/
def PhraseLinkError.message (error : PhraseLinkError) : String :=
  "Alignment link " ++ error.link.text ++ " is outside of the phrase pair"

namespace PhrasePair

/-- The pair without symbols. -/
def empty : PhrasePair :=
  { AlignedPair.empty with sourceWords := [], targetWords := [], ids := .unassigned }

instance : Inhabited PhrasePair := ⟨empty⟩

/-- The pair with these links and without numbers, or the first link that lies outside. -/
def ofLinks (source target : List Int) (sourceWords targetWords : List String)
    (raws : List RawLink) : Except PhraseLinkError PhrasePair :=
  match AlignedPair.ofLinks source target raws with
  | .error link => .error ⟨link⟩
  | .ok pair => .ok { pair with sourceWords, targetWords, ids := .unassigned }

/-- The pair with other numbers. -/
def withIds (pair : PhrasePair) (ids : PhraseIds) : PhrasePair :=
  { pair with ids }

/-- The text of the source phrase. -/
def sourceText (pair : PhrasePair) : String :=
  Surface.text pair.source pair.sourceWords

/-- The text of the target phrase. -/
def targetText (pair : PhrasePair) : String :=
  Surface.text pair.target pair.targetWords

/-- The text of a source position. -/
def sourceWordAt (pair : PhrasePair) (i : Nat) : String :=
  Surface.wordAt pair.source pair.sourceWords i

/-- The text of a target position. -/
def targetWordAt (pair : PhrasePair) (j : Nat) : String :=
  Surface.wordAt pair.target pair.targetWords j

/-- The text of the pair: both phrases and the links, with bars between them. -/
def text (pair : PhrasePair) : String :=
  pair.sourceText ++ " ||| " ++ pair.targetText ++ " ||| " ++ pair.linkText

end PhrasePair

end PhraseTable
