import PhraseTable.Alignment.AlignedPair

/-!
# Sentence pairs

A word aligned sentence pair is an aligned pair of word numbers. A link outside of it is reported
with the sizes of both sentences.
-/

set_option autoImplicit false

namespace PhraseTable

/-- A word aligned sentence pair. -/
abbrev SentencePair := AlignedPair

/-- A link that lies outside of its sentence pair. -/
structure SentenceError where
  link : RawLink
  sourceSize : Nat
  targetSize : Nat
deriving DecidableEq, Repr

/-- The wording of the error. -/
def SentenceError.message (error : SentenceError) : String :=
  "Alignment link " ++ error.link.text ++ " is outside of a sentence pair of size " ++
    toString error.sourceSize ++ "x" ++ toString error.targetSize

/-- The sentence pair with these links. -/
def SentencePair.ofLinks (source target : List Int) (raws : List RawLink) :
    Except SentenceError SentencePair :=
  (AlignedPair.ofLinks source target raws).mapError fun link =>
    ⟨link, source.length, target.length⟩

end PhraseTable
