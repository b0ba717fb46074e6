import PhraseTable.DenseIndex.Basic
import PhraseTable.DenseIndex.Hash

/-!
# The vocabulary

Source and target words share one vocabulary. Its first word is the null word, which stands for the
missing partner of a word without links, so that word has the number 0 on both sides. The gaps of a
phrase are not words: a gap has a negative symbol, and a token that looks like a gap marker is
recognised by its brackets.
-/

set_option autoImplicit false

namespace PhraseTable

/-- The text of the null word. -/
def nullText : String := "NULL"

/-- The number of the null word. -/
def nullWord : Int := 0

/-- The words of both languages and their numbers. -/
structure Vocabulary where
  /-- The words by their numbers. -/
  index : DenseIndex String
  /-- The null word comes first. -/
  null_first : index.get? 0 = some nullText

namespace Vocabulary

/-- The vocabulary that holds the null word only. -/
def empty : Vocabulary where
  index := ((DenseIndex.empty Hash.text 16).insert nullText).1
  null_first := by
    rw [← DenseIndex.getElem?_toList, DenseIndex.toList_insert]
    simp

instance : Inhabited Vocabulary := ⟨empty⟩

/-- All words in the order of their numbers. -/
def words (vocabulary : Vocabulary) : List String :=
  vocabulary.index.toList

/-- The number of words, the null word included. -/
def size (vocabulary : Vocabulary) : Nat :=
  vocabulary.index.size

/-- The number of a word, if it was ever stored. -/
def find? (vocabulary : Vocabulary) (word : String) : Option Nat :=
  vocabulary.index.find? word

/-- The word with the given number. -/
def word? (vocabulary : Vocabulary) (id : Nat) : Option String :=
  vocabulary.index.get? id

/-- The vocabulary with the word in it, and the number of the word. -/
def intern (vocabulary : Vocabulary) (word : String) : Vocabulary × Nat :=
  match h : vocabulary.index.insert word with
  | (index, id) =>
    ({ index
       null_first := by simpa [h] using DenseIndex.get?_insert vocabulary.null_first word }, id)

/-- The vocabulary with all the words in it, and their symbols in order. -/
def internAll (vocabulary : Vocabulary) : List String → Vocabulary × List Int
  | [] => (vocabulary, [])
  | word :: rest =>
    let (vocabulary, id) := vocabulary.intern word
    let (vocabulary, ids) := vocabulary.internAll rest
    (vocabulary, (id : Int) :: ids)

/-- The vocabulary of a row of words. -/
def ofWords (words : List String) : Vocabulary :=
  (empty.internAll words).1

/-- Two vocabularies are equal if they hold the same words under the same numbers. -/
instance : BEq Vocabulary := ⟨fun v w => v.words == w.words⟩

end Vocabulary

/-- The symbol of the gap with the given position among the gaps of a phrase. -/
def gapSymbol (position : Int) : Int :=
  -position

/-- Does the token mark a gap? It does if it has something between square brackets. -/
def isGapToken (token : String) : Bool :=
  match token.toList with
  | '[' :: rest => decide (2 ≤ rest.length) && rest.getLast? == some ']'
  | _ => false

end PhraseTable
