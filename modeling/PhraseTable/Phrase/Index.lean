import PhraseTable.DenseIndex.Basic
import PhraseTable.DenseIndex.Hash
import PhraseTable.Phrase.Pair

/-!
# The numbers of phrases

A phrase index numbers source phrases, target phrases and pairs of them, each by its symbols alone:
words and links play no part. The key of a pair is the row of its source symbols, a separator and
its target symbols, so two pairs are told apart as long as the separator is no symbol of theirs.
-/

set_option autoImplicit false

namespace PhraseTable

/-- The symbol between the two phrases in the key of a pair. -/
def pairSeparator : Int := -1000000

/-- The key of a pair. -/
def AlignedPair.pairKey (pair : AlignedPair) : List Int :=
  pair.source ++ pairSeparator :: pair.target

/-- The numbers of phrases and of pairs. -/
structure PhraseIndex where
  pairs : DenseIndex (List Int)
  sources : DenseIndex (List Int)
  targets : DenseIndex (List Int)

/-- The number of something found, or the place of a missing number. -/
def idOrUnassigned (id : Option Nat) : Int :=
  match id with
  | some n => n
  | none => unassignedId

namespace PhraseIndex

/-- The index without phrases. -/
def empty : PhraseIndex :=
  ⟨.empty Hash.ints 16, .empty Hash.ints 16, .empty Hash.ints 16⟩

instance : Inhabited PhraseIndex := ⟨empty⟩

/-- The index with the pair in it, and the pair with its numbers. -/
def insert (index : PhraseIndex) (pair : PhrasePair) : PhraseIndex × PhrasePair :=
  let (pairs, pairId) := index.pairs.insert pair.pairKey
  let (sources, sourceId) := index.sources.insert pair.source
  let (targets, targetId) := index.targets.insert pair.target
  (⟨pairs, sources, targets⟩, pair.withIds ⟨pairId, sourceId, targetId⟩)

/-- The numbers that a pair has in the index. -/
def idsOf (index : PhraseIndex) (pair : PhrasePair) : PhraseIds :=
  { pair := idOrUnassigned (index.pairs.find? pair.pairKey)
    source := idOrUnassigned (index.sources.find? pair.source)
    target := idOrUnassigned (index.targets.find? pair.target) }

/-- The pair with the numbers that it has in the index, and whether it has all three. -/
def lookup (index : PhraseIndex) (pair : PhrasePair) : Bool × PhrasePair :=
  let ids := index.idsOf pair
  (decide (0 ≤ ids.pair ∧ 0 ≤ ids.source ∧ 0 ≤ ids.target), pair.withIds ids)

/-- The index with all the pairs in it, and the pairs with their numbers. -/
def insertAll (index : PhraseIndex) : List PhrasePair → PhraseIndex × List PhrasePair
  | [] => (index, [])
  | pair :: rest =>
    let (index, pair) := index.insert pair
    let (index, rest) := index.insertAll rest
    (index, pair :: rest)

end PhraseIndex

end PhraseTable
