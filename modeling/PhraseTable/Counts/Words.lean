import PhraseTable.CountVector
import PhraseTable.DenseIndex.Basic
import PhraseTable.DenseIndex.Hash
import PhraseTable.Sentence
import PhraseTable.Vocabulary

/-!
# Counts of aligned words

A tally counts keys: an index gives each key a slot, and a count vector holds the count of every
slot. `WordCounts` tallies aligned word pairs and the words of each side. In a sentence pair every
link counts its two words as a pair, and a word without links is paired with the null word.
-/

set_option autoImplicit false

namespace PhraseTable

/-- Counts of keys. -/
structure Tally (α : Type) [DecidableEq α] where
  index : DenseIndex α
  counts : CountVector

namespace Tally

variable {α : Type} [DecidableEq α]

/-- The tally without keys. -/
def empty (hash : α → Nat) : Tally α :=
  ⟨.empty hash 16, .empty⟩

/-- The tally with a slot for the key, and the slot. -/
def reserve (tally : Tally α) (key : α) : Tally α × Nat :=
  let (index, slot) := tally.index.insert key
  ({ tally with index }, slot)

/-- The tally with slots for keys, which ask for them one after the other. -/
def reserveAll (tally : Tally α) (keys : List α) : Tally α :=
  keys.foldl (fun tally key => (tally.reserve key).1) tally

/-- Counts one more in a slot. -/
def bump (tally : Tally α) (slot : Nat) : Tally α :=
  { tally with counts := tally.counts.increment slot 1 }

/-- Counts a key once more, and gives its slot. -/
def add (tally : Tally α) (key : α) : Tally α × Nat :=
  let (tally, slot) := tally.reserve key
  (tally.bump slot, slot)

/-- The count of a key, if it was ever counted. -/
def count? (tally : Tally α) (key : α) : Option Int :=
  (tally.index.find? key).map fun slot => tally.counts.get slot

end Tally

/-- Counts of aligned word pairs and of their words. -/
structure WordCounts where
  pairs : Tally (Int × Int)
  sources : Tally Int
  targets : Tally Int

/-- The slots in which a word pair and its words are counted. -/
structure WordSlots where
  pair : Nat
  source : Nat
  target : Nat
deriving DecidableEq, Repr

namespace WordCounts

/-- Nothing counted. -/
def empty : WordCounts :=
  ⟨.empty Hash.intPair, .empty Hash.int, .empty Hash.int⟩

/-- Counts a word pair and its words once more, and gives their slots. -/
def add (words : WordCounts) (source target : Int) : WordCounts × WordSlots :=
  let (pairs, pair) := words.pairs.add (source, target)
  let (sources, sourceSlot) := words.sources.add source
  let (targets, targetSlot) := words.targets.add target
  (⟨pairs, sources, targets⟩, ⟨pair, sourceSlot, targetSlot⟩)

/-- The number of times that a source word and a target word were counted together. -/
def pairCount? (words : WordCounts) (source target : Int) : Option Int :=
  words.pairs.count? (source, target)

/-- The number of times that a source word was counted. -/
def sourceCount? (words : WordCounts) (source : Int) : Option Int :=
  words.sources.count? source

/-- The number of times that a target word was counted. -/
def targetCount? (words : WordCounts) (target : Int) : Option Int :=
  words.targets.count? target

end WordCounts

namespace AlignedPair

/-- The word pairs of a source position: one for each link, or one with the null word. -/
def wordPairsAt (pair : AlignedPair) (i : Nat) : List (Int × Int) :=
  match pair.targetsOf i with
  | [] => [(pair.sourceAt i, nullWord)]
  | targets => targets.map fun j => (pair.sourceAt i, pair.targetAt j)

/-- The word pairs of a sentence pair in the order in which they are counted: those of every source
position, then the target words without links. -/
def wordPairs (pair : AlignedPair) : List (Int × Int) :=
  (List.range pair.source.length).flatMap pair.wordPairsAt ++
    ((List.range pair.target.length).filter fun j => (pair.sourcesOf j).isEmpty).map
      fun j => (nullWord, pair.targetAt j)

end AlignedPair

end PhraseTable
