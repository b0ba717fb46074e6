import PhraseTable.CountVector
import PhraseTable.Phrase.Pair

/-!
# Counts of phrases

Phrases are counted under the numbers that they carry. A pair counts once in each of three vectors,
and a number that is missing is passed over in its vector alone.
-/

set_option autoImplicit false

namespace PhraseTable

/-- Counts of phrase pairs and of their phrases. -/
structure PhraseCounts where
  pairs : CountVector
  sources : CountVector
  targets : CountVector
deriving DecidableEq, Repr

/-- How often a phrase pair and its phrases occur. -/
structure Occurrences where
  pair : Float
  source : Float
  target : Float

namespace PhraseCounts

/-- Nothing counted. -/
def empty : PhraseCounts := ⟨.empty, .empty, .empty⟩

/-- Counts a pair once more. -/
def add (phrases : PhraseCounts) (ids : PhraseIds) : PhraseCounts :=
  { pairs := phrases.pairs.increment ids.pair 1
    sources := phrases.sources.increment ids.source 1
    targets := phrases.targets.increment ids.target 1 }

/-- The count of a number, if it has a slot and was counted. -/
def positive? (vector : CountVector) (id : Int) : Option Float :=
  if vector.contains id ∧ vector.get id ≠ 0 then some (Float.ofInt (vector.get id)) else none

/-- How often a pair and its phrases were counted, if all three were. -/
def occurrences? (phrases : PhraseCounts) (ids : PhraseIds) : Option Occurrences := do
  let pair ← positive? phrases.pairs ids.pair
  let source ← positive? phrases.sources ids.source
  let target ← positive? phrases.targets ids.target
  return ⟨pair, source, target⟩

end PhraseCounts

end PhraseTable
