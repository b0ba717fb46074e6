import PhraseTable.Counts.Words

/-!
# Word translation probabilities

A lexical table gives the probability of a source word given a target word and the other way round.
From word counts, each is the count of the pair divided by the count of the given word, and zero for
words that were never counted together.
-/

set_option autoImplicit false

namespace PhraseTable

/-- Word translation probabilities in both directions. -/
structure LexicalTable where
  /-- The probability of the first word, a source word, given the second one. -/
  sourceGivenTarget : Int → Int → Float
  /-- The probability of the second word, a target word, given the first one. -/
  targetGivenSource : Int → Int → Float

/-- The part of a marginal count that falls on a joint count. -/
def countRatio (joint marginal : Option Int) : Float :=
  match joint, marginal with
  | some joint, some marginal =>
    if 0 < joint ∧ 0 < marginal then Float.ofInt joint / Float.ofInt marginal else 0
  | _, _ => 0

/-- The probabilities that the counts give. -/
def WordCounts.table (words : WordCounts) : LexicalTable where
  sourceGivenTarget f e := countRatio (words.pairCount? f e) (words.targetCount? e)
  targetGivenSource f e := countRatio (words.pairCount? f e) (words.sourceCount? f)

end PhraseTable
