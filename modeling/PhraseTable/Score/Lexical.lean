import PhraseTable.Config
import PhraseTable.Logged
import PhraseTable.Phrase.Pair
import PhraseTable.Score.Basic
import PhraseTable.Score.Table
import PhraseTable.Text.Tokens

/-!
# Lexical weights

A lexical weight says how well the words of one phrase are explained by the words of the other. It
is a product over the positions of a phrase, taken from left to right. There are two models.

* The averaged weight of a word is the mean of its probabilities given the words that it is linked
  to, or its probability given the null word if it has no link. Gaps have no weight. A weight of
  zero is replaced by the least lexical probability.
* The largest weight of a symbol is the greatest of its probabilities given any symbol of the other
  phrase or the null word, and of the least lexical probability. Links play no part.
-/

set_option autoImplicit false

namespace PhraseTable

/-- From this debug level on all lexical weights are logged. -/
def weightLevel : Int := 1

/-- The number of decimal places of a logged weight. -/
def weightPlaces : Nat := 3

/-- The number of significant digits of a weight that is pointed out. -/
def warningDigits : Nat := 6

/-- The line that tells the weight of a word. The word is written up to its first null
character. -/
def weightLine (word weight : String) : String :=
  "w(" ++ Text.untilNull word ++ "|...) = " ++ weight

/-- What explains a word of a phrase. -/
structure Support where
  word : String
  /-- The probability of the word given the null word. -/
  null : Float
  /-- The probabilities of the word given each word that it is linked to. -/
  linked : List Float

namespace Support

/-- The sum from the left. -/
def sum (values : List Float) : Float :=
  values.foldl (· + ·) 0

/-- The mean over the links, or the probability given the null word. The mean of infinities of both
signs is indefinite. -/
def weight (support : Support) : Score :=
  match support.linked with
  | [] => .ofFloat support.null
  | linked => .computed linked (sum linked / Float.ofNat linked.length)

/-- Is the weight zero? -/
def isZero (support : Support) : Bool :=
  support.weight.value == 0

/-- The weight, or the least probability in place of zero. -/
def floored (least : Float) (support : Support) : Score :=
  if support.isZero then .ofFloat least else support.weight

/-- The product of the weights, which are logged at a debug level of one and always when one is
zero. With `warns`, a zero is pointed out on a line of its own. -/
def product (config : Config) (warns : Bool) (supports : List Support) : Logged Score :=
  supports.foldlM (fun product support => do
    Logged.writeIf (weightLevel ≤ config.debugLevel ∨ support.isZero)
      [weightLine support.word (support.weight.fixed weightPlaces)]
    Logged.writeIf (warns ∧ support.isZero)
      ["  WARNING: wsum = " ++ support.weight.significant warningDigits]
    return product * support.floored config.minLexProb) (.ofFloat 1)

end Support

/-- The candidates that may explain a symbol of a phrase. -/
structure Candidates where
  word : String
  /-- The probabilities of the symbol given each candidate. -/
  probabilities : List Float

namespace Candidates

/-- The greatest of the values, or the start if none is greater. -/
def greatest (start : Float) (values : List Float) : Float :=
  values.foldl (fun best value => if best < value then value else best) start

/-- The product of the greatest probabilities. -/
def product (config : Config) (rows : List Candidates) : Logged Score :=
  rows.foldlM (fun product row => do
    let best := greatest config.minLexProb row.probabilities
    Logged.writeIf (weightLevel ≤ config.debugLevel)
      [weightLine row.word (Number.fixed weightPlaces best)]
    return product * .ofFloat best) (.ofFloat 1)

end Candidates

namespace PhrasePair

/-- What explains each source word. -/
def sourceSupports (pair : PhrasePair) (table : LexicalTable) : List Support :=
  ((List.range pair.source.length).filter fun i => !Surface.isGap (pair.sourceAt i)).map fun i =>
    { word := pair.sourceWordAt i
      null := table.sourceGivenTarget (pair.sourceAt i) nullWord
      linked := (pair.targetsOf i).map fun j =>
        table.sourceGivenTarget (pair.sourceAt i) (pair.targetAt j) }

/-- What explains each target word. -/
def targetSupports (pair : PhrasePair) (table : LexicalTable) : List Support :=
  ((List.range pair.target.length).filter fun j => !Surface.isGap (pair.targetAt j)).map fun j =>
    { word := pair.targetWordAt j
      null := table.targetGivenSource nullWord (pair.targetAt j)
      linked := (pair.sourcesOf j).map fun i =>
        table.targetGivenSource (pair.sourceAt i) (pair.targetAt j) }

/-- What may explain each source symbol. -/
def sourceCandidates (pair : PhrasePair) (table : LexicalTable) : List Candidates :=
  (List.range pair.source.length).map fun i =>
    { word := pair.sourceWordAt i
      probabilities := (pair.target ++ [nullWord]).map fun e =>
        table.sourceGivenTarget (pair.sourceAt i) e }

/-- What may explain each target symbol. -/
def targetCandidates (pair : PhrasePair) (table : LexicalTable) : List Candidates :=
  (List.range pair.target.length).map fun j =>
    { word := pair.targetWordAt j
      probabilities := (pair.source ++ [nullWord]).map fun f =>
        table.targetGivenSource f (pair.targetAt j) }

end PhrasePair

end PhraseTable
