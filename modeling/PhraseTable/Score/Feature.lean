import PhraseTable.Counts.Phrases
import PhraseTable.Score.Lexical

/-!
# Features of phrase pairs

Three features are computed in both directions: the relative frequency `phi` of a phrase given the
other one, and the lexical weight in its two models.
-/

set_option autoImplicit false

namespace PhraseTable

/-- The relative frequency of the source phrase given the target phrase. -/
def Occurrences.phiSourceGivenTarget (occurrences : Occurrences) : Score :=
  .computed [occurrences.pair, occurrences.target] (occurrences.pair / occurrences.target)

/-- The relative frequency of the target phrase given the source phrase. -/
def Occurrences.phiTargetGivenSource (occurrences : Occurrences) : Score :=
  .computed [occurrences.pair, occurrences.source] (occurrences.pair / occurrences.source)

namespace PhrasePair

/-- The averaged lexical weight of the source phrase. -/
def lexSourceGivenTarget (table : LexicalTable) (config : Config) (pair : PhrasePair) :
    Logged Score := do
  Logged.writeIf (weightLevel ≤ config.debugLevel)
    ["Computing p(f|e) for phrase pair: " ++ pair.text]
  Support.product config true (pair.sourceSupports table)

/-- The averaged lexical weight of the target phrase. -/
def lexTargetGivenSource (table : LexicalTable) (config : Config) (pair : PhrasePair) :
    Logged Score := do
  Logged.writeIf (weightLevel ≤ config.debugLevel)
    ["Computing p(e|f) for phrase pair: " ++ pair.text]
  Support.product config false (pair.targetSupports table)

/-- The greatest lexical weight of the source phrase. -/
def maxLexSourceGivenTarget (table : LexicalTable) (config : Config) (pair : PhrasePair) :
    Logged Score :=
  Candidates.product config (pair.sourceCandidates table)

/-- The greatest lexical weight of the target phrase. -/
def maxLexTargetGivenSource (table : LexicalTable) (config : Config) (pair : PhrasePair) :
    Logged Score :=
  Candidates.product config (pair.targetCandidates table)

end PhrasePair

/-- The features of a phrase pair. -/
inductive Feature where
  | phiSourceGivenTarget
  | phiTargetGivenSource
  /-- Averaged lexical weight, source given target. -/
  | lexSourceGivenTarget
  /-- Averaged lexical weight, target given source. -/
  | lexTargetGivenSource
  | maxLexSourceGivenTarget
  | maxLexTargetGivenSource
deriving DecidableEq, Repr

namespace Feature

/-- All features. -/
def all : List Feature :=
  [ .phiSourceGivenTarget, .phiTargetGivenSource, .lexSourceGivenTarget, .lexTargetGivenSource
  , .maxLexSourceGivenTarget, .maxLexTargetGivenSource ]

/-- The name of a feature. The source side is named by `F` and the target side by `E`. -/
def name : Feature → String
  | .phiSourceGivenTarget => "PhiFgivenE"
  | .phiTargetGivenSource => "PhiEgivenF"
  | .lexSourceGivenTarget => "LexFgivenE"
  | .lexTargetGivenSource => "LexEgivenF"
  | .maxLexSourceGivenTarget => "MaxLexFgivenE"
  | .maxLexTargetGivenSource => "MaxLexEgivenF"

/-- The value of a feature. -/
def score (table : LexicalTable) (config : Config) (occurrences : Occurrences)
    (pair : PhrasePair) : Feature → Logged Score
  | .phiSourceGivenTarget => pure occurrences.phiSourceGivenTarget
  | .phiTargetGivenSource => pure occurrences.phiTargetGivenSource
  | .lexSourceGivenTarget => pair.lexSourceGivenTarget table config
  | .lexTargetGivenSource => pair.lexTargetGivenSource table config
  | .maxLexSourceGivenTarget => pair.maxLexSourceGivenTarget table config
  | .maxLexTargetGivenSource => pair.maxLexTargetGivenSource table config

end Feature

end PhraseTable
