import PhraseTable.Counts.Aggregate
import PhraseTable.Score.Feature

/-!
# Scoring phrase pairs

A phrase pair is judged by its counts and by two lexical weights. A pair that was never counted is
turned away, then one whose `phi(e|f)` is below its filter, and last one whose `lex(e|f)` is below
its filter. The lexical weights are computed only if the first two tests are passed, and then once
each. They are computed in any monad, so a caller can log them or count them.

The features of an accepted pair are laid out in columns. The layout is no part of the judgement.
-/

set_option autoImplicit false

namespace PhraseTable

/-- Two lexical weights with their names. -/
structure LexicalModel (m : Type → Type) where
  /-- The name of the first weight. -/
  sourceName : String
  /-- The name of the second weight. -/
  targetName : String
  sourceGivenTarget : PhrasePair → m Score
  targetGivenSource : PhrasePair → m Score

/-- The features of an accepted phrase pair. -/
structure Features where
  occurrences : Occurrences
  lexSourceGivenTarget : Score
  lexTargetGivenSource : Score

/-- What is made of a phrase pair. -/
inductive Verdict where
  /-- The pair or one of its phrases was never counted. -/
  | uncounted
  /-- The relative frequency of the target phrase is too low. -/
  | belowPhiFilter
  /-- The lexical weight of the target phrase is too low. -/
  | belowLexFilter
  /-- The pair is accepted. -/
  | accepted (features : Features)

/-- A column of the phrase table. -/
inductive Column where
  | phiSourceGivenTarget
  | lexSourceGivenTarget
  | phiTargetGivenSource
  | lexTargetGivenSource
  | pairCount
  | targetCount
  | sourceCount
deriving DecidableEq, Repr

/-- The columns that the settings ask for. -/
def Config.columns (config : Config) : List Column :=
  if config.printCounts then
    [ .phiSourceGivenTarget, .lexSourceGivenTarget, .phiTargetGivenSource, .lexTargetGivenSource
    , .pairCount, .targetCount, .sourceCount ]
  else if config.onlyPhi then [.phiSourceGivenTarget, .phiTargetGivenSource]
  else
    [.phiSourceGivenTarget, .lexSourceGivenTarget, .phiTargetGivenSource, .lexTargetGivenSource]

/-- The value of a column. -/
def Features.value (features : Features) : Column → Score
  | .phiSourceGivenTarget => features.occurrences.phiSourceGivenTarget
  | .lexSourceGivenTarget => features.lexSourceGivenTarget
  | .phiTargetGivenSource => features.occurrences.phiTargetGivenSource
  | .lexTargetGivenSource => features.lexTargetGivenSource
  | .pairCount => .ofFloat features.occurrences.pair
  | .targetCount => .ofFloat features.occurrences.target
  | .sourceCount => .ofFloat features.occurrences.source

namespace LexicalModel

variable {m : Type → Type}

/-- The name of a column. -/
def columnName (model : LexicalModel m) : Column → String
  | .phiSourceGivenTarget => Feature.name .phiSourceGivenTarget
  | .lexSourceGivenTarget => model.sourceName
  | .phiTargetGivenSource => Feature.name .phiTargetGivenSource
  | .lexTargetGivenSource => model.targetName
  | .pairCount => "CountFE"
  | .targetCount => "CountE"
  | .sourceCount => "CountF"

/-- The names of the columns that the settings ask for. -/
def featureNames (model : LexicalModel m) (config : Config) : List String :=
  config.columns.map model.columnName

/-- The model that the settings select, over a table of word probabilities. -/
def ofConfig (table : LexicalTable) (config : Config) : LexicalModel Logged :=
  if config.maxLexical then
    { sourceName := Feature.name .maxLexSourceGivenTarget
      targetName := Feature.name .maxLexTargetGivenSource
      sourceGivenTarget := PhrasePair.maxLexSourceGivenTarget table config
      targetGivenSource := PhrasePair.maxLexTargetGivenSource table config }
  else
    { sourceName := Feature.name .lexSourceGivenTarget
      targetName := Feature.name .lexTargetGivenSource
      sourceGivenTarget := PhrasePair.lexSourceGivenTarget table config
      targetGivenSource := PhrasePair.lexTargetGivenSource table config }

/-- Judges a phrase pair. -/
def judge [Monad m] (model : LexicalModel m) (config : Config) (phrases : PhraseCounts)
    (pair : PhrasePair) : m Verdict :=
  match phrases.occurrences? pair.ids with
  | none => pure .uncounted
  | some occurrences =>
    if config.phiFilter > occurrences.phiTargetGivenSource.value then pure .belowPhiFilter
    else do
      let lexSourceGivenTarget ← model.sourceGivenTarget pair
      let lexTargetGivenSource ← model.targetGivenSource pair
      if config.lexFilter > lexTargetGivenSource.value then return .belowLexFilter
      else return .accepted { occurrences, lexSourceGivenTarget, lexTargetGivenSource }

end LexicalModel

namespace Verdict

/-- The features of an accepted pair in the columns that the settings ask for. -/
def scores? (config : Config) : Verdict → Option (List Score)
  | .accepted features => some (config.columns.map features.value)
  | _ => none

/-- The line that is logged about a pair that was never counted. -/
def notice (pair : PhrasePair) : Verdict → List String
  | .uncounted =>
    [ "Can't get translation features for phrase pair: " ++ pair.text ++ " (ids " ++
        toString pair.ids.pair ++ " " ++ toString pair.ids.source ++ " " ++
        toString pair.ids.target ++ ")" ]
  | _ => []

end Verdict

/-- The scores of a phrase pair, if it is accepted. -/
def Counts.score (counts : Counts) (config : Config) (pair : PhrasePair) :
    Logged (Option (List Score)) := do
  let verdict ← (LexicalModel.ofConfig counts.words.table config).judge config counts.phrases pair
  Logged.write (verdict.notice pair)
  return verdict.scores? config

end PhraseTable
