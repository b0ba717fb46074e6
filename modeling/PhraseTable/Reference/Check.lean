import PhraseTable.Logged
import PhraseTable.Phrase.Index
import PhraseTable.Reference.Summary
import PhraseTable.Score.Basic

/-!
# Checking a reference table

A reference table has five fields on a line: source phrase, target phrase, alignment, a second
alignment that is not looked at, and values. The phrase pair of a line is rebuilt, numbered and
scored, and its scores are compared with the values one by one. The first faulty line ends the
check; what was read before it stays in the vocabulary and in the index.

The scorer is a parameter with a state of its own, so the check says nothing about how scores come
about.
-/

set_option autoImplicit false

namespace PhraseTable

/-- What gives a phrase pair its scores, or rejects it. -/
abbrev Scorer (σ : Type) := σ → PhrasePair → σ × Logged (Option (List Score))

/-- What a check works on. -/
structure CheckState (σ : Type) where
  vocabulary : Vocabulary
  index : PhraseIndex
  /-- The state of the scorer. -/
  scorer : σ
  /-- What was compared so far. -/
  summary : Summary

/-- A line of a reference table as it is read. -/
structure ReferenceLine where
  /-- The five fields. -/
  fields : List String
  /-- The phrase pair, without numbers. -/
  pair : PhrasePair
  values : List Number.Reading

namespace ReferenceLine

/-- The text of a field. -/
def field (line : ReferenceLine) (i : Nat) : String :=
  line.fields.getD i ""

/-- The text of the values. -/
def valueText (line : ReferenceLine) : String :=
  line.field 4

/-- The texts of the phrase pair and of both alignments. -/
def pairText (line : ReferenceLine) : String :=
  " ||| ".intercalate (line.fields.take 4)

/-- Reads a line. Words stay in the vocabulary also if the line is faulty. -/
def read (vocabulary : Vocabulary) (line : String) :
    Vocabulary × Except ReferenceFault ReferenceLine :=
  match Text.fields line with
  | [source, target, alignment, second, values] =>
    match PhrasePair.build vocabulary source target alignment with
    | (vocabulary, .error error) => (vocabulary, .error (.phrase error))
    | (vocabulary, .ok pair) =>
      match (Text.tokens values).mapM Number.read with
      | .error error => (vocabulary, .error (.number error))
      | .ok readings =>
        (vocabulary, .ok ⟨[source, target, alignment, second, values], pair, readings⟩)
  | fields => (vocabulary, .error (.wrongFieldCount fields.length))

end ReferenceLine

/-- The number of decimal places of a score that is logged beside a value. -/
def comparedPlaces : Nat := 3

/-- The number of significant digits of a score that is logged in a row. -/
def scoreDigits : Nat := 6

/-- The text of a row of scores. -/
def scoresText (scores : List Score) : String :=
  "[" ++ ", ".intercalate (scores.map (Score.significant scoreDigits)) ++ "]"

namespace Summary

/-- Compares a value with the score in its column. -/
def compare (debugLevel : Int) (line : ReferenceLine) (pair : PhrasePair) (scores : List Score)
    (summary : Summary) (column : Nat) (reading : Number.Reading) : Logged Summary :=
  match scores[column]? with
  | none => do
    Logged.write ["No feature " ++ toString column ++ " in our model for: " ++ pair.text]
    return summary
  | some score => do
    let summary := { summary with features := summary.features + 1 }
    if agrees reading.value score.value then
      Logged.writeIf (2 ≤ debugLevel)
        ["Same score for feature " ++ toString column ++ " : " ++ reading.fixed comparedPlaces]
      return summary
    else
      Logged.write
        [ "Different score for feature " ++ toString column ++ " : " ++
            reading.fixed comparedPlaces ++ " != " ++ score.fixed comparedPlaces
        , "Phrase from reference phrase table: " ++ line.pairText
        , "Phrase from our model: " ++ pair.text
        , "Features from reference phrase table: " ++ line.valueText
        , "Features from our computation: " ++ scoresText scores ]
      return { summary with mismatches := summary.mismatches + 1 }

/-- Compares values with the scores from the given column on. -/
def compareFrom (debugLevel : Int) (line : ReferenceLine) (pair : PhrasePair)
    (scores : List Score) (summary : Summary) (column : Nat) :
    List Number.Reading → Logged Summary
  | [] => pure summary
  | reading :: rest => do
    let summary ← compare debugLevel line pair scores summary column reading
    compareFrom debugLevel line pair scores summary (column + 1) rest

end Summary

namespace CheckState

variable {σ : Type}

/-- Numbers, scores and compares the phrase pair of a line. -/
def checkPair (scorer : Scorer σ) (debugLevel : Int) (state : CheckState σ)
    (line : ReferenceLine) : Logged (CheckState σ) := do
  let (index, pair) := state.index.insert line.pair
  let summary := { state.summary with lines := state.summary.lines + 1 }
  let (scorerState, scored) := scorer state.scorer pair
  match ← scored with
  | none =>
    Logged.write
      [ "Phrase pair rejected by our model: " ++ pair.text
      , "Features from reference phrase table: " ++ line.valueText ]
    let summary := { summary with rejected := summary.rejected + 1 }
    return { state with index, scorer := scorerState, summary }
  | some scores =>
    let summary ← summary.compareFrom debugLevel line pair scores 0 line.values
    return { state with index, scorer := scorerState, summary }

/-- Checks the lines from the given line number on. Empty lines are passed over. -/
def checkLines (scorer : Scorer σ) (debugLevel : Int) (state : CheckState σ) (lineNumber : Nat) :
    List String → Logged (CheckState σ × Except ReferenceError Summary)
  | [] => pure (state, .ok state.summary)
  | line :: rest =>
    if line.isEmpty then state.checkLines scorer debugLevel (lineNumber + 1) rest
    else
      match ReferenceLine.read state.vocabulary line with
      | (vocabulary, .error fault) =>
        pure ({ state with vocabulary }, .error ⟨fault, line, lineNumber⟩)
      | (vocabulary, .ok read) => do
        let state ← checkPair scorer debugLevel { state with vocabulary } read
        state.checkLines scorer debugLevel (lineNumber + 1) rest

end CheckState

/-- Checks the text of a reference table. -/
def checkText {σ : Type} (scorer : Scorer σ) (debugLevel : Int) (vocabulary : Vocabulary)
    (index : PhraseIndex) (state : σ) (text : String) :
    Logged (CheckState σ × Except ReferenceError Summary) :=
  CheckState.checkLines scorer debugLevel ⟨vocabulary, index, state, .empty⟩ 1 (Text.lines text)

end PhraseTable
