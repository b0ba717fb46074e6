import PhraseTable.Config
import PhraseTable.Counts.Phrases
import PhraseTable.Counts.Words
import PhraseTable.Logged

/-!
# Counting in passes

Words are counted on every pass over the corpus, phrases on the final pass only. With exact counts
there is a pass before it, on which phrases get their numbers.
-/

set_option autoImplicit false

namespace PhraseTable

/-- All counts, and the pass that is under way. -/
structure Counts where
  config : Config
  /-- The current pass, counted from zero. -/
  pass : Nat
  words : WordCounts
  phrases : PhraseCounts

/-- A pass that is not among the passes over the corpus. -/
structure PassError where
  pass : Int
  passes : Nat
deriving DecidableEq, Repr

/-- The wording of the error. -/
def PassError.message (error : PassError) : String :=
  "Pass " ++ toString error.pass ++ " is outside of [0, " ++ toString error.passes ++ ")"

namespace Counts

/-- Nothing counted. -/
def empty (config : Config) : Counts := ⟨config, 0, .empty, .empty⟩

/-- Begins a pass. -/
def startPass (counts : Counts) (pass : Int) : Except PassError Counts :=
  if 0 ≤ pass ∧ pass < counts.config.passes then .ok { counts with pass := pass.toNat }
  else .error ⟨pass, counts.config.passes⟩

/-- Are phrases counted on the current pass? -/
def isFinalPass (counts : Counts) : Bool :=
  counts.pass + 1 == counts.config.passes

/-- The line that tells where a word pair is counted. -/
def wordLine (source target : Int) (slots : WordSlots) : String :=
  "Adding lexical alignment count: c(f=" ++ toString source ++ ", e=" ++ toString target ++
    ") slots=" ++ toString slots.pair ++ "," ++ toString slots.source ++ "," ++
    toString slots.target

/-- Counts a word pair. -/
def addWordPair (counts : Counts) (source target : Int) : Logged Counts := do
  let (words, slots) := counts.words.add source target
  Logged.writeIf (3 ≤ counts.config.debugLevel) [wordLine source target slots]
  return { counts with words }

/-- Counts word pairs in order. -/
def addWordPairs (counts : Counts) (wordPairs : List (Int × Int)) : Logged Counts :=
  wordPairs.foldlM (fun counts (source, target) => counts.addWordPair source target) counts

/-- Counts the words of a sentence pair. -/
def countSentence (counts : Counts) (sentence : SentencePair) : Logged Counts :=
  counts.addWordPairs sentence.wordPairs

/-- Counts the words of sentence pairs in order. -/
def countSentences (counts : Counts) (sentences : List SentencePair) : Logged Counts :=
  sentences.foldlM countSentence counts

/-- The lines that tell under which numbers a phrase pair is counted. -/
def phraseLines (pair : PhrasePair) : List String :=
  [ "Adding phrase to table: " ++ pair.sourceText ++ " -> " ++ pair.targetText
  , "Assigned IDs: key=" ++ toString pair.ids.pair ++ " fKey=" ++ toString pair.ids.source ++
      " eKey=" ++ toString pair.ids.target ]

/-- Counts a phrase pair on the final pass, and says whether it was counted. -/
def countPhrase (counts : Counts) (pair : PhrasePair) : Logged (Counts × Bool) :=
  if counts.isFinalPass then do
    Logged.writeIf (2 ≤ counts.config.debugLevel) (phraseLines pair)
    return ({ counts with phrases := counts.phrases.add pair.ids }, true)
  else return (counts, false)

/-- Counts phrase pairs in order. -/
def countPhrases (counts : Counts) (pairs : List PhrasePair) : Logged Counts :=
  pairs.foldlM (fun counts pair => Prod.fst <$> counts.countPhrase pair) counts

end Counts

end PhraseTable
