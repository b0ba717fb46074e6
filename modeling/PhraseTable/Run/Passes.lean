import PhraseTable.Phrase.Index
import PhraseTable.Score.Scorer
import PhraseTable.Sentence

/-!
# The passes of a run and its table

Every pass counts the words of all sentences. The first pass also numbers the phrase pairs, and the
last one counts them. Then each distinct pair is scored once, as it stands where it occurs first,
and the accepted ones are the rows of the table.

The sentences and the phrase pairs of a pass are shared out among threads. Counts are sums, so they
do not tell in which order threads took their steps, but numbers do: an index numbers its keys in
the order in which they come to it. This order is a `Schedule`, and a pass takes it as it is. The
lines that the threads of one loop write to the log are kept in the order of the file.
-/

set_option autoImplicit false

namespace PhraseTable.Run

/-- What the passes work on. -/
structure PassState where
  counts : Counts
  /-- The numbers of the phrases. -/
  index : PhraseIndex
  /-- The occurrences of phrase pairs in the order of their file. -/
  pairs : List PhrasePair

/-- What stands before the first pass. -/
def PassState.start (config : Config) (pairs : List PhrasePair) : PassState :=
  ⟨.empty config, .empty, pairs⟩

/-- The members of a list at these places, in the order of the places. -/
def reorder {α : Type} (order : List Nat) (xs : List α) : List α :=
  order.filterMap fun i => xs[i]?

/-- The order in which the threads of a run come to its indexes: the places of those that come
before their turn. All others come behind them, in turn. Every order of entry is such a list, and a
place that does not exist or that was listed before has no part in it. -/
structure Schedule where
  /-- The phrase pairs that are numbered first, by their places in the phrase file. -/
  phrases : List Nat
  /-- The word pairs of a pass that get their slots as pairs first. On a later pass all of them have
  their slots already. -/
  pairs : List Nat
  /-- The word pairs of a pass whose source words get their slots first. -/
  sources : List Nat
  /-- The word pairs of a pass whose target words get their slots first. -/
  targets : List Nat
deriving DecidableEq, Repr

namespace Schedule

/-- All come in turn. -/
def inTurn : Schedule := ⟨[], [], [], []⟩

/-- What is left of a schedule with so many threads. One thread takes all in turn. -/
def forThreads (schedule : Schedule) (threads : Int) : Schedule :=
  if threads = 1 then inTurn else schedule

/-- The word counts with slots for those of these word pairs that come before their turn. -/
def reserve (schedule : Schedule) (wordPairs : List (Int × Int)) (words : WordCounts) :
    WordCounts :=
  { pairs := words.pairs.reserveAll (reorder schedule.pairs wordPairs)
    sources := words.sources.reserveAll ((reorder schedule.sources wordPairs).map Prod.fst)
    targets := words.targets.reserveAll ((reorder schedule.targets wordPairs).map Prod.snd) }

end Schedule

/-- The phrase pairs with their numbers. -/
def PassState.number (schedule : Schedule) (state : PassState) : PassState :=
  let (early, _) := state.index.insertAll (reorder schedule.phrases state.pairs)
  let (index, pairs) := early.insertAll state.pairs
  { state with index, pairs }

/-- One pass. Pairs are numbered after the words were counted. -/
def pass (schedule : Schedule) (sentences : List SentencePair) (state : PassState) (number : Nat) :
    Logged PassState := do
  let words := schedule.reserve (sentences.flatMap AlignedPair.wordPairs) state.counts.words
  let counts ← { state.counts with pass := number, words }.countSentences sentences
  let state := if number = 0 then state.number schedule else state
  let counts ← counts.countPhrases state.pairs
  return { state with counts }

/-- Notes the place of a pair under its number, unless an earlier place is noted there. -/
def notePlace (places : Array (Option Nat)) (entry : PhrasePair × Nat) : Array (Option Nat) :=
  places.modify entry.1.ids.pair.toNat fun place => place.or (some entry.2)

namespace PassState

/-- By the number of every pair, the place where it occurs first. -/
def firstPlaces (state : PassState) : Array (Option Nat) :=
  state.pairs.zipIdx.foldl notePlace (Array.replicate state.index.pairs.size none)

/-- The first occurrence of every pair, in the order of their numbers. -/
def firstOccurrences (state : PassState) : List PhrasePair :=
  let pairs := state.pairs.toArray
  state.firstPlaces.toList.filterMap fun place => place.bind fun place => pairs[place]?

end PassState

/-- A row of the table. -/
structure Row where
  /-- The pair where it occurs first. -/
  pair : PhrasePair
  scores : List Score

/-- The number of significant digits of a score in the table. -/
def tableDigits : Nat := 12

/-- The text of a row. -/
def Row.text (row : Row) : String :=
  row.pair.text ++ " |||" ++
    "".intercalate (row.scores.map fun score => " " ++ score.significant tableDigits)

/-- The rows with one more in front, if its pair is accepted. -/
def addRow (pair : PhrasePair) (scores : Option (List Score)) (rows : List Row) : List Row :=
  match scores with
  | none => rows
  | some scores => ⟨pair, scores⟩ :: rows

/-- The rows of the pairs that are accepted. -/
def scorePairs (counts : Counts) (config : Config) : List PhrasePair → Logged (List Row)
  | [] => pure []
  | pair :: rest => do
    let scores ← counts.score config pair
    addRow pair scores <$> scorePairs counts config rest

/-- A table, and what it was made from. -/
structure Table where
  vocabulary : Vocabulary
  /-- The counts and the numbers of the phrases after the last pass. -/
  state : PassState
  /-- The rows that were accepted. -/
  rows : List Row

end PhraseTable.Run
