import PhraseTable.Corpus
import PhraseTable.Phrase.Reader
import PhraseTable.Reference.File
import PhraseTable.Score.Scorer

/-!
# Sessions

A session keeps together what counting, scoring and checking share: one vocabulary, one phrase
index, one set of counts, the settings of the scorer and the phrase pairs that were read. Commands
act on it one after the other. A command that fails reports why, and leaves behind what it had done
before.
-/

set_option autoImplicit false

namespace PhraseTable

/-- A word as a command names it. -/
inductive WordRef where
  | id (id : Int)
  | text (word : String)
deriving DecidableEq, Repr

/-- A side of a sentence as a command gives it. -/
inductive SentenceSide where
  /-- As numbers of words. -/
  | ids (ids : List Int)
  /-- As a text, the words of which enter the vocabulary. -/
  | text (text : String)
deriving DecidableEq, Repr

/-- A sentence pair as a command gives it. -/
structure SentenceSpec where
  source : SentenceSide
  target : SentenceSide
  links : List RawLink
deriving DecidableEq, Repr

/-- What can be done in a session. Phrase pairs are named by their slots. -/
inductive Command where
  | parse (line : String)
  | build (source target alignment : String)
  /-- Takes a phrase pair as it is given. -/
  | pair (source target : List Int) (sourceWords targetWords : List String) (links : List RawLink)
  /-- Gives numbers to a phrase pair. -/
  | setIds (slot : Nat) (ids : PhraseIds)
  /-- Numbers a phrase pair. -/
  | index (slot : Nat)
  /-- Looks up the numbers of a phrase pair. -/
  | lookup (slot : Nat)
  | startPass (pass : Int)
  | sentence (sentence : SentenceSpec)
  /-- Counts the words of sentence pairs, after all of them were built. -/
  | sentences (sentences : List SentenceSpec)
  | addWords (source target : WordRef)
  | count (slot : Nat)
  | countAll
  | score (slot : Nat)
  /-- Changes the settings of the scorer. -/
  | rescore (config : Config)
  /-- Checks the text of a reference table. -/
  | check (text : String)
  /-- Checks the reference table under a file name. -/
  | checkFile (name : String) (entry : Option FileEntry)

/-- What a command gives back. -/
inductive Answer where
  /-- Nothing but the changes to the session. -/
  | done
  /-- The slot of a new phrase pair. -/
  | slot (slot : Nat)
  /-- Whether a phrase pair has all its numbers. -/
  | known (known : Bool)
  /-- Whether a phrase pair was counted. -/
  | counted (counted : Bool)
  /-- The scores of a phrase pair, if it is accepted. -/
  | scored (scores : Option (List Score))
  | checked (summary : Summary)
  /-- The outcome of the check of a file, if it could be read. -/
  | checkedFile (summary : Option Summary)

/-- Why a command failed. -/
inductive SessionError where
  | phrase (error : PhraseError)
  | sentence (error : SentenceError)
  | pass (error : PassError)
  | reference (error : ReferenceError)
deriving DecidableEq, Repr

/-- The wording of the errors of sessions. -/
def SessionError.message : SessionError → String
  | .phrase error => error.message
  | .sentence error => error.message
  | .pass error => error.message
  | .reference error => error.message

/-- What counting, scoring and checking share. -/
structure Session where
  vocabulary : Vocabulary
  index : PhraseIndex
  counts : Counts
  /-- The settings of the scorer. -/
  scoring : Config
  /-- The phrase pairs that were read. -/
  pairs : Array PhrasePair

namespace Session

/-- The session in which nothing was done. -/
def empty (config : Config) : Session :=
  ⟨.empty, .empty, .empty config, config, #[]⟩

/-- The phrase pair in a slot. -/
def pairAt (session : Session) (slot : Nat) : PhrasePair :=
  session.pairs.getD slot .empty

/-- The session with another phrase pair in a slot. -/
def setPair (session : Session) (slot : Nat) (pair : PhrasePair) : Session :=
  { session with pairs := session.pairs.setIfInBounds slot pair }

/-- The number of a word, or -1 for an unknown one. -/
def wordId (session : Session) : WordRef → Int
  | .id id => id
  | .text word => idOrUnassigned (session.vocabulary.find? word)

/-- Puts a phrase pair that was read into a new slot. -/
def addPair (session : Session) (vocabulary : Vocabulary) (pair : Except PhraseError PhrasePair) :
    Session × Except SessionError Answer :=
  match pair with
  | .error error => ({ session with vocabulary }, .error (.phrase error))
  | .ok pair =>
    ({ session with vocabulary, pairs := session.pairs.push pair },
      .ok (.slot session.pairs.size))

/-- Reads a side of a sentence. -/
def readSide (vocabulary : Vocabulary) : SentenceSide → Vocabulary × List Int
  | .ids ids => (vocabulary, ids)
  | .text text => vocabulary.internAll (Text.tokens text)

/-- Builds a sentence pair. The words of both sides are taken in first. -/
def readSentence (vocabulary : Vocabulary) (sentence : SentenceSpec) :
    Vocabulary × Except SentenceError SentencePair :=
  let (vocabulary, source) := readSide vocabulary sentence.source
  let (vocabulary, target) := readSide vocabulary sentence.target
  (vocabulary, SentencePair.ofLinks source target sentence.links)

/-- Builds sentence pairs up to the first one that fails. -/
def readSentences (vocabulary : Vocabulary) :
    List SentenceSpec → Vocabulary × Except SentenceError (List SentencePair)
  | [] => (vocabulary, .ok [])
  | sentence :: rest =>
    match readSentence vocabulary sentence with
    | (vocabulary, .error error) => (vocabulary, .error error)
    | (vocabulary, .ok pair) =>
      let (vocabulary, pairs) := readSentences vocabulary rest
      (vocabulary, pairs.map (pair :: ·))

/-- The scorer of the session. It has no state, since scoring changes no count. -/
def scorer (session : Session) : Scorer Unit :=
  fun _ pair => ((), session.counts.score session.scoring pair)

/-- Takes over the words and phrases that a check has met. -/
def afterCheck (session : Session) (state : CheckState Unit) : Session :=
  { session with vocabulary := state.vocabulary, index := state.index }

/-- Counts sentence pairs, if they could be built. -/
def countBuilt (session : Session) (vocabulary : Vocabulary)
    (sentences : Except SentenceError (List SentencePair)) :
    Logged (Session × Except SessionError Answer) :=
  match sentences with
  | .error error => pure ({ session with vocabulary }, .error (.sentence error))
  | .ok sentences => do
    let counts ← session.counts.countSentences sentences
    return ({ session with vocabulary, counts }, .ok .done)

/-- Carries out a command. -/
def step (session : Session) : Command → Logged (Session × Except SessionError Answer)
  | .parse line =>
    let (vocabulary, pair) := PhrasePair.parse session.vocabulary line
    pure (session.addPair vocabulary pair)
  | .build source target alignment =>
    let (vocabulary, pair) := PhrasePair.build session.vocabulary source target alignment
    pure (session.addPair vocabulary pair)
  | .pair source target sourceWords targetWords links =>
    let pair := PhrasePair.ofLinks source target sourceWords targetWords links
    pure (session.addPair session.vocabulary (pair.mapError .link))
  | .setIds slot ids =>
    pure (session.setPair slot ((session.pairAt slot).withIds ids), .ok .done)
  | .index slot =>
    let (index, pair) := session.index.insert (session.pairAt slot)
    pure ({ session with index }.setPair slot pair, .ok .done)
  | .lookup slot =>
    let (known, pair) := session.index.lookup (session.pairAt slot)
    pure (session.setPair slot pair, .ok (.known known))
  | .startPass pass =>
    match session.counts.startPass pass with
    | .error error => pure (session, .error (.pass error))
    | .ok counts => pure ({ session with counts }, .ok .done)
  | .sentence sentence =>
    let (vocabulary, pair) := readSentence session.vocabulary sentence
    session.countBuilt vocabulary (pair.map ([·]))
  | .sentences sentences =>
    let (vocabulary, pairs) := readSentences session.vocabulary sentences
    session.countBuilt vocabulary pairs
  | .addWords source target => do
    let counts ← session.counts.addWordPair (session.wordId source) (session.wordId target)
    return ({ session with counts }, .ok .done)
  | .count slot => do
    let (counts, counted) ← session.counts.countPhrase (session.pairAt slot)
    return ({ session with counts }, .ok (.counted counted))
  | .countAll => do
    let counts ← session.counts.countPhrases session.pairs.toList
    return ({ session with counts }, .ok .done)
  | .score slot => do
    let scores ← session.counts.score session.scoring (session.pairAt slot)
    return (session, .ok (.scored scores))
  | .rescore config => pure ({ session with scoring := config }, .ok .done)
  | .check text => do
    let (state, outcome) ←
      checkText session.scorer session.scoring.debugLevel session.vocabulary session.index () text
    match outcome with
    | .error error => return (session.afterCheck state, .error (.reference error))
    | .ok summary => return (session.afterCheck state, .ok (.checked summary))
  | .checkFile name entry => do
    let (state, summary) ←
      checkEntry session.scorer session.scoring.debugLevel session.vocabulary session.index ()
        name entry
    return (session.afterCheck state, .ok (.checkedFile summary))

/-- Carries out commands one after the other. -/
def run (session : Session) : List Command → Logged (Session × List (Except SessionError Answer))
  | [] => pure (session, [])
  | command :: rest => do
    let (session, answer) ← session.step command
    (fun (session, answers) => (session, answer :: answers)) <$> session.run rest

end Session

end PhraseTable
