import PhraseTable.Alignment.Sentences
import PhraseTable.Sentence
import PhraseTable.Text.Fields
import PhraseTable.Vocabulary

/-!
# Parallel corpora

A corpus holds the sentence pairs that were read and the vocabulary of their words. It is read line
by line, with the alignment beside it. A text whose sizes do not fit, or a bitext line without a
separator, changes nothing. A link outside of its sentence pair stops the reading at its line: the
sentence pairs before it and the words up to it have been taken in.
-/

set_option autoImplicit false

namespace PhraseTable

/-- Why a corpus cannot be read. -/
inductive CorpusError where
  /-- A bitext line has only one side. -/
  | missingSeparator (line : String)
  /-- The texts have different numbers of lines. -/
  | sizeMismatch (sources targets alignments : Nat)
  /-- A link lies outside of its sentence pair. -/
  | badLink (error : SentenceError) (lineNumber : Nat)
deriving DecidableEq, Repr

/-- The wording of the errors of corpora. -/
def CorpusError.message : CorpusError → String
  | .missingSeparator line =>
    Text.untilNull ("Missing ||| separator in bitext line: " ++ line)
  | .sizeMismatch sources targets alignments =>
    "Corpus size mismatch: " ++ toString sources ++ " source sentences, " ++
      toString targets ++ " target sentences, " ++ toString alignments ++ " alignments"
  | .badLink error lineNumber => error.message ++ " at line " ++ toString lineNumber

/-- A corpus and its vocabulary. -/
structure Corpus where
  vocabulary : Vocabulary
  /-- The sentence pairs in the order in which they were read. -/
  sentences : Array SentencePair

namespace Corpus

/-- The corpus without sentences. -/
def empty : Corpus := ⟨.empty, #[]⟩

/-- Reads one sentence pair. The words of the target side are taken in before those of the source
side, and all of them before the links are looked at. -/
def addSentence (corpus : Corpus) (source target : String) (links : List RawLink) :
    Corpus × Except SentenceError Unit :=
  let (vocabulary, targetIds) := corpus.vocabulary.internAll (Text.tokens target)
  let (vocabulary, sourceIds) := vocabulary.internAll (Text.tokens source)
  match SentencePair.ofLinks sourceIds targetIds links with
  | .error error => ({ corpus with vocabulary }, .error error)
  | .ok pair => (⟨vocabulary, corpus.sentences.push pair⟩, .ok ())

/-- Reads sentence pairs, the first of which stands at the given line. -/
def addSentences (corpus : Corpus) (lineNumber : Nat) :
    List (String × String × List RawLink) → Corpus × Except CorpusError Unit
  | [] => (corpus, .ok ())
  | (source, target, links) :: rest =>
    match corpus.addSentence source target links with
    | (corpus, .error error) => (corpus, .error (.badLink error lineNumber))
    | (corpus, .ok ()) => corpus.addSentences (lineNumber + 1) rest

/-- Reads the lines of both sides. -/
def addLines (corpus : Corpus) (sources targets : List String) (alignment : Alignment) :
    Corpus × Except CorpusError Unit :=
  if sources.length = targets.length ∧ sources.length = alignment.length then
    corpus.addSentences 1 (sources.zip (targets.zip alignment))
  else
    (corpus, .error (.sizeMismatch sources.length targets.length alignment.length))

/-- Reads a corpus from one text for each side. -/
def read (corpus : Corpus) (source target : String) (alignment : Alignment) :
    Corpus × Except CorpusError Unit :=
  corpus.addLines (Text.lines source) (Text.lines target) alignment

/-- The two sides of every line. -/
def splitSides : List String → Except CorpusError (List (String × String))
  | [] => .ok []
  | line :: rest =>
    match Text.sides? line with
    | none => .error (.missingSeparator line)
    | some sides => (splitSides rest).map (sides :: ·)

/-- Reads a corpus from a text with both sides on every line. -/
def readBitext (corpus : Corpus) (bitext : String) (alignment : Alignment) :
    Corpus × Except CorpusError Unit :=
  match splitSides (Text.lines bitext) with
  | .error error => (corpus, .error error)
  | .ok sides => corpus.addLines (sides.map Prod.fst) (sides.map Prod.snd) alignment

end Corpus

end PhraseTable
