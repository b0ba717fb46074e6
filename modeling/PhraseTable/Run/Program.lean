import PhraseTable.Duration
import PhraseTable.Run.Options
import PhraseTable.Run.Passes

/-!
# A run from files to the table

A run reads its files, passes over the corpus, scores the phrase pairs, prints the table and, if it
is asked to, checks a reference table against it. It tells on its log what it is doing and how long
each stage took. An error ends it with the exit status one, and before the table is printed.

What a run needs of the world is an `Environment`: files, a log, an output, a stopwatch, and the
order in which its threads get on. In `Environment.recorded` these are plain data, so that a whole
run is a function.
-/

set_option autoImplicit false

namespace PhraseTable.Run

/-- What a run needs of the world. -/
structure Environment (m : Type → Type) where
  /-- What stands under a file name. -/
  lookUp : String → m (Option FileEntry)
  log : List String → m Unit
  print : List String → m Unit
  /-- Sets the stopwatch to zero. -/
  restart : m Unit
  /-- The seconds on the stopwatch as a text. -/
  elapsed : m String
  /-- The order in which the threads come to the indexes, if there is more than one. -/
  schedule : Schedule

/-- An outcome as a step of a run. -/
def step {m : Type → Type} [Monad m] {α : Type} (outcome : Except RunError α) :
    ExceptT RunError m α :=
  ExceptT.mk (pure outcome)

namespace Environment

variable {m : Type → Type} [Monad m] (env : Environment m)

/-- The text of a file. -/
def readFile (name : String) : ExceptT RunError m String := do
  step (contentOf name (← env.lookUp name))

/-- Writes the log of a value, and gives the value. -/
def tell {α : Type} (logged : Logged α) : ExceptT RunError m α := do
  env.log logged.log
  return logged.value

/-- A stage that is announced, and reported with the seconds that it took. -/
def stage {α : Type} (opening : String) (work : ExceptT RunError m α)
    (closing : α → String → String) : ExceptT RunError m α := do
  env.restart
  env.log [opening]
  let result ← work
  env.log [closing result (← env.elapsed)]
  return result

/-- Reads the alignment and the corpus. -/
def readCorpus (options : Options) (files : CorpusFiles) : ExceptT RunError m Corpus := do
  let alignmentText ← env.readFile options.alignment
  let alignment ← step ((Alignment.ofText alignmentText).mapError .alignment)
  let (corpus, outcome) ← match files with
    | .bitext name => do
      let bitext ← env.readFile name
      pure (Corpus.empty.readBitext bitext alignment)
    | .sides sourceName targetName => do
      let source ← env.readFile sourceName
      let target ← env.readFile targetName
      pure (Corpus.empty.read source target alignment)
  step ((outcome.map fun () => corpus).mapError .corpus)

/-- Makes the passes from the given one on, as many as there are left. -/
def makePasses (schedule : Schedule) (sentences : List SentencePair) (passes number : Nat)
    (state : PassState) : Nat → ExceptT RunError m PassState
  | 0 => pure state
  | left + 1 => do
    let title := "Pass " ++ toString (number + 1)
    let state ← env.stage (title ++ " of " ++ toString passes ++ "...")
      (env.tell (pass schedule sentences state number))
      fun _ seconds => tookLine title seconds
    makePasses schedule sentences passes (number + 1) state left

/-- Reads the corpus and the phrase pairs, counts them, and prints the table. -/
def makeTable (options : Options) (files : CorpusFiles) : ExceptT RunError m Table := do
  let corpus ← env.stage "Reading parallel corpus and alignment..."
    (env.readCorpus options files)
    fun corpus seconds =>
      tookLine ("Reading " ++ toString corpus.sentences.size ++ " sentence pairs") seconds
  let (vocabulary, pairs) ← env.stage "Reading phrase pairs..."
    (do
      let text ← env.readFile options.phrases
      step (readPhrases options.phrases corpus.vocabulary 1 (Text.lines text)))
    fun (_, pairs) seconds =>
      tookLine ("Reading " ++ toString pairs.length ++ " phrase pairs") seconds
  let passes := options.config.passes
  let schedule := env.schedule.forThreads options.threads
  let state ← env.makePasses schedule corpus.sentences.toList passes 0
    (PassState.start options.config pairs) passes
  env.log [toString state.index.pairs.size ++ " distinct phrase pairs, " ++
    toString state.counts.words.pairs.index.size ++ " distinct word pairs"]
  let distinct := state.firstOccurrences
  let rows ← env.stage "Scoring phrase pairs..."
    (do
      let rows ← env.tell (scorePairs state.counts options.config distinct)
      env.print (rows.map Row.text)
      return rows)
    fun rows seconds => tookLine ("Scoring kept " ++ toString rows.length ++ " of " ++
      toString distinct.length ++ " phrase pairs and") seconds
  return { vocabulary, state, rows }

/-- Checks the reference table of a run, if there is one, against what the run has counted. -/
def checkReference (options : Options) (table : Table) : ExceptT RunError m Unit := do
  match options.check with
  | none => return ()
  | some name =>
    env.log ["Checking against " ++ name ++ "..."]
    let scorer : Scorer Unit := fun _ pair => ((), table.state.counts.score options.config pair)
    let (_, summary) ← env.tell
      (checkEntry scorer options.config.debugLevel table.vocabulary table.state.index () name
        (← env.lookUp name))
    env.log (summary.elim [] fun summary => [summary.text])

/-- The line that asks for a corpus. -/
def corpusRequired : String :=
  "A parallel corpus is required. Use -f (source) with -e (target) or -b (bitext)."

/-- A whole run. It gives the exit status. -/
def run (options : Options) : m Nat := do
  match options.corpusFiles? with
  | none =>
    env.log [corpusRequired]
    return 1
  | some files =>
    env.log ["Phrase scoring will use " ++ toString options.threads ++ " threads."]
    env.log options.config.report
    match ← (env.makeTable options files >>= env.checkReference options).run with
    | .ok () => return 0
    | .error error =>
      env.log [error.message]
      return 1

end Environment

/-- What a run has written. -/
structure Transcript where
  output : List String
  log : List String
deriving DecidableEq, Repr

/-- The environment in which files are given as a function, with a stopwatch that always shows the
same text and threads that come in the given order. What is written is kept. -/
def Environment.recorded (files : String → Option FileEntry) (seconds : String)
    (schedule : Schedule) : Environment (StateM Transcript) where
  lookUp name := pure (files name)
  log lines := modify fun transcript => { transcript with log := transcript.log ++ lines }
  print lines := modify fun transcript => { transcript with output := transcript.output ++ lines }
  restart := pure ()
  elapsed := pure seconds
  schedule := schedule

/-- What a run on the given files writes, and its exit status. -/
def runRecorded (files : String → Option FileEntry) (seconds : String) (options : Options)
    (schedule : Schedule := .inTurn) : Nat × Transcript :=
  ((Environment.recorded files seconds schedule).run options).run ⟨[], []⟩

end PhraseTable.Run
