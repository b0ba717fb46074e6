import PhraseTable.Proofs.Outcome
import PhraseTable.Proofs.PhraseReader
import PhraseTable.Proofs.Run.Passes
import PhraseTable.Run.Program

/-!
# What a run gives and writes

A step of a recorded run gives an outcome and adds lines to the output and to the log, whatever
stands there already: `Yields`. From the steps that the environment offers this goes on to the
stages of a run. A run that can read its files (`readingsOf`) makes the table `tableOf`, and its
output is the text of the rows (`yields_makeTable`). A run that cannot writes no output. The check
of a reference table only adds to the log, so it has no part in the outcome of a run
(`runRecorded_of_readings`, `exists_readings_of_runRecorded`).
-/

set_option autoImplicit false

namespace PhraseTable.Run

/-! ## Steps of a recorded run -/

/-- Whatever was written before, the program gives this outcome and writes these lines. -/
def Yields {α : Type} (program : ExceptT RunError (StateM Transcript) α)
    (outcome : Except RunError α) (output log : List String) : Prop :=
  ∀ before : Transcript,
    program.run.run before = (outcome, ⟨before.output ++ output, before.log ++ log⟩)

namespace Yields

variable {α β : Type} {program : ExceptT RunError (StateM Transcript) α}
  {next : α → ExceptT RunError (StateM Transcript) β} {output log output' log' : List String}

/-- What is returned yields its value and writes nothing. -/
theorem pure (value : α) : Yields (Pure.pure value) (.ok value) [] [] := by
  intro before
  rw [List.append_nil, List.append_nil]
  rfl

/-- An outcome is yielded as it is. -/
theorem step (outcome : Except RunError α) : Yields (Run.step outcome) outcome [] [] := by
  intro before
  rw [List.append_nil, List.append_nil]
  rfl

/-- After a value the next step follows, and writes behind the first one. -/
theorem bind_ok {value : α} {outcome : Except RunError β}
    (h : Yields program (.ok value) output log)
    (hnext : Yields (next value) outcome output' log') :
    Yields (program >>= next) outcome (output ++ output') (log ++ log') := by
  intro before
  have hfirst := h before
  have hsecond := hnext ⟨before.output ++ output, before.log ++ log⟩
  rw [ExceptT.run_bind, StateT.run_bind, hfirst]
  rw [List.append_assoc, List.append_assoc] at hsecond
  exact hsecond

/-- What is written may be rewritten. -/
theorem of_eq {outcome : Except RunError α} (h : Yields program outcome output log)
    (houtput : output = output') (hlog : log = log') : Yields program outcome output' log' := by
  subst houtput hlog
  exact h

/-- After an error no step follows. -/
theorem bind_error {error : RunError} (h : Yields program (.error error) output log) :
    Yields (program >>= next) (.error error) output log := by
  intro before
  have hfirst := h before
  rw [ExceptT.run_bind, StateT.run_bind, hfirst]
  rfl

/-- Steps that write nothing follow each other as their outcomes do. -/
theorem bind_silent {outcome : Except RunError α} {nextOutcome : α → Except RunError β}
    (h : Yields program outcome [] [])
    (hnext : ∀ value : α, Yields (next value) (nextOutcome value) [] []) :
    Yields (program >>= next) (outcome >>= nextOutcome) [] [] := by
  cases outcome with
  | error error => exact h.bind_error
  | ok value => exact h.bind_ok (hnext value)

end Yields

namespace Environment

variable (files : String → Option FileEntry) (seconds : String) (schedule : Schedule)

/-- Lines are written to the log. -/
theorem yields_log (lines : List String) :
    Yields (liftM ((recorded files seconds schedule).log lines)) (.ok ()) [] lines := by
  intro before
  rw [List.append_nil]
  rfl

/-- Lines are printed. -/
theorem yields_print (lines : List String) :
    Yields (liftM ((recorded files seconds schedule).print lines)) (.ok ()) lines [] := by
  intro before
  rw [List.append_nil]
  rfl

/-- A file is looked up among the files of the run. -/
theorem yields_lookUp (name : String) :
    Yields (liftM ((recorded files seconds schedule).lookUp name)) (.ok (files name)) [] [] :=
  Yields.pure (files name)

/-- Restarting the stopwatch leaves no trace. -/
theorem yields_restart : Yields (liftM (recorded files seconds schedule).restart) (.ok ()) [] [] :=
  Yields.pure ()

/-- The stopwatch shows the given time. -/
theorem yields_elapsed :
    Yields (liftM (recorded files seconds schedule).elapsed) (.ok seconds) [] [] :=
  Yields.pure seconds

/-- A file yields its content, or the error of its absence. -/
theorem yields_readFile (name : String) :
    Yields ((recorded files seconds schedule).readFile name) (contentOf name (files name)) [] [] :=
  (yields_lookUp files seconds schedule name).bind_ok (.step _)

/-- A logged value yields the value, and its lines are written to the log. -/
theorem yields_tell {α : Type} (logged : Logged α) :
    Yields ((recorded files seconds schedule).tell logged) (.ok logged.value) [] logged.log := by
  have h : Yields ((recorded files seconds schedule).tell logged) (.ok logged.value) _ _ :=
    (yields_log files seconds schedule logged.log).bind_ok (.pure logged.value)
  exact h.of_eq rfl (List.append_nil _)

/-- A stage writes its opening line, its work and its closing line with the time. -/
theorem yields_stage {α : Type} {opening : String} {work : ExceptT RunError (StateM Transcript) α}
    {closing : α → String → String} {value : α} {output log : List String}
    (h : Yields work (.ok value) output log) :
    Yields ((recorded files seconds schedule).stage opening work closing) (.ok value) output
      (opening :: log ++ [closing value seconds]) := by
  have hclose :
      Yields ((recorded files seconds schedule).stage opening work closing) (.ok value) _ _ :=
    (yields_restart files seconds schedule).bind_ok <|
    (yields_log files seconds schedule [opening]).bind_ok <|
    h.bind_ok <|
    (yields_elapsed files seconds schedule).bind_ok <|
    (yields_log files seconds schedule [closing value seconds]).bind_ok (.pure value)
  exact hclose.of_eq (by simp) (by simp)

/-- A stage whose work fails writes no closing line. -/
theorem yields_stage_error {α : Type} {opening : String}
    {work : ExceptT RunError (StateM Transcript) α} {closing : α → String → String}
    {error : RunError} {output log : List String} (h : Yields work (.error error) output log) :
    Yields ((recorded files seconds schedule).stage opening work closing) (.error error) output
      (opening :: log) := by
  have hstop :
      Yields ((recorded files seconds schedule).stage opening work closing) (.error error) _ _ :=
    (yields_restart files seconds schedule).bind_ok <|
    (yields_log files seconds schedule [opening]).bind_ok <|
    h.bind_error
  exact hstop.of_eq (by simp) (by simp)

end Environment

/-! ## Reading the files -/

/-- A file has a content just when it is a text. -/
theorem contentOf_eq_ok_iff {name content : String} {entry : Option FileEntry} :
    contentOf name entry = .ok content ↔ entry = some (.text content) := by
  unfold contentOf
  split <;> simp

/-- A corpus that was read, if no line was refused. -/
def acceptedCorpus (read : Corpus × Except CorpusError Unit) : Except RunError Corpus :=
  (read.2.map fun () => read.1).mapError .corpus

/-- The corpus of a run, as its files make it. -/
def corpusOf (files : String → Option FileEntry) (options : Options) (corpusFiles : CorpusFiles) :
    Except RunError Corpus := do
  let alignmentText ← contentOf options.alignment (files options.alignment)
  let alignment ← (Alignment.ofText alignmentText).mapError .alignment
  match corpusFiles with
  | .bitext name =>
    let bitext ← contentOf name (files name)
    acceptedCorpus (Corpus.empty.readBitext bitext alignment)
  | .sides sourceName targetName =>
    let source ← contentOf sourceName (files sourceName)
    let target ← contentOf targetName (files targetName)
    acceptedCorpus (Corpus.empty.read source target alignment)

/-- What a run reads before it counts. -/
structure Readings where
  corpus : Corpus
  /-- The words of the corpus and of the phrases. -/
  vocabulary : Vocabulary
  pairs : List PhrasePair

/-- The phrase pairs of a run, and the vocabulary with their words. -/
def phrasesOf (files : String → Option FileEntry) (options : Options) (vocabulary : Vocabulary) :
    Except RunError (Vocabulary × List PhrasePair) := do
  let text ← contentOf options.phrases (files options.phrases)
  readPhrases options.phrases vocabulary 1 (Text.lines text)

/-- What a run reads before it counts, or why it cannot. -/
def readingsOf (files : String → Option FileEntry) (options : Options) (corpusFiles : CorpusFiles) :
    Except RunError Readings :=
  match corpusOf files options corpusFiles with
  | .error error => .error error
  | .ok corpus =>
    (phrasesOf files options corpus.vocabulary).map fun (vocabulary, pairs) =>
      ⟨corpus, vocabulary, pairs⟩

section Readings

variable {files : String → Option FileEntry} {options : Options} {corpusFiles : CorpusFiles}

/-- The files of a run are read just when its corpus is read, and its phrases with the words of this
corpus. -/
theorem readingsOf_eq_ok_iff {readings : Readings} :
    readingsOf files options corpusFiles = .ok readings ↔
      corpusOf files options corpusFiles = .ok readings.corpus ∧
        phrasesOf files options readings.corpus.vocabulary =
          .ok (readings.vocabulary, readings.pairs) := by
  obtain ⟨corpus, vocabulary, pairs⟩ := readings
  unfold readingsOf
  cases corpusOf files options corpusFiles with
  | error error => exact iff_of_false nofun fun h => nomatch h.1
  | ok corpus' =>
    dsimp only
    constructor
    · intro h
      cases hphrases : phrasesOf files options corpus'.vocabulary with
      | error error =>
        rw [hphrases] at h
        cases h
      | ok read =>
        rw [hphrases] at h
        cases h
        exact ⟨rfl, hphrases⟩
    · rintro ⟨hcorpus, hphrases⟩
      cases hcorpus
      rw [hphrases]
      rfl

/-- A run that can read its files has a phrase file. -/
theorem exists_text_of_readingsOf {readings : Readings}
    (h : readingsOf files options corpusFiles = .ok readings) :
    ∃ text : String, files options.phrases = some (.text text) := by
  obtain ⟨text, htext, -⟩ := exists_of_bind_eq_ok (readingsOf_eq_ok_iff.1 h).2
  exact ⟨text, contentOf_eq_ok_iff.1 htext⟩

/-- The pairs of a run stand on the lines of its phrase file, with the symbols that their words have
in the vocabulary at the end. -/
theorem readAs_of_readingsOf {readings : Readings} {text : String}
    (h : readingsOf files options corpusFiles = .ok readings)
    (htext : files options.phrases = some (.text text)) :
    ReadAs readings.vocabulary.symbolOf (phraseLines (Text.lines text)) readings.pairs := by
  have hphrases := (readingsOf_eq_ok_iff.1 h).2
  unfold phrasesOf at hphrases
  rw [htext] at hphrases
  obtain ⟨-, -, hread⟩ := readPhrases_eq_ok hphrases
  exact hread readings.vocabulary (.refl _)

end Readings

/-- The table that is made from what was read. -/
def tableOf (options : Options) (schedule : Schedule) (readings : Readings) : Table :=
  let state := finalState options.config (schedule.forThreads options.threads)
    readings.corpus.sentences.toList readings.pairs
  { vocabulary := readings.vocabulary
    state
    rows := (scorePairs state.counts options.config state.firstOccurrences).value }

/-- The last line of the log of a run without an error. -/
def scoringLine (kept distinct : Nat) (seconds : String) : String :=
  tookLine ("Scoring kept " ++ toString kept ++ " of " ++ toString distinct ++ " phrase pairs and")
    seconds

namespace Environment

variable (files : String → Option FileEntry) (seconds : String) (schedule : Schedule)
  (options : Options) (corpusFiles : CorpusFiles)

/-- Reading the corpus yields what its files make, and writes nothing. -/
theorem yields_readCorpus :
    Yields ((recorded files seconds schedule).readCorpus options corpusFiles)
      (corpusOf files options corpusFiles) [] [] := by
  apply (yields_readFile files seconds schedule options.alignment).bind_silent
  intro alignmentText
  apply (Yields.step _).bind_silent
  intro alignment
  cases corpusFiles with
  | bitext name =>
    apply (yields_readFile files seconds schedule name).bind_silent
    intro bitext
    exact (Yields.pure _).bind_ok (.step _)
  | sides sourceName targetName =>
    apply (yields_readFile files seconds schedule sourceName).bind_silent
    intro source
    apply (yields_readFile files seconds schedule targetName).bind_silent
    intro target
    exact (Yields.pure _).bind_ok (.step _)

/-- The passes that are left are made one after the other. -/
theorem yields_makePasses (order : Schedule) (sentences : List SentencePair)
    (passes number left : Nat) (state : PassState) :
    ∃ log : List String,
      Yields ((recorded files seconds schedule).makePasses order sentences passes number state left)
        (.ok (passesFrom order sentences number state left)) [] log := by
  induction left generalizing number state with
  | zero => exact ⟨[], .pure state⟩
  | succ left ih =>
    obtain ⟨log, hrest⟩ := ih (number + 1) (pass order sentences state number).value
    have hpass := yields_tell files seconds schedule (pass order sentences state number)
    exact ⟨_, (yields_stage files seconds schedule hpass).bind_ok hrest⟩

/-- Reading the phrases yields what their file makes, and writes nothing. -/
theorem yields_readPhrases (vocabulary : Vocabulary) :
    Yields
      (do
        let text ← (recorded files seconds schedule).readFile options.phrases
        step (readPhrases options.phrases vocabulary 1 (Text.lines text)))
      (phrasesOf files options vocabulary) [] [] := by
  apply (yields_readFile files seconds schedule options.phrases).bind_silent
  intro text
  exact .step _

/-- The accepted pairs are scored, and then printed. -/
theorem yields_printRows (counts : Counts) (config : Config) (pairs : List PhrasePair) :
    Yields
      (do
        let rows ← (recorded files seconds schedule).tell (scorePairs counts config pairs)
        (recorded files seconds schedule).print (rows.map Row.text)
        return rows)
      (.ok (scorePairs counts config pairs).value)
      ((scorePairs counts config pairs).value.map Row.text)
      (scorePairs counts config pairs).log := by
  refine Yields.of_eq
    ((yields_tell files seconds schedule (scorePairs counts config pairs)).bind_ok <|
      (yields_print files seconds schedule _).bind_ok (.pure _)) ?_ ?_
  · rw [List.append_nil, List.nil_append]
  · rw [List.append_nil, List.append_nil]

variable {files options corpusFiles}

/-- A run that reads its files makes the table and prints its rows, and then tells how many pairs
it has kept. -/
theorem yields_makeTable {readings : Readings}
    (h : readingsOf files options corpusFiles = .ok readings) :
    ∃ log : List String,
      Yields ((recorded files seconds schedule).makeTable options corpusFiles)
        (.ok (tableOf options schedule readings))
        ((tableOf options schedule readings).rows.map Row.text) log ∧
      log.getLast? = some (scoringLine (tableOf options schedule readings).rows.length
        (tableOf options schedule readings).state.firstOccurrences.length seconds) := by
  obtain ⟨corpus, vocabulary, pairs⟩ := readings
  obtain ⟨hcorpus, hphrases⟩ := readingsOf_eq_ok_iff.1 h
  have hreadCorpus := yields_readCorpus files seconds schedule options corpusFiles
  have hreadPhrases := yields_readPhrases files seconds schedule options corpus.vocabulary
  rw [hcorpus] at hreadCorpus
  rw [hphrases] at hreadPhrases
  obtain ⟨passLog, hpasses⟩ := yields_makePasses files seconds schedule
    (schedule.forThreads options.threads) corpus.sentences.toList options.config.passes 0
    options.config.passes (PassState.start options.config pairs)
  change Yields _ (.ok (finalState options.config (schedule.forThreads options.threads)
    corpus.sentences.toList pairs)) [] passLog at hpasses
  have hall : Yields ((recorded files seconds schedule).makeTable options corpusFiles)
      (.ok (tableOf options schedule ⟨corpus, vocabulary, pairs⟩)) _ _ :=
    (yields_stage files seconds schedule hreadCorpus).bind_ok <|
    (yields_stage files seconds schedule hreadPhrases).bind_ok <|
    hpasses.bind_ok <|
    (yields_log files seconds schedule _).bind_ok <|
    (yields_stage files seconds schedule (yields_printRows files seconds schedule _ _ _)).bind_ok <|
    .pure _
  refine ⟨_, hall.of_eq ?_ rfl, ?_⟩
  · simp only [List.nil_append, List.append_nil]
    rfl
  · simp only [List.append_nil, List.getLast?_append, List.getLast?_singleton, Option.some_or]
    rfl

/-- A run that can read its files makes its table, whatever was written before. -/
theorem exists_makeTable {readings : Readings}
    (h : readingsOf files options corpusFiles = .ok readings) (before : Transcript) :
    ∃ after : Transcript,
      ((recorded files seconds schedule).makeTable options corpusFiles).run.run before =
        (.ok (tableOf options schedule readings), after) := by
  obtain ⟨log, hyields, -⟩ := yields_makeTable seconds schedule h
  exact ⟨_, hyields before⟩

/-- When the files cannot be read, there is no table, and nothing is printed. -/
theorem yields_makeTable_error {error : RunError}
    (h : readingsOf files options corpusFiles = .error error) :
    ∃ log : List String,
      Yields ((recorded files seconds schedule).makeTable options corpusFiles) (.error error) []
        log := by
  have hreadCorpus := yields_readCorpus files seconds schedule options corpusFiles
  unfold readingsOf at h
  cases hcorpus : corpusOf files options corpusFiles with
  | error error' =>
    rw [hcorpus] at h hreadCorpus
    cases h
    exact ⟨_, (yields_stage_error files seconds schedule hreadCorpus).bind_error⟩
  | ok corpus =>
    rw [hcorpus] at h hreadCorpus
    dsimp only at h
    have hreadPhrases := yields_readPhrases files seconds schedule options corpus.vocabulary
    cases hphrases : phrasesOf files options corpus.vocabulary with
    | error error' =>
      rw [hphrases] at h hreadPhrases
      cases h
      exact ⟨_, (yields_stage files seconds schedule hreadCorpus).bind_ok
        (yields_stage_error files seconds schedule hreadPhrases).bind_error⟩
    | ok read =>
      rw [hphrases] at h
      cases h

/-- A run that makes a table has read its files, and has written the rows of the table. -/
theorem makeTable_eq_ok {before after : Transcript} {table : Table}
    (h : ((recorded files seconds schedule).makeTable options corpusFiles).run.run before =
      (.ok table, after)) :
    (∃ readings : Readings, readingsOf files options corpusFiles = .ok readings ∧
      table = tableOf options schedule readings) ∧
      after.output = before.output ++ table.rows.map Row.text ∧
      after.log.getLast? = some (scoringLine table.rows.length
        table.state.firstOccurrences.length seconds) := by
  cases hread : readingsOf files options corpusFiles with
  | error error =>
    obtain ⟨log, hyields⟩ := yields_makeTable_error seconds schedule hread
    rw [hyields before, Prod.mk.injEq] at h
    exact nomatch h.1
  | ok readings =>
    obtain ⟨log, hyields, hlast⟩ := yields_makeTable seconds schedule hread
    rw [hyields before, Prod.mk.injEq, Except.ok.injEq] at h
    obtain ⟨rfl, rfl⟩ := h
    refine ⟨⟨readings, rfl, rfl⟩, rfl, ?_⟩
    rw [List.getLast?_append, hlast]
    rfl

/-- The check of a reference table writes to the log only. -/
theorem yields_checkReference (files : String → Option FileEntry) (options : Options)
    (table : Table) :
    ∃ log : List String,
      Yields ((recorded files seconds schedule).checkReference options table) (.ok ()) [] log := by
  unfold checkReference
  cases options.check with
  | none => exact ⟨[], .pure ()⟩
  | some name =>
    exact ⟨_, (yields_log files seconds schedule _).bind_ok <|
      (yields_lookUp files seconds schedule name).bind_ok <|
      (yields_tell files seconds schedule _).bind_ok <|
      yields_log files seconds schedule _⟩

end Environment

/-! ## Whole runs -/

section Recorded

variable {files : String → Option FileEntry} {seconds : String} {schedule : Schedule}
  {options : Options} {corpusFiles : CorpusFiles}

/-- The exit status of a run with this outcome. -/
def exitStatus : Except RunError Unit → Nat
  | .ok () => 0
  | .error _ => 1

/-- Lines that are logged stand behind the others. -/
theorem run_log (lines : List String) (before : Transcript) :
    StateT.run ((Environment.recorded files seconds schedule).log lines) before =
      (Pure.pure ((), { before with log := before.log ++ lines }) : Id (Unit × Transcript)) := rfl

/-- After it has reported its settings, a run makes the table and checks it. -/
theorem runRecorded_of_yields (hfiles : options.corpusFiles? = some corpusFiles)
    {outcome : Except RunError Unit} {output log : List String}
    (h : Yields
      ((Environment.recorded files seconds schedule).makeTable options corpusFiles >>=
        (Environment.recorded files seconds schedule).checkReference options) outcome output log) :
    ∃ log : List String,
      runRecorded files seconds options schedule = (exitStatus outcome, ⟨output, log⟩) := by
  unfold runRecorded Environment.run
  rw [hfiles]
  simp only [StateT.run_bind, run_log, pure_bind]
  rw [h]
  cases outcome with
  | ok value => exact ⟨_, rfl⟩
  | error error => exact ⟨_, rfl⟩

/-- A run that can read its files ends well, and its output is the table. -/
theorem runRecorded_of_readings (hfiles : options.corpusFiles? = some corpusFiles)
    {readings : Readings} (h : readingsOf files options corpusFiles = .ok readings) :
    ∃ log : List String, runRecorded files seconds options schedule =
      (0, ⟨(tableOf options schedule readings).rows.map Row.text, log⟩) := by
  obtain ⟨tableLog, htable, -⟩ := Environment.yields_makeTable seconds schedule h
  obtain ⟨checkLog, hcheck⟩ := Environment.yields_checkReference seconds schedule files options
    (tableOf options schedule readings)
  have hrun := (htable.bind_ok hcheck).of_eq (List.append_nil _) rfl
  exact runRecorded_of_yields hfiles hrun

/-- A run that cannot read its files fails, and prints nothing. -/
theorem runRecorded_of_error (hfiles : options.corpusFiles? = some corpusFiles)
    {error : RunError} (h : readingsOf files options corpusFiles = .error error) :
    ∃ log : List String, runRecorded files seconds options schedule = (1, ⟨[], log⟩) := by
  obtain ⟨log, htable⟩ := Environment.yields_makeTable_error seconds schedule h
  exact runRecorded_of_yields hfiles htable.bind_error

/-- A run without a corpus fails with one line in the log. -/
theorem runRecorded_of_no_corpus (hfiles : options.corpusFiles? = none) :
    runRecorded files seconds options schedule = (1, ⟨[], [Environment.corpusRequired]⟩) := by
  unfold runRecorded Environment.run
  rw [hfiles]
  rfl

/-- A run that succeeds could read its files. -/
theorem exists_readings_of_runRecorded (h : (runRecorded files seconds options schedule).1 = 0) :
    ∃ (corpusFiles : CorpusFiles) (readings : Readings),
      options.corpusFiles? = some corpusFiles ∧
        readingsOf files options corpusFiles = .ok readings := by
  cases hfiles : options.corpusFiles? with
  | none =>
    rw [runRecorded_of_no_corpus hfiles] at h
    cases h
  | some corpusFiles =>
    cases hread : readingsOf files options corpusFiles with
    | error error =>
      obtain ⟨log, hrun⟩ := runRecorded_of_error hfiles hread
      rw [hrun] at h
      cases h
    | ok readings => exact ⟨corpusFiles, readings, rfl, hread⟩

/-- A run that ends well has made its table. -/
theorem exists_makeTable_of_runRecorded (hfiles : options.corpusFiles? = some corpusFiles)
    (h : (runRecorded files seconds options schedule).1 = 0) :
    ∃ (readings : Readings) (after : Transcript),
      readingsOf files options corpusFiles = .ok readings ∧
        ((Environment.recorded files seconds schedule).makeTable options corpusFiles).run.run
          ⟨[], []⟩ = (.ok (tableOf options schedule readings), after) := by
  obtain ⟨found, readings, hfound, hread⟩ := exists_readings_of_runRecorded h
  rw [hfiles] at hfound
  cases hfound
  obtain ⟨after, htable⟩ := Environment.exists_makeTable seconds schedule hread ⟨[], []⟩
  exact ⟨readings, after, hread, htable⟩

end Recorded

/-! ## A small run -/

/-- Files with the given corpus and with four occurrences of three phrase pairs. -/
def smallFiles (links bitext : String) (name : String) : Option FileEntry :=
  ([("links", links), ("bitext", bitext), ("phrases",
    "das ||| the ||| 0-0\nein ||| a ||| 0-0\ndas ||| a ||| 0-0\ndas ||| the ||| 0-0\n")].lookup
      name).map .text

/-- Two sentence pairs. -/
def twoSentences : String → Option FileEntry :=
  smallFiles "0-0 1-1\n0-0\n" "das haus ||| the house\nein ||| a\n"

/-- A run on these files with one thread. -/
def smallOptions (config : Config) : Options :=
  { alignment := "links", phrases := "phrases", bitext := some "bitext", config }

end PhraseTable.Run
