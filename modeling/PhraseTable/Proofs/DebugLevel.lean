import PhraseTable.Proofs.Reference.Again
import PhraseTable.Proofs.Renaming
import PhraseTable.Proofs.Run.Output
import PhraseTable.Session

/-!
# The debug level

The debug level says how much is logged, and nothing else depends on it. To say so, it is taken out:
`quiet` makes settings, counts, sessions, commands and tables forget it. Whatever is done, done
quietly it comes to the same value, but for the debug level itself: every call of the counts
(`Counts.quiet`), the scores (`Counts.value_score_quiet`), a check with any scorer that gives the
same scores (`CheckState.value_checkLines_congr`), and from these a command and a run of commands
(`Session.value_run_quiet`) and the table of a whole run (`Run.tableOf_quiet`). Two settings that
differ in nothing but the debug level are the same quiet settings.
-/

set_option autoImplicit false

namespace PhraseTable

/-- The settings with the debug level zero. -/
def Config.quiet (config : Config) : Config := { config with debugLevel := 0 }

/-! ## Counting and scoring -/

namespace Counts

/-- The counts under quiet settings. -/
def quiet (counts : Counts) : Counts := { counts with config := counts.config.quiet }

/-- A pass is begun or refused at any debug level. -/
theorem startPass_quiet (counts : Counts) (pass : Int) :
    counts.quiet.startPass pass = (counts.startPass pass).map quiet := by
  unfold startPass
  have hpasses : counts.quiet.config.passes = counts.config.passes := rfl
  rw [hpasses]
  split <;> rfl

/-- Sentences are counted in the same way at any debug level. -/
theorem value_countSentences_quiet (counts : Counts) (sentences : List SentencePair) :
    (counts.quiet.countSentences sentences).value =
      (counts.countSentences sentences).value.quiet := by
  rw [value_countSentences, value_countSentences]
  rfl

/-- The final pass is the same one at any debug level. -/
theorem isFinalPass_quiet (counts : Counts) : counts.quiet.isFinalPass = counts.isFinalPass := rfl

/-- A phrase pair is counted, and answered, in the same way at any debug level. -/
theorem value_countPhrase_quiet (counts : Counts) (pair : PhrasePair) :
    (counts.quiet.countPhrase pair).value =
      Prod.map quiet id (counts.countPhrase pair).value := by
  unfold countPhrase
  rw [isFinalPass_quiet]
  split <;> rfl

/-- Phrase pairs are counted in the same way at any debug level. -/
theorem value_countPhrases_quiet (counts : Counts) (pairs : List PhrasePair) :
    (counts.quiet.countPhrases pairs).value = (counts.countPhrases pairs).value.quiet := by
  rw [value_countPhrases, value_countPhrases, isFinalPass_quiet]
  split <;> rfl

/-- Of the settings, the lexical weights and the filters are left when the debug level is gone. -/
theorem value_score_quiet (counts : Counts) (config : Config) (pair : PhrasePair) :
    (counts.quiet.score config.quiet pair).value = (counts.score config pair).value := by
  have hverdict :
      ((LexicalModel.ofConfig counts.words.table config.quiet).judge config counts.phrases
        pair).value =
      ((LexicalModel.ofConfig counts.words.table config).judge config counts.phrases
        pair).value := by
    unfold LexicalModel.ofConfig
    have hmodel : config.quiet.maxLexical = config.maxLexical := rfl
    rw [hmodel]
    split
    · apply LexicalModel.value_judge_congr rfl
      · exact (Candidates.value_product_map config.quiet _).trans
          (Candidates.value_product_map config _).symm
      · exact (Candidates.value_product_map config.quiet _).trans
          (Candidates.value_product_map config _).symm
    · apply LexicalModel.value_judge_congr rfl
      · exact (Support.value_product_map config.quiet true _).trans
          (Support.value_product_map config true _).symm
      · exact (Support.value_product_map config.quiet false _).trans
          (Support.value_product_map config false _).symm
  exact congrArg (Verdict.scores? config) hverdict

end Counts

/-! ## Checking -/

/-- The scorers give the same scores and the same state. What they log may differ. -/
def Scorer.SameValues {σ : Type} (scorer scorer' : Scorer σ) : Prop :=
  ∀ (state : σ) (pair : PhrasePair),
    (scorer state pair).1 = (scorer' state pair).1 ∧
    (scorer state pair).2.value = (scorer' state pair).2.value

namespace Summary

variable (debugLevel debugLevel' : Int) (line : ReferenceLine) (pair : PhrasePair)
  (scores : List Score)

/-- A score is compared with a reading in the same way, whatever the lines and levels are that are
logged. -/
theorem value_compare_congr (summary : Summary) (column : Nat) (reading : Number.Reading) :
    (compare debugLevel line pair scores summary column reading).value =
      (compare debugLevel' line pair scores summary column reading).value := by
  unfold compare
  cases scores[column]? with
  | none => rfl
  | some score =>
    dsimp only
    split <;> rfl

/-- All scores of a pair are compared in the same way at any debug level. -/
theorem value_compareFrom_congr (summary : Summary) (column : Nat)
    (readings : List Number.Reading) :
    (compareFrom debugLevel line pair scores summary column readings).value =
      (compareFrom debugLevel' line pair scores summary column readings).value := by
  induction readings generalizing summary column with
  | nil => rfl
  | cons reading rest ih =>
    rw [compareFrom, compareFrom, Logged.value_bind, Logged.value_bind,
      value_compare_congr debugLevel debugLevel', ih]

end Summary

namespace CheckState

variable {σ : Type} {scorer scorer' : Scorer σ} (debugLevel debugLevel' : Int)

/-- A line is checked in the same way by scorers with the same values, at any debug level. -/
theorem value_checkPair_congr (h : scorer.SameValues scorer') (state : CheckState σ)
    (line : ReferenceLine) :
    (checkPair scorer debugLevel state line).value =
      (checkPair scorer' debugLevel' state line).value := by
  obtain ⟨hstate, hvalue⟩ := h state.scorer (state.index.insert line.pair).2
  unfold checkPair
  dsimp only
  rw [Logged.value_bind, Logged.value_bind, hstate, hvalue]
  cases (scorer' state.scorer (state.index.insert line.pair).2).2.value with
  | none => rfl
  | some scores =>
    dsimp only
    rw [Logged.value_bind, Logged.value_bind,
      Summary.value_compareFrom_congr debugLevel debugLevel']

/-- All lines are checked in the same way by scorers with the same values, at any debug level. -/
theorem value_checkLines_congr (h : scorer.SameValues scorer') (state : CheckState σ)
    (lineNumber : Nat) (lines : List String) :
    (checkLines scorer debugLevel state lineNumber lines).value =
      (checkLines scorer' debugLevel' state lineNumber lines).value := by
  induction lines generalizing state lineNumber with
  | nil => rfl
  | cons line rest ih =>
    by_cases hempty : line.isEmpty
    · rw [checkLines_of_isEmpty _ _ _ _ _ hempty, checkLines_of_isEmpty _ _ _ _ _ hempty]
      exact ih state (lineNumber + 1)
    · cases hread : ReferenceLine.read state.vocabulary line with
      | mk vocabulary outcome =>
      cases outcome with
      | error fault =>
        rw [checkLines_of_error _ _ _ _ _ hempty hread, checkLines_of_error _ _ _ _ _ hempty hread]
      | ok found =>
        rw [checkLines_of_ok _ _ _ _ _ hempty hread, checkLines_of_ok _ _ _ _ _ hempty hread,
          Logged.value_bind, Logged.value_bind, value_checkPair_congr debugLevel debugLevel' h]
        exact ih _ (lineNumber + 1)

end CheckState

section CheckText

variable {σ : Type} {scorer scorer' : Scorer σ} (debugLevel debugLevel' : Int)

/-- A text is checked in the same way by scorers with the same values, at any debug level. -/
theorem value_checkText_congr (h : scorer.SameValues scorer') (vocabulary : Vocabulary)
    (index : PhraseIndex) (state : σ) (text : String) :
    (checkText scorer debugLevel vocabulary index state text).value =
      (checkText scorer' debugLevel' vocabulary index state text).value :=
  CheckState.value_checkLines_congr debugLevel debugLevel' h _ _ _

/-- A reference file is checked, or refused, in the same way by scorers with the same values, at any
debug level. -/
theorem value_checkEntry_congr (h : scorer.SameValues scorer') (vocabulary : Vocabulary)
    (index : PhraseIndex) (state : σ) (name : String) (entry : Option FileEntry) :
    (checkEntry scorer debugLevel vocabulary index state name entry).value =
      (checkEntry scorer' debugLevel' vocabulary index state name entry).value := by
  cases entry with
  | none => rfl
  | some entry =>
    cases entry with
    | locked => rfl
    | directory => rfl
    | text content =>
      unfold checkEntry
      rw [Logged.value_bind, Logged.value_bind, value_checkText_congr debugLevel debugLevel' h]

end CheckText

/-! ## Sessions -/

/-- The command with quiet settings, if it has any. -/
def Command.quiet : Command → Command
  | .rescore config => .rescore config.quiet
  | command => command

/-- A command that is quiet stays as it is. -/
theorem Command.quiet_quiet (command : Command) : command.quiet.quiet = command.quiet := by
  cases command <;> rfl

namespace Session

/-- The session under quiet settings. -/
def quiet (session : Session) : Session :=
  { session with counts := session.counts.quiet, scoring := session.scoring.quiet }

/-- The scorer of a session gives the same values at any debug level. -/
theorem sameValues_scorer_quiet (session : Session) :
    session.quiet.scorer.SameValues session.scorer :=
  fun () pair => ⟨rfl, session.counts.value_score_quiet session.scoring pair⟩

/-- A phrase pair is taken in, or refused, in the same way at any debug level. -/
theorem addPair_quiet (session : Session) (vocabulary : Vocabulary)
    (pair : Except PhraseError PhrasePair) :
    session.quiet.addPair vocabulary pair =
      Prod.map quiet id (session.addPair vocabulary pair) := by
  cases pair <;> rfl

/-- Sentences that were built are counted, or refused, in the same way at any debug level. -/
theorem value_countBuilt_quiet (session : Session) (vocabulary : Vocabulary)
    (sentences : Except SentenceError (List SentencePair)) :
    (session.quiet.countBuilt vocabulary sentences).value =
      Prod.map quiet id (session.countBuilt vocabulary sentences).value := by
  cases sentences with
  | error error => rfl
  | ok sentences =>
    unfold countBuilt
    rw [Logged.value_bind, Logged.value_bind]
    have hcounts := session.counts.value_countSentences_quiet sentences
    change (session.quiet.counts.countSentences sentences).value = _ at hcounts
    rw [hcounts]
    rfl

/-- A quiet command does to the quiet session what the command does to the session. -/
theorem value_step_quiet (session : Session) (command : Command) :
    (session.quiet.step command.quiet).value =
      Prod.map quiet id (session.step command).value := by
  cases command with
  | parse line => exact session.addPair_quiet _ _
  | build source target alignment => exact session.addPair_quiet _ _
  | pair source target sourceWords targetWords links => exact session.addPair_quiet _ _
  | setIds slot ids => rfl
  | index slot => rfl
  | lookup slot => rfl
  | startPass pass =>
    have hstart := session.counts.startPass_quiet pass
    change session.quiet.counts.startPass pass = _ at hstart
    unfold step
    dsimp only [Command.quiet]
    rw [hstart]
    cases session.counts.startPass pass <;> rfl
  | sentence sentence => exact session.value_countBuilt_quiet _ _
  | sentences sentences => exact session.value_countBuilt_quiet _ _
  | addWords source target => rfl
  | count slot =>
    have hcount := session.counts.value_countPhrase_quiet (session.pairAt slot)
    change (session.quiet.counts.countPhrase (session.quiet.pairAt slot)).value = _ at hcount
    change (session.quiet.counts.countPhrase _ >>= _).value = _
    rw [Logged.value_bind, hcount]
    rfl
  | countAll =>
    have hcount := session.counts.value_countPhrases_quiet session.pairs.toList
    change (session.quiet.counts.countPhrases session.quiet.pairs.toList).value = _ at hcount
    change (session.quiet.counts.countPhrases _ >>= _).value = _
    rw [Logged.value_bind, hcount]
    rfl
  | score slot =>
    have hscore := session.counts.value_score_quiet session.scoring (session.pairAt slot)
    change (session.quiet.counts.score session.quiet.scoring (session.quiet.pairAt slot)).value = _
      at hscore
    change (session.quiet.counts.score _ _ >>= _).value = _
    rw [Logged.value_bind, hscore]
    rfl
  | rescore config => rfl
  | check text =>
    have hcheck := value_checkText_congr session.quiet.scoring.debugLevel
      session.scoring.debugLevel session.sameValues_scorer_quiet session.vocabulary session.index
      () text
    change (session.quiet.step (.check text)).value = _
    rw [step_check, step_check, Logged.value_map, Logged.value_map]
    change Prod.map _ _ (checkText _ _ session.vocabulary session.index () text).value = _
    rw [hcheck]
    rfl
  | checkFile name entry =>
    have hcheck := value_checkEntry_congr session.quiet.scoring.debugLevel
      session.scoring.debugLevel session.sameValues_scorer_quiet session.vocabulary session.index
      () name entry
    change (session.quiet.step (.checkFile name entry)).value = _
    change (checkEntry _ _ session.vocabulary session.index () name entry >>= _).value = _
    rw [Logged.value_bind, hcheck]
    rfl

/-- The first command is followed by the others, from the session that it leaves. -/
theorem value_run_cons (session : Session) (command : Command) (rest : List Command) :
    (session.run (command :: rest)).value =
      Prod.map id ((session.step command).value.2 :: ·)
        ((session.step command).value.1.run rest).value := rfl

/-- A quiet run of commands comes to the same answers. -/
theorem value_run_quiet (session : Session) (commands : List Command) :
    (session.quiet.run (commands.map Command.quiet)).value =
      Prod.map quiet id (session.run commands).value := by
  induction commands generalizing session with
  | nil => rfl
  | cons command rest ih =>
    rw [List.map_cons, value_run_cons, value_run_cons, value_step_quiet, Prod.map_fst, ih]
    rfl

end Session

/-! ## Whole runs -/

namespace Run

/-- What the passes work on under quiet settings. -/
def PassState.quiet (state : PassState) : PassState := { state with counts := state.counts.quiet }

/-- The table that was made under quiet settings. -/
def Table.quiet (table : Table) : Table := { table with state := table.state.quiet }

/-- A quiet pass comes to the same state. -/
theorem value_pass_quiet (schedule : Schedule) (sentences : List SentencePair)
    (state : PassState) (number : Nat) :
    (pass schedule sentences state.quiet number).value =
      (pass schedule sentences state number).value.quiet := by
  have hnumbered : (if number = 0 then state.quiet.number schedule else state.quiet) =
      (if number = 0 then state.number schedule else state).quiet := by
    split <;> rfl
  rw [value_pass, value_pass, hnumbered]
  generalize (if number = 0 then state.number schedule else state) = next
  generalize hbegun : ({ state.counts with
    pass := number
    words := schedule.reserve (sentences.flatMap AlignedPair.wordPairs) state.counts.words } :
      Counts) = begun
  have hquiet : ({ state.quiet.counts with
      pass := number
      words := schedule.reserve (sentences.flatMap AlignedPair.wordPairs)
        state.quiet.counts.words } : Counts) = begun.quiet := by
    rw [← hbegun]
    rfl
  have hphrases := Counts.value_countPhrases_quiet (begun.countSentences sentences).value next.pairs
  rw [← Counts.value_countSentences_quiet] at hphrases
  rw [hquiet]
  exact congrArg (fun counts => { next with counts }) hphrases

/-- Quiet passes come to the same state. -/
theorem passesFrom_quiet (schedule : Schedule) (sentences : List SentencePair) (number : Nat)
    (state : PassState) (left : Nat) :
    passesFrom schedule sentences number state.quiet left =
      (passesFrom schedule sentences number state left).quiet := by
  induction left generalizing number state with
  | zero => rfl
  | succ left ih => rw [passesFrom, passesFrom, value_pass_quiet, ih]

/-- After the last pass, quiet settings have made no difference. -/
theorem finalState_quiet (config : Config) (schedule : Schedule) (sentences : List SentencePair)
    (pairs : List PhrasePair) :
    finalState config.quiet schedule sentences pairs =
      (finalState config schedule sentences pairs).quiet :=
  passesFrom_quiet schedule sentences 0 (PassState.start config pairs) config.passes

/-- Quiet scoring keeps the same rows. -/
theorem value_scorePairs_quiet (counts : Counts) (config : Config) (pairs : List PhrasePair) :
    (scorePairs counts.quiet config.quiet pairs).value =
      (scorePairs counts config pairs).value := by
  rw [value_scorePairs, value_scorePairs]
  simp only [Counts.value_score_quiet]

/-- Quiet settings make the same table. -/
theorem tableOf_quiet (options : Options) (schedule : Schedule) (readings : Readings) :
    tableOf { options with config := options.config.quiet } schedule readings =
      (tableOf options schedule readings).quiet := by
  unfold tableOf
  dsimp only
  rw [finalState_quiet]
  generalize finalState options.config (schedule.forThreads options.threads)
    readings.corpus.sentences.toList readings.pairs = state
  exact congrArg (Table.mk readings.vocabulary state.quiet)
    (value_scorePairs_quiet state.counts options.config state.firstOccurrences)

section Runs

variable (files : String → Option FileEntry) (options : Options) (schedule : Schedule)

/-- What a run prints, and its exit status, are those of a quiet run. -/
theorem printed_quiet :
    printed files { options with config := options.config.quiet } schedule =
      printed files options schedule := by
  have hfiles : ({ options with config := options.config.quiet } : Options).corpusFiles? =
      options.corpusFiles? := rfl
  cases hcorpus : options.corpusFiles? with
  | none => rw [printed_of_no_corpus hcorpus, printed_of_no_corpus (hfiles.trans hcorpus)]
  | some corpusFiles =>
    have hreadings : readingsOf files { options with config := options.config.quiet } corpusFiles =
        readingsOf files options corpusFiles := rfl
    cases hread : readingsOf files options corpusFiles with
    | error error =>
      rw [printed_of_error hcorpus hread,
        printed_of_error (hfiles.trans hcorpus) (hreadings.trans hread)]
    | ok readings =>
      rw [printed_of_readings hcorpus hread,
        printed_of_readings (hfiles.trans hcorpus) (hreadings.trans hread), tableOf_quiet]
      rfl

/-- The exit status and the output of a run are those of a quiet run, whatever the stopwatches of
both show. -/
theorem runRecorded_quiet (seconds seconds' : String) :
    ∃ log : List String,
      runRecorded files seconds options schedule =
        ((runRecorded files seconds' { options with config := options.config.quiet } schedule).1,
          ⟨(runRecorded files seconds' { options with config := options.config.quiet }
            schedule).2.output, log⟩) := by
  obtain ⟨log, hrun⟩ := exists_log_runRecorded files seconds options schedule
  obtain ⟨_, hquiet⟩ :=
    exists_log_runRecorded files seconds' { options with config := options.config.quiet } schedule
  rw [hrun, hquiet, printed_quiet]
  exact ⟨log, rfl⟩

/-- A run makes the table of a quiet run, or fails as it does. -/
theorem makeTable_quiet (seconds seconds' : String) (corpusFiles : CorpusFiles)
    (before before' : Transcript) :
    (((Environment.recorded files seconds' schedule).makeTable
        { options with config := options.config.quiet } corpusFiles).run.run before').1 =
      (((Environment.recorded files seconds schedule).makeTable options
        corpusFiles).run.run before).1.map Table.quiet := by
  have hreadings : readingsOf files { options with config := options.config.quiet } corpusFiles =
      readingsOf files options corpusFiles := rfl
  cases hread : readingsOf files options corpusFiles with
  | error error =>
    obtain ⟨_, hyields⟩ := Environment.yields_makeTable_error seconds schedule hread
    obtain ⟨_, hquiet⟩ :=
      Environment.yields_makeTable_error seconds' schedule (hreadings.trans hread)
    rw [hyields before, hquiet before']
    rfl
  | ok readings =>
    obtain ⟨_, hyields, -⟩ := Environment.yields_makeTable seconds schedule hread
    obtain ⟨_, hquiet, -⟩ := Environment.yields_makeTable seconds' schedule (hreadings.trans hread)
    rw [hyields before, hquiet before', tableOf_quiet]
    rfl

end Runs

/-- The scorer of a run that has made a table. -/
def Table.scorer (table : Table) (config : Config) : Scorer Unit :=
  fun _ pair => ((), table.state.counts.score config pair)

/-- The scorer of a table gives the same values at any debug level. -/
theorem Table.sameValues_scorer_quiet (table : Table) (config : Config) :
    (table.quiet.scorer config.quiet).SameValues (table.scorer config) :=
  fun () pair => ⟨rfl, table.state.counts.value_score_quiet config pair⟩

end Run

/-! ## Settings that differ in nothing but the debug level -/

/-- **The debug level affects the log only.** Two settings differ in nothing but the debug level.
Sessions that begin with them and carry out the same commands, in which other settings may differ
so as well, give the same answers and come to the same words, numbers, counts and phrase pairs. Two
runs whose threads get on in the same order, whatever it is, print the same and end with the same
exit status, and they fail for the same reason or make the same table. The check of any text, and of
any file, against such a table comes to the same summary or error, and to the same words and
numbers. -/
theorem debugLevel_only_logged {config config' : Config} (h : config.quiet = config'.quiet) :
    (∀ commands commands' : List Command,
      commands.map Command.quiet = commands'.map Command.quiet →
        ∃ (after after' : Session) (answers : List (Except SessionError Answer)),
          ((Session.empty config).run commands).value = (after, answers) ∧
          ((Session.empty config').run commands').value = (after', answers) ∧
          after.quiet = after'.quiet) ∧
    (∀ (files : String → Option FileEntry) (options : Run.Options) (schedule : Run.Schedule)
        (seconds seconds' : String),
      (Run.runRecorded files seconds { options with config := config } schedule).1 =
        (Run.runRecorded files seconds' { options with config := config' } schedule).1 ∧
      (Run.runRecorded files seconds { options with config := config } schedule).2.output =
        (Run.runRecorded files seconds' { options with config := config' } schedule).2.output ∧
      ∀ (corpusFiles : Run.CorpusFiles) (before before' : Run.Transcript),
        (((Run.Environment.recorded files seconds schedule).makeTable
            { options with config := config } corpusFiles).run.run before).1.map Run.Table.quiet =
          (((Run.Environment.recorded files seconds' schedule).makeTable
            { options with config := config' } corpusFiles).run.run before').1.map
              Run.Table.quiet) ∧
    ∀ table table' : Run.Table, table.quiet = table'.quiet →
      (∀ text : String,
        (checkText (table.scorer config) config.debugLevel table.vocabulary table.state.index ()
            text).value =
          (checkText (table'.scorer config') config'.debugLevel table'.vocabulary
            table'.state.index () text).value) ∧
      ∀ (name : String) (entry : Option FileEntry),
        (checkEntry (table.scorer config) config.debugLevel table.vocabulary table.state.index ()
            name entry).value =
          (checkEntry (table'.scorer config') config'.debugLevel table'.vocabulary
            table'.state.index () name entry).value := by
  refine ⟨?sessions, ?runs, ?checks⟩
  case sessions =>
    intro commands commands' hcommands
    have hrun := (Session.empty config).value_run_quiet commands
    have hrun' := (Session.empty config').value_run_quiet commands'
    have hempty : (Session.empty config).quiet = (Session.empty config').quiet :=
      congrArg Session.empty h
    rw [hempty, hcommands, hrun'] at hrun
    obtain ⟨hafter, hanswers⟩ := Prod.mk.inj hrun
    exact ⟨_, _, _, rfl, Prod.ext rfl hanswers, hafter.symm⟩
  case runs =>
    intro files options schedule seconds seconds'
    obtain ⟨_, hrun⟩ :=
      Run.runRecorded_quiet files { options with config := config } schedule seconds seconds
    obtain ⟨_, hrun'⟩ :=
      Run.runRecorded_quiet files { options with config := config' } schedule seconds' seconds
    dsimp only at hrun hrun'
    rw [hrun, hrun', h]
    refine ⟨rfl, rfl, ?_⟩
    intro corpusFiles before before'
    have hmade := Run.makeTable_quiet files { options with config := config } schedule seconds
      seconds corpusFiles before before
    have hmade' := Run.makeTable_quiet files { options with config := config' } schedule seconds'
      seconds corpusFiles before' before
    dsimp only at hmade hmade'
    rw [← hmade, ← hmade', h]
  case checks =>
    intro table table' htable
    have hscorer : (table.scorer config).SameValues (table'.scorer config') := by
      intro state pair
      have hvalue := (table.sameValues_scorer_quiet config state pair).2
      rw [htable, h] at hvalue
      exact ⟨rfl, hvalue.symm.trans (table'.sameValues_scorer_quiet config' state pair).2⟩
    have hvocabulary : table.vocabulary = table'.vocabulary :=
      (congrArg Run.Table.vocabulary htable :)
    have hindex : table.state.index = table'.state.index :=
      (congrArg (fun table => table.state.index) htable :)
    rw [hvocabulary, hindex]
    exact ⟨value_checkText_congr _ _ hscorer _ _ (), value_checkEntry_congr _ _ hscorer _ _ ()⟩

/-- A sentence pair, a phrase pair that is counted and scored at two levels, and a check that ends
at a malformed line. -/
def smallCommands : List Command :=
  [ .parse "das ||| the ||| 0-0", .index 0, .sentence ⟨.text "das", .text "the", [⟨0, 0⟩]⟩
  , .startPass 1, .count 0, .score 0, .rescore { debugLevel := 2, maxLexical := true }, .score 0
  , .check "das ||| the ||| 0-0 ||| ||| 1 0.5\ndas ||| the\n" ]

/-- The logs of a session and of a run differ between the level three and the level zero, and that
is all. -/
theorem debugLevel_only_logged_three_and_zero :
    ∃ (after after' : Session) (answers : List (Except SessionError Answer)),
      ((Session.empty { debugLevel := 3 }).run smallCommands).value = (after, answers) ∧
      ((Session.empty {}).run (smallCommands.map Command.quiet)).value = (after', answers) ∧
      after.quiet = after'.quiet ∧
      ((Session.empty { debugLevel := 3 }).run smallCommands).log ≠
        ((Session.empty {}).run (smallCommands.map Command.quiet)).log ∧
      (Run.runRecorded Run.twoSentences "0" (Run.smallOptions { debugLevel := 3 })).2.output =
        (Run.runRecorded Run.twoSentences "1" (Run.smallOptions {})).2.output ∧
      (Run.runRecorded Run.twoSentences "0" (Run.smallOptions { debugLevel := 3 })).2.log ≠
        (Run.runRecorded Run.twoSentences "0" (Run.smallOptions {})).2.log := by
  have hquiet : ({ debugLevel := 3 } : Config).quiet = ({} : Config).quiet := rfl
  obtain ⟨hsessions, hruns, -⟩ := debugLevel_only_logged hquiet
  have hcommands : smallCommands.map Command.quiet =
      (smallCommands.map Command.quiet).map Command.quiet := by
    rw [List.map_map]
    exact List.map_congr_left fun command _ => command.quiet_quiet.symm
  obtain ⟨after, after', answers, hrun, hrun', hafter⟩ := hsessions _ _ hcommands
  obtain ⟨-, hprinted, -⟩ := hruns Run.twoSentences (Run.smallOptions {}) .inTurn "0" "1"
  simp only [Run.smallOptions] at hprinted
  refine ⟨after, after', answers, hrun, hrun', hafter, by decide +kernel, ?_, by decide +kernel⟩
  simp only [Run.smallOptions]
  exact hprinted

end PhraseTable
