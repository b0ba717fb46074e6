import PhraseTable.Proofs.Run.Rows

/-!
# What a run prints

A run prints the whole table and ends well, or it prints nothing and ends with the exit status one.
Which of the two it does is told by its corpus, its alignment, its phrase file and its settings
(`printed`). Neither the stopwatch nor a reference table has a part in it, whatever stands under the
name of the reference table.
-/

set_option autoImplicit false

namespace PhraseTable.Run

/-- The exit status of a run on these files, and what it prints. -/
def printed (files : String → Option FileEntry) (options : Options) (schedule : Schedule) :
    Nat × List String :=
  match options.corpusFiles? with
  | none => (1, [])
  | some corpusFiles =>
    match readingsOf files options corpusFiles with
    | .error _ => (1, [])
    | .ok readings => (0, (tableOf options schedule readings).rows.map Row.text)

section Printed

variable {files : String → Option FileEntry} {options : Options} {schedule : Schedule}
  {corpusFiles : CorpusFiles}

/-- Without a corpus a run prints nothing and fails. -/
theorem printed_of_no_corpus (hfiles : options.corpusFiles? = none) :
    printed files options schedule = (1, []) := by
  unfold printed
  rw [hfiles]

/-- A run that cannot read its files prints nothing and fails. -/
theorem printed_of_error (hfiles : options.corpusFiles? = some corpusFiles) {error : RunError}
    (h : readingsOf files options corpusFiles = .error error) :
    printed files options schedule = (1, []) := by
  unfold printed
  rw [hfiles]
  dsimp only
  rw [h]

/-- A run that can read its files prints the rows of its table. -/
theorem printed_of_readings (hfiles : options.corpusFiles? = some corpusFiles)
    {readings : Readings} (h : readingsOf files options corpusFiles = .ok readings) :
    printed files options schedule =
      (0, (tableOf options schedule readings).rows.map Row.text) := by
  unfold printed
  rw [hfiles]
  dsimp only
  rw [h]

/-- Whatever the stopwatch shows, a run prints this and ends with this exit status. -/
theorem exists_log_runRecorded (files : String → Option FileEntry) (seconds : String)
    (options : Options) (schedule : Schedule) :
    ∃ log : List String,
      runRecorded files seconds options schedule =
        ((printed files options schedule).1, ⟨(printed files options schedule).2, log⟩) := by
  cases hfiles : options.corpusFiles? with
  | none =>
    rw [printed_of_no_corpus hfiles]
    exact ⟨_, runRecorded_of_no_corpus hfiles⟩
  | some corpusFiles =>
    cases hread : readingsOf files options corpusFiles with
    | error error =>
      rw [printed_of_error hfiles hread]
      exact runRecorded_of_error hfiles hread
    | ok readings =>
      rw [printed_of_readings hfiles hread]
      exact runRecorded_of_readings hfiles hread

end Printed

/-- The rows of all different pairs that are accepted, in the order in which these first occur. -/
def PassState.accepted (state : PassState) (config : Config) : List Row :=
  (firstsBy (fun pair => pair.pairKey) [] state.pairs).filterMap fun pair =>
    (state.counts.score config pair).value.map (Row.mk pair)

/-- The rows of a run are those of all different pairs that are accepted. With one thread, or if no
pair comes before its turn, they stand in the order in which the pairs first occur. -/
theorem rows_tableOf (options : Options) (schedule : Schedule) (readings : Readings) :
    let table := tableOf options schedule readings
    table.rows.Perm (table.state.accepted options.config) ∧
      (options.threads = 1 ∨ schedule.phrases = [] →
        table.rows = table.state.accepted options.config) := by
  intro table
  have hrows : table.rows = table.state.firstOccurrences.filterMap fun pair =>
      (table.state.counts.score options.config pair).value.map (Row.mk pair) :=
    value_scorePairs _ _ _
  have hnumbered : table.state.Numbered := numbered_finalState _ _ _ _
  constructor
  · rw [hrows]
    exact hnumbered.perm_firstOccurrences.filterMap _
  · intro hturn
    have hfirst : table.state.firstOccurrences = _ :=
      firstOccurrences_inTurn (Schedule.phrases_forThreads_eq_nil hturn) _ _ _
    rw [hrows, hfirst]
    rfl

/-- **All or nothing.** A run that ends with the exit status one could not make its table, and has
printed nothing. Otherwise the exit status is zero, and the run has printed the whole table: it has
read a phrase pair from every line of its phrase file, and printed a row for each different one that
is accepted, in the order of the file if all came in turn. A run with a reference table, whatever
stands under its name, ends with the same exit status and prints the same as the run without one
whose threads come in the same order. -/
theorem runRecorded_all_or_nothing (files : String → Option FileEntry) (seconds : String)
    (options : Options) (schedule : Schedule) :
    (((runRecorded files seconds options schedule).1 = 1 ∧
        (runRecorded files seconds options schedule).2.output = [] ∧
        ∀ corpusFiles : CorpusFiles, options.corpusFiles? = some corpusFiles →
          ∃ (error : RunError) (after : Transcript),
            ((Environment.recorded files seconds schedule).makeTable options corpusFiles).run.run
                ⟨[], []⟩ =
              (.error error, after)) ∨
      ((runRecorded files seconds options schedule).1 = 0 ∧
        ∃ (corpusFiles : CorpusFiles) (text : String) (table : Table) (after : Transcript),
          options.corpusFiles? = some corpusFiles ∧
          files options.phrases = some (.text text) ∧
          ((Environment.recorded files seconds schedule).makeTable options corpusFiles).run.run
              ⟨[], []⟩ =
            (.ok table, after) ∧
          ReadAs table.vocabulary.symbolOf (phraseLines (Text.lines text))
            (table.state.pairs.map fun pair => pair.withIds .unassigned) ∧
          table.rows.Perm (table.state.accepted options.config) ∧
          (options.threads = 1 ∨ schedule.phrases = [] →
            table.rows = table.state.accepted options.config) ∧
          (runRecorded files seconds options schedule).2.output = table.rows.map Row.text)) ∧
    ∀ (name seconds' : String),
      (runRecorded files seconds { options with check := some name } schedule).1 =
        (runRecorded files seconds' { options with check := none } schedule).1 ∧
      (runRecorded files seconds { options with check := some name } schedule).2.output =
        (runRecorded files seconds' { options with check := none } schedule).2.output := by
  constructor
  · obtain ⟨log, hrun⟩ := exists_log_runRecorded files seconds options schedule
    rw [hrun]
    cases hfiles : options.corpusFiles? with
    | none =>
      rw [printed_of_no_corpus hfiles]
      exact Or.inl ⟨rfl, rfl, nofun⟩
    | some corpusFiles =>
      cases hread : readingsOf files options corpusFiles with
      | error error =>
        obtain ⟨_, hyields⟩ := Environment.yields_makeTable_error seconds schedule hread
        rw [printed_of_error hfiles hread]
        refine Or.inl ⟨rfl, rfl, ?_⟩
        rintro _ ⟨⟩
        exact ⟨error, _, hyields ⟨[], []⟩⟩
      | ok readings =>
        obtain ⟨after, htable⟩ := Environment.exists_makeTable seconds schedule hread ⟨[], []⟩
        obtain ⟨text, htext⟩ := exists_text_of_readingsOf hread
        have hlines := (readAs_of_readingsOf hread htext).pairs_finalState options.config
          (schedule.forThreads options.threads) readings.corpus.sentences.toList
        rw [printed_of_readings hfiles hread]
        obtain ⟨hperm, hturn⟩ := rows_tableOf options schedule readings
        exact Or.inr ⟨rfl, corpusFiles, text, tableOf options schedule readings, after, rfl, htext,
          htable, hlines, hperm, hturn, rfl⟩
  · intro name seconds'
    obtain ⟨_, hchecked⟩ :=
      exists_log_runRecorded files seconds { options with check := some name } schedule
    obtain ⟨_, hplain⟩ :=
      exists_log_runRecorded files seconds' { options with check := none } schedule
    rw [hchecked, hplain]
    -- what is printed is told without a look at the reference table
    exact ⟨rfl, rfl⟩

end PhraseTable.Run
