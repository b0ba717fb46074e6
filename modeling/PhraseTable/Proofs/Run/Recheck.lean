import PhraseTable.Proofs.PhraseText
import PhraseTable.Proofs.Reference.Check
import PhraseTable.Proofs.Run.CorpusOrder
import PhraseTable.Proofs.Text.Lines

/-!
# Checking a table against itself

A reference table may be made of the rows of a table, each with any second alignment and any values
behind its links. Its lines are checked by another path than the one that wrote them: the pair is
rebuilt from the text, numbered and scored again. `Scored` says what the rows of a run have in
common, one line shows that the checker comes to the same pair and the same scores
(`Scored.checkPair`), and by induction so does the whole reference table (`Scored.checkLines`). The
vocabulary and the index stay as they are, since all words and numbers are known.
-/

set_option autoImplicit false

namespace PhraseTable.Run

/-! ## Reference tables made of rows -/

/-- A row with what a reference table has behind its links. -/
structure ReferenceRow where
  row : Row
  /-- The second alignment. -/
  second : String
  values : String

namespace ReferenceRow

/-- The line of a reference file: the fields of the row, with one more in front of the values. -/
def line (reference : ReferenceRow) : String :=
  reference.row.pair.text ++ " ||| " ++ reference.second ++ " ||| " ++ reference.values

/-- The second alignment and the values stand on one line, without bars, and the values are
numbers. -/
structure Plain (reference : ReferenceRow) : Prop where
  second : '|' ∉ reference.second.toList ∧ '\n' ∉ reference.second.toList
  values : '|' ∉ reference.values.toList ∧ '\n' ∉ reference.values.toList
  numbers : ∀ token ∈ Text.tokens reference.values,
    ∃ reading : Number.Reading, Number.read token = .ok reading

/-- The reference table with these rows. -/
def text (references : List ReferenceRow) : String :=
  String.join ((references.map line).map (· ++ "\n"))

/-- The line is made of five fields. -/
theorem line_eq_intercalate (reference : ReferenceRow) :
    reference.line = " ||| ".intercalate [reference.row.pair.sourceText,
      reference.row.pair.targetText, reference.row.pair.linkText, reference.second,
      reference.values] := by
  rw [← String.toList_inj, String.toList_intercalate]
  simp [line, PhrasePair.text, List.intercalate_cons_cons]

/-- The line is not empty. -/
theorem line_ne_empty (reference : ReferenceRow) : ¬reference.line.isEmpty := by
  rw [line_eq_intercalate, String.isEmpty_iff, ← String.toList_inj, String.toList_intercalate]
  simp [List.intercalate_cons_cons]

end ReferenceRow

/-- A scorer that scores as a run does, and notes in its state what it has scored. -/
def notingScorer {σ : Type} (note : σ → PhrasePair → Option (List Score) → σ) (counts : Counts)
    (config : Config) : Scorer σ :=
  fun state pair => (note state pair (counts.score config pair).value, counts.score config pair)

/-! ## Checking the rows of a table -/

/-- The row was written by a run that ended with these counts: its pair can be read back, all its
words and its numbers are known, and it was accepted with its scores. -/
structure Scored (vocabulary : Vocabulary) (index : PhraseIndex) (counts : Counts) (config : Config)
    (row : Row) : Prop where
  readBack : row.pair.ReadBack vocabulary.symbolOf
  words : ∀ word ∈ row.pair.sourceWords ++ row.pair.targetWords,
    word ∈ vocabulary.words ∧ '\n' ∉ word.toList
  has : index.Has row.pair
  ids_eq : row.pair.ids = index.idsOf row.pair
  score_eq : (counts.score config row.pair).value = some row.scores

namespace Scored

variable {σ : Type} {vocabulary : Vocabulary} {index : PhraseIndex} {counts : Counts}
  {config : Config} {row : Row} {reference : ReferenceRow}

/-- There is no line break in the line, if there is none in the field and in the values. -/
theorem feed_not_mem_line_of_parts (h : Scored vocabulary index counts config reference.row)
    (hsecond : '\n' ∉ reference.second.toList) (hvalues : '\n' ∉ reference.values.toList) :
    '\n' ∉ reference.line.toList := by
  obtain ⟨hsourceWords, htargetWords⟩ := List.forall_mem_append.1 h.words
  have hsource : '\n' ∉ reference.row.pair.sourceText.toList :=
    feed_not_mem_text fun word hword => (hsourceWords word hword).2
  have htarget : '\n' ∉ reference.row.pair.targetText.toList :=
    feed_not_mem_text fun word hword => (htargetWords word hword).2
  have hlinks : '\n' ∉ reference.row.pair.linkText.toList :=
    PhrasePair.feed_not_mem_linkText reference.row.pair
  simp [ReferenceRow.line, PhrasePair.text, hsource, htarget, hlinks, hsecond, hvalues]

/-- There is no line break in the line of a plain row. -/
theorem feed_not_mem_line (h : Scored vocabulary index counts config reference.row)
    (hplain : reference.Plain) : '\n' ∉ reference.line.toList :=
  h.feed_not_mem_line_of_parts hplain.second.2 hplain.values.2

/-- A line has its five fields again, and its first three are the pair. -/
theorem fields_line (h : Scored vocabulary index counts config reference.row)
    (hsecond : '|' ∉ reference.second.toList) (hvalues : '|' ∉ reference.values.toList) :
    Text.fields reference.line = [reference.row.pair.sourceText, reference.row.pair.targetText,
      reference.row.pair.linkText, Text.trim reference.second, Text.trim reference.values] := by
  have hbars : ∀ part ∈ [reference.second, reference.values], Text.NoBars part.toList := by
    simp only [List.forall_mem_cons]
    exact ⟨Text.noBars_of_not_mem hsecond, Text.noBars_of_not_mem hvalues, nofun⟩
  rw [reference.line_eq_intercalate, h.readBack.fields_parts hbars]
  rfl

/-- The pair is rebuilt without its numbers. -/
theorem read_line (h : Scored vocabulary index counts config reference.row)
    (hplain : reference.Plain) :
    ∃ line : ReferenceLine, line.pair = reference.row.pair.withIds .unassigned ∧
      ReferenceLine.read vocabulary reference.line = (vocabulary, .ok line) := by
  have hbuild := h.readBack.build fun word hword => (h.words word hword).1
  obtain ⟨readings, hreadings⟩ := exists_mapM_eq_ok hplain.numbers
  rw [ReferenceLine.read_of_fields (h.fields_line hplain.second.1 hplain.values.1), hbuild]
  unfold ReferenceLine.ofPair
  rw [Text.tokens_trim, hreadings]
  exact ⟨_, rfl, rfl⟩

/-- One line is checked: the pair has its numbers and its scores again. -/
theorem checkPair (h : Scored vocabulary index counts config row)
    (note : σ → PhrasePair → Option (List Score) → σ) (debugLevel : Int) {line : ReferenceLine}
    (hline : line.pair = row.pair.withIds .unassigned) (state : σ) (summary : Summary) :
    ∃ summary' : Summary, summary'.lines = summary.lines + 1 ∧
      summary'.rejected = summary.rejected ∧
      (CheckState.checkPair (notingScorer note counts config) debugLevel
          ⟨vocabulary, index, state, summary⟩ line).value =
        ⟨vocabulary, index, note state row.pair (some row.scores), summary'⟩ := by
  have hinsert : index.insert line.pair = (index, row.pair) := by
    have hhas : index.Has line.pair := by
      rw [hline]
      exact ⟨h.has.key_mem, h.has.source_mem, h.has.target_mem⟩
    have hids : index.idsOf (row.pair.withIds .unassigned) = index.idsOf row.pair := rfl
    rw [PhraseIndex.insert_of_has hhas, hline, hids, ← h.ids_eq]
    rfl
  -- values that differ are no reason to reject a pair
  have hcompared := Summary.comparedMore_compareFrom debugLevel line row.pair row.scores
    { summary with lines := summary.lines + 1 } 0 line.values
  unfold CheckState.checkPair notingScorer
  rw [hinsert]
  rw [Logged.value_bind, h.score_eq]
  exact ⟨_, hcompared.lines_eq, hcompared.rejected_eq, rfl⟩

/-- A whole reference table is checked, line by line. -/
theorem checkLines {references : List ReferenceRow}
    (h : ∀ reference ∈ references,
      Scored vocabulary index counts config reference.row ∧ reference.Plain)
    (note : σ → PhrasePair → Option (List Score) → σ) (debugLevel : Int) (state : σ)
    (summary : Summary) (lineNumber : Nat) :
    ∃ summary' : Summary, summary'.lines = summary.lines + references.length ∧
      summary'.rejected = summary.rejected ∧
      (CheckState.checkLines (notingScorer note counts config) debugLevel
          ⟨vocabulary, index, state, summary⟩ lineNumber
          (references.map ReferenceRow.line)).value =
        (⟨vocabulary, index,
          references.foldl
            (fun state reference => note state reference.row.pair (some reference.row.scores))
            state,
          summary'⟩, .ok summary') := by
  induction references generalizing state summary lineNumber with
  | nil => exact ⟨summary, rfl, rfl, rfl⟩
  | cons reference rest ih =>
    obtain ⟨hscored, hplain⟩ := h reference List.mem_cons_self
    obtain ⟨line, hline, hread⟩ := hscored.read_line hplain
    obtain ⟨summary₁, hlines₁, hrejected₁, hcheck⟩ :=
      hscored.checkPair note debugLevel hline state summary
    obtain ⟨summary₂, hlines₂, hrejected₂, hrest⟩ :=
      ih (fun other hother => h other (List.mem_cons_of_mem reference hother))
        (note state reference.row.pair (some reference.row.scores)) summary₁ (lineNumber + 1)
    refine ⟨summary₂, ?_, hrejected₂.trans hrejected₁, ?_⟩
    · rw [hlines₂, hlines₁, List.length_cons]
      omega
    · rw [List.map_cons, CheckState.checkLines_of_ok (notingScorer note counts config) debugLevel
        ⟨vocabulary, index, state, summary⟩ lineNumber _ reference.line_ne_empty hread,
        Logged.value_bind, hcheck, hrest]
      rfl

end Scored

/-! ## The rows of a run -/

/-- Every row of a run was scored with what the run has counted. -/
theorem scored_tableOf {files : String → Option FileEntry} {options : Options}
    {corpusFiles : CorpusFiles} {readings : Readings} {schedule : Schedule}
    (h : readingsOf files options corpusFiles = .ok readings) {row : Row}
    (hrow : row ∈ (tableOf options schedule readings).rows) :
    Scored (tableOf options schedule readings).vocabulary
      (tableOf options schedule readings).state.index
      (tableOf options schedule readings).state.counts options.config row := by
  obtain ⟨text, htext⟩ := exists_text_of_readingsOf h
  obtain ⟨rows, -, hof⟩ := exists_rows_of_readingsOf h htext
  have hread := hof.pairs.pairs_finalState options.config (schedule.forThreads options.threads)
    readings.corpus.sentences.toList
  have hnumbered := numbered_finalState options.config (schedule.forThreads options.threads)
    readings.corpus.sentences.toList readings.pairs
  change row ∈ (scorePairs _ _ (PassState.firstOccurrences _)).value at hrow
  rw [value_scorePairs] at hrow
  obtain ⟨pair, hpair, hscores⟩ := List.mem_filterMap.1 hrow
  obtain ⟨scores, hscore, rfl⟩ := Option.map_eq_some_iff.1 hscores
  have hmem := PassState.mem_of_mem_firstOccurrences hpair
  -- the pair is one of the phrase file, so its words are known and hold no line feed
  obtain ⟨line, hline, hofLine⟩ := hread.exists_line (List.mem_map_of_mem hmem)
  have hknown := hof.mem_words_of_mem hline
  have hwords := PhrasePair.words_of_ofLine hofLine
  change pair.sourceWords ++ pair.targetWords = _ at hwords
  have hback := PhrasePair.readBack_of_ofLine hofLine fun word hword =>
    Vocabulary.symbolOf_nonneg (hknown word hword)
  refine
    { readBack := ⟨hback.source, hback.target, hback.links⟩
      words := ?_
      has := hnumbered.has pair hmem
      ids_eq := hnumbered.ids_eq pair hmem
      score_eq := hscore }
  intro word hword
  change word ∈ pair.sourceWords ++ pair.targetWords at hword
  rw [hwords] at hword
  refine ⟨hknown word hword, ?_⟩
  intro hfeed
  exact Text.feed_not_mem_lines (List.mem_filter.1 hline).1
    (PhrasePair.mem_of_mem_lineTerminals hword hfeed)

/-- **A table agrees with the run that made it.** A reference table made of rows that a run has
written is read without an error. The checker rebuilds the pair of every row as it was scored, with
its numbers, and gives it the same scores, so no pair is rejected. No word and no number is new. -/
theorem makeTable_recheck {files : String → Option FileEntry} {seconds : String}
    {schedule : Schedule} {options : Options} {corpusFiles : CorpusFiles}
    {before after : Transcript} {table : Table} {references : List ReferenceRow}
    (htable : ((Environment.recorded files seconds schedule).makeTable options
      corpusFiles).run.run before = (.ok table, after))
    (hrows : ∀ reference ∈ references, reference.row ∈ table.rows ∧ reference.Plain)
    {σ : Type} (note : σ → PhrasePair → Option (List Score) → σ) (start : σ) (debugLevel : Int) :
    after.output = before.output ++ table.rows.map Row.text ∧
    ∃ summary : Summary, summary.lines = references.length ∧ summary.rejected = 0 ∧
      (checkText (notingScorer note table.state.counts options.config) debugLevel table.vocabulary
          table.state.index start (ReferenceRow.text references)).value =
        (⟨table.vocabulary, table.state.index,
          references.foldl
            (fun state reference => note state reference.row.pair (some reference.row.scores))
            start,
          summary⟩, .ok summary) := by
  obtain ⟨⟨readings, hreadings, rfl⟩, houtput, -⟩ :=
    Environment.makeTable_eq_ok seconds schedule htable
  refine ⟨houtput, ?_⟩
  have hscored : ∀ reference ∈ references,
      Scored (tableOf options schedule readings).vocabulary
        (tableOf options schedule readings).state.index
        (tableOf options schedule readings).state.counts options.config reference.row ∧
      reference.Plain :=
    fun reference hreference =>
      ⟨scored_tableOf hreadings (hrows reference hreference).1, (hrows reference hreference).2⟩
  have hlines : Text.lines (ReferenceRow.text references) = references.map ReferenceRow.line := by
    apply Text.lines_join
    rw [List.forall_mem_map]
    intro reference hreference
    exact (hscored reference hreference).1.feed_not_mem_line (hscored reference hreference).2
  obtain ⟨summary, hcount, hrejected, hcheck⟩ :=
    Scored.checkLines hscored note debugLevel start .empty 1
  unfold checkText
  rw [hlines]
  exact ⟨summary, hcount.trans (Nat.zero_add _), hrejected, hcheck⟩

/-- All rows of a run are checked with the scorer of the run, against values of their own. -/
theorem makeTable_recheck_all_rows :
    ∃ (table : Table) (after : Transcript) (summary : Summary),
      ((Environment.recorded twoSentences "0" .inTurn).makeTable (smallOptions {})
        (.bitext "bitext")).run.run ⟨[], []⟩ = (.ok table, after) ∧
      table.rows.map Row.text =
        [ "das ||| the ||| 0-0 ||| 1 1 0.666666666667 1", "ein ||| a ||| 0-0 ||| 0.5 1 1 1"
        , "das ||| a ||| 0-0 ||| 0.5 1e-05 0.333333333333 1e-05" ] ∧
      summary.lines = 3 ∧ summary.rejected = 0 ∧
      (checkText (fun _ pair => ((), table.state.counts.score (smallOptions {}).config pair)) 1
          table.vocabulary table.state.index ()
          (ReferenceRow.text (table.rows.map fun row => ⟨row, "0-1", "0.25 nan"⟩))).value =
        (⟨table.vocabulary, table.state.index, (), summary⟩, .ok summary) := by
  have hstatus : (runRecorded twoSentences "0" (smallOptions {})).1 = 0 := by decide +kernel
  obtain ⟨readings, after, hread, htable⟩ := exists_makeTable_of_runRecorded rfl hstatus
  have hrows :
      ((readingsOf twoSentences (smallOptions {}) (.bitext "bitext")).toOption.map fun readings =>
        (tableOf (smallOptions {}) .inTurn readings).rows.map Row.text) =
      some
        [ "das ||| the ||| 0-0 ||| 1 1 0.666666666667 1", "ein ||| a ||| 0-0 ||| 0.5 1 1 1"
        , "das ||| a ||| 0-0 ||| 0.5 1e-05 0.333333333333 1e-05" ] := by decide +kernel
  rw [hread] at hrows
  simp only [Except.toOption, Option.map_some, Option.some.injEq] at hrows
  have hnumbers : ∀ token ∈ Text.tokens "0.25 nan", (Number.read token).toOption.isSome = true := by
    decide +kernel
  have hreferences : ∀ reference ∈ (tableOf (smallOptions {}) .inTurn readings).rows.map
      fun row => (⟨row, "0-1", "0.25 nan"⟩ : ReferenceRow),
      reference.row ∈ (tableOf (smallOptions {}) .inTurn readings).rows ∧ reference.Plain := by
    rw [List.forall_mem_map]
    intro row hrow
    refine ⟨hrow, by simp, by simp, ?_⟩
    intro token htoken
    have hnumber := hnumbers token htoken
    cases hreading : Number.read token with
    | error error => simp [hreading, Except.toOption] at hnumber
    | ok reading => exact ⟨reading, rfl⟩
  obtain ⟨-, summary, hlines, hrejected, hcheck⟩ :=
    makeTable_recheck htable hreferences (fun _ _ _ => ()) () 1
  have hlength := congrArg List.length hrows
  rw [List.length_map] at hlength
  rw [List.length_map, hlength] at hlines
  exact ⟨_, after, summary, htable, hrows, hlines, hrejected, hcheck⟩

end PhraseTable.Run
