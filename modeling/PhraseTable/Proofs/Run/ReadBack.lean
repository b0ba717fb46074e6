import PhraseTable.Proofs.Number.ReadBack
import PhraseTable.Proofs.Run.Recheck
import PhraseTable.Proofs.Score.Layout

/-!
# Reading back the scores of a table

A row becomes a line of a reference table when a second alignment is put in front of its scores. The
scores were written with twelve digits, and each of them can be read again unless it is faint. So
the rows of a run are checked without an error as long as no score is faint
(`ReferenceRow.Inserted.plain`), and the check ends at the first row with one that is
(`Scored.checkLines_of_faint`).
-/

set_option autoImplicit false

namespace PhraseTable

/-! ## Written scores -/

/-- The score is not zero, but its digits stay below the normal doubles. -/
def Score.Faint (score : Score) : Prop :=
  score.indefinite = false ∧ Number.Faint score.value

instance : DecidablePred Score.Faint :=
  fun _ => inferInstanceAs (Decidable (_ ∧ _))

namespace Score

variable {score : Score}

/-- The text of a faint score is refused as out of range. -/
theorem read_of_faint (h : score.Faint) :
    Number.read (score.significant Run.tableDigits) = .error .outOfRange := by
  unfold significant text
  rw [h.1]
  exact Number.read_significant_of_faint h.2

/-- The text of any other score is read. -/
theorem exists_read (h : ¬score.Faint) :
    ∃ reading : Number.Reading, Number.read (score.significant Run.tableDigits) = .ok reading := by
  unfold significant text
  cases hindefinite : score.indefinite with
  | true =>
    rw [if_pos rfl]
    exact Number.exists_read_of_special (by decide)
  | false => exact Number.exists_read_significant fun hfaint => h ⟨hindefinite, hfaint⟩

/-- The text of a score is a word without bars. -/
theorem isPlainWord_significant (score : Score) :
    Number.IsPlainWord (score.significant Run.tableDigits) := by
  unfold significant text
  split
  · exact Number.isPlainWord_of_special _ (by decide)
  · exact Number.isPlainWord_significant (by decide) _

end Score

/-- An accepted pair has scores. -/
theorem Counts.scores_ne_nil {counts : Counts} {config : Config} {pair : PhrasePair}
    {scores : List Score} (h : (counts.score config pair).value = some scores) : scores ≠ [] := by
  obtain ⟨features, -, rfl⟩ := exists_accepted h
  have hcolumns : 0 < config.columns.length := by
    rw [Config.length_columns]
    split
    · decide
    · split <;> decide
  rwa [ne_eq, List.map_eq_nil_iff, ← ne_eq, ← List.length_pos_iff]

namespace Run

/-- A score of the row is faint. -/
def Row.Faint (row : Row) : Prop := ∃ score ∈ row.scores, score.Faint

instance : DecidablePred Row.Faint :=
  fun row => inferInstanceAs (Decidable (∃ score ∈ row.scores, score.Faint))

/-- The text of the scores of a row. -/
def Row.values (row : Row) : String :=
  " ".intercalate (row.scores.map fun score => score.significant tableDigits)

/-- Words with a space in front of each are words with spaces between them, and one in front. -/
theorem intercalate_spaced {words : List String} (h : words ≠ []) :
    "".intercalate (words.map (" " ++ ·)) = " " ++ " ".intercalate words := by
  rw [← String.toList_inj]
  induction words with
  | nil => exact absurd rfl h
  | cons word rest ih =>
    cases rest with
    | nil => simp
    | cons next rest =>
      have hrest := ih (List.cons_ne_nil _ _)
      simp at hrest ⊢
      exact hrest

/-- A row is printed as its pair and its values, with bars between them. -/
theorem Row.text_eq {row : Row} (h : row.scores ≠ []) :
    row.text = row.pair.text ++ " ||| " ++ row.values := by
  have hwords : (row.scores.map fun score => score.significant tableDigits) ≠ [] := by
    simpa using h
  have hspaced := intercalate_spaced hwords
  rw [List.map_map] at hspaced
  have htext : row.text = row.pair.text ++ " |||" ++
      "".intercalate (row.scores.map fun score => " " ++ score.significant tableDigits) := rfl
  rw [htext]
  change _ ++ "".intercalate (row.scores.map ((" " ++ ·) ∘ _)) = _
  rw [hspaced, Row.values, ← String.toList_inj]
  simp

/-- The values of a row are cut into the texts of its scores. -/
theorem Row.tokens_values (row : Row) :
    Text.tokens row.values = row.scores.map fun score => score.significant tableDigits := by
  apply Text.tokens_intercalate
  apply Text.isWords_of_solid
  simp only [List.forall_mem_map]
  intro score _
  obtain ⟨hne, hplain⟩ := score.isPlainWord_significant
  exact ⟨hne, fun c hc => (hplain c hc).1⟩

/-- There are no characters in the values of a row but plain ones and spaces. -/
theorem Row.not_mem_values (row : Row) {c : Char} (hc : ¬Number.IsPlain c) (hspace : c ≠ ' ') :
    c ∉ row.values.toList := by
  intro hmem
  unfold Row.values at hmem
  rw [String.toList_intercalate] at hmem
  rcases Text.mem_intercalate hmem with rfl | ⟨word, hword, hmem⟩
  · exact hspace rfl
  · simp only [List.mem_map] at hword
    obtain ⟨_, ⟨score, -, rfl⟩, rfl⟩ := hword
    exact hc (score.isPlainWord_significant.2 c hmem)

/-- What stands behind the links is a second alignment on one line without bars, and the scores of
the row as the run has written them. -/
structure ReferenceRow.Inserted (reference : ReferenceRow) : Prop where
  second : '|' ∉ reference.second.toList ∧ '\n' ∉ reference.second.toList
  values_eq : reference.values = reference.row.values

/-- The row with a second alignment in front of its scores. -/
def Row.withSecond (row : Row) (second : String) : ReferenceRow := ⟨row, second, row.values⟩

/-- A row with a field inserted is one with this field, if it has no bars and no line break. -/
theorem Row.inserted_withSecond (row : Row) {second : String}
    (h : '|' ∉ second.toList ∧ '\n' ∉ second.toList) : (row.withSecond second).Inserted :=
  ⟨h, rfl⟩

namespace ReferenceRow.Inserted

variable {reference : ReferenceRow}

/-- There are no bars and no line breaks in the values. -/
theorem not_mem_values (h : reference.Inserted) :
    '|' ∉ reference.values.toList ∧ '\n' ∉ reference.values.toList := by
  rw [h.values_eq]
  exact ⟨reference.row.not_mem_values (by decide) (by decide),
    reference.row.not_mem_values (by decide) (by decide)⟩

/-- A reference row whose scores are not faint is plain. -/
theorem plain (h : reference.Inserted) (hfaint : ¬reference.row.Faint) : reference.Plain where
  second := h.second
  values := h.not_mem_values
  numbers := by
    rw [h.values_eq, Row.tokens_values, List.forall_mem_map]
    exact fun score hscore => Score.exists_read fun hbad => hfaint ⟨score, hscore, hbad⟩

end ReferenceRow.Inserted

/-! ## Checking the rows as they were written -/

namespace Scored

variable {σ : Type} {vocabulary : Vocabulary} {index : PhraseIndex} {counts : Counts}
  {config : Config} {reference : ReferenceRow}

/-- A row with a faint score cannot be read, and its words are known all the same. -/
theorem read_of_faint (h : Scored vocabulary index counts config reference.row)
    (hinserted : reference.Inserted) (hfaint : reference.row.Faint) :
    ReferenceLine.read vocabulary reference.line =
      (vocabulary, .error (.number .outOfRange)) := by
  have hbuild := h.readBack.build fun word hword => (h.words word hword).1
  have hnumbers : (Text.tokens (Text.trim reference.values)).mapM Number.read =
      .error .outOfRange := by
    rw [Text.tokens_trim, hinserted.values_eq, Row.tokens_values]
    apply mapM_eq_error
    · rw [List.forall_mem_map]
      intro score _
      by_cases hscore : score.Faint
      · exact .inr (Score.read_of_faint hscore)
      · exact .inl (Score.exists_read hscore)
    · obtain ⟨score, hscore, hbad⟩ := hfaint
      exact ⟨_, List.mem_map_of_mem hscore, Score.read_of_faint hbad⟩
  rw [ReferenceLine.read_of_fields
    (h.fields_line hinserted.second.1 hinserted.not_mem_values.1), hbuild]
  unfold ReferenceLine.ofPair
  rw [hnumbers]
  rfl

/-- The check of rows ends at the first one with a faint score. -/
theorem checkLines_of_faint {front : List ReferenceRow}
    (hfront : ∀ earlier ∈ front,
      Scored vocabulary index counts config earlier.row ∧ earlier.Plain)
    (h : Scored vocabulary index counts config reference.row) (hinserted : reference.Inserted)
    (hfaint : reference.row.Faint) (back : List String)
    (note : σ → PhrasePair → Option (List Score) → σ) (debugLevel : Int) (state : σ)
    (summary : Summary) (lineNumber : Nat) :
    (CheckState.checkLines (notingScorer note counts config) debugLevel
        ⟨vocabulary, index, state, summary⟩ lineNumber
        (front.map ReferenceRow.line ++ reference.line :: back)).value.2 =
      .error ⟨.number .outOfRange, reference.line, lineNumber + front.length⟩ := by
  obtain ⟨summary', -, -, hchecked⟩ :=
    checkLines hfront note debugLevel state summary lineNumber
  rw [CheckState.checkLines_append, Logged.value_bind, hchecked]
  dsimp only
  rw [CheckState.checkLines_of_error (notingScorer note counts config) debugLevel
    ⟨vocabulary, index, _, summary'⟩ _ back reference.line_ne_empty
    (h.read_of_faint hinserted hfaint), List.length_map]
  rfl

end Scored

/-- **Which tables can be read back.** The rows that a run has printed become a reference table when
each of them gets any second alignment, without bars and line feeds, in front of its scores. It is
checked with the words and the numbers of the run. If no score is faint, all rows are read and no
pair is rejected. Otherwise the check ends with an error at the first row with a faint score, since
that score is out of range for the reader of numbers. -/
theorem makeTable_read_back {files : String → Option FileEntry} {seconds : String}
    {schedule : Schedule} {options : Options} {corpusFiles : CorpusFiles}
    {before after : Transcript} {table : Table} {references : List ReferenceRow}
    (htable : ((Environment.recorded files seconds schedule).makeTable options
      corpusFiles).run.run before = (.ok table, after))
    (hrows : ∀ reference ∈ references, reference.row ∈ table.rows ∧ reference.Inserted)
    {σ : Type} (note : σ → PhrasePair → Option (List Score) → σ) (start : σ) (debugLevel : Int) :
    after.output = before.output ++ table.rows.map Row.text ∧
    (∀ row ∈ table.rows, row.text = row.pair.text ++ " ||| " ++ row.values) ∧
    ((∀ reference ∈ references, ¬reference.row.Faint) →
      ∃ summary : Summary, summary.lines = references.length ∧ summary.rejected = 0 ∧
        (checkText (notingScorer note table.state.counts options.config) debugLevel
            table.vocabulary table.state.index start (ReferenceRow.text references)).value =
          (⟨table.vocabulary, table.state.index,
            references.foldl
              (fun state reference => note state reference.row.pair (some reference.row.scores))
              start,
            summary⟩, .ok summary)) ∧
    ∀ (front : List ReferenceRow) (reference : ReferenceRow) (back : List ReferenceRow),
      references = front ++ reference :: back → (∀ earlier ∈ front, ¬earlier.row.Faint) →
      reference.row.Faint →
        (checkText (notingScorer note table.state.counts options.config) debugLevel
            table.vocabulary table.state.index start (ReferenceRow.text references)).value.2 =
          .error ⟨.number .outOfRange, reference.line, front.length + 1⟩ := by
  obtain ⟨⟨readings, hreadings, rfl⟩, houtput, -⟩ :=
    Environment.makeTable_eq_ok seconds schedule htable
  have hscored := fun reference hreference =>
    scored_tableOf hreadings (hrows reference hreference).1
  have hlines : Text.lines (ReferenceRow.text references) = references.map ReferenceRow.line := by
    apply Text.lines_join
    rw [List.forall_mem_map]
    intro reference hreference
    have hinserted := (hrows reference hreference).2
    exact (hscored reference hreference).feed_not_mem_line_of_parts hinserted.second.2
      hinserted.not_mem_values.2
  refine ⟨houtput, ?_, ?_, ?_⟩
  · intro row hrow
    exact Row.text_eq (Counts.scores_ne_nil (scored_tableOf hreadings hrow).score_eq)
  · intro hsound
    obtain ⟨summary, hcount, hrejected, hcheck⟩ := Scored.checkLines
      (fun reference hreference => ⟨hscored reference hreference,
        (hrows reference hreference).2.plain (hsound reference hreference)⟩)
      note debugLevel start .empty 1
    unfold checkText
    rw [hlines]
    exact ⟨summary, hcount.trans (Nat.zero_add _), hrejected, hcheck⟩
  · rintro front reference back rfl hfront hfaint
    have hmem : reference ∈ front ++ reference :: back :=
      List.mem_append_right _ List.mem_cons_self
    have hearlier := fun earlier hearlier =>
      And.intro (hscored earlier (List.mem_append_left _ hearlier))
        ((hrows earlier (List.mem_append_left _ hearlier)).2.plain (hfront earlier hearlier))
    unfold checkText
    rw [hlines, List.map_append, List.map_cons, Nat.add_comm]
    exact Scored.checkLines_of_faint hearlier (hscored reference hmem) (hrows reference hmem).2
      hfaint _ note debugLevel start .empty 1

/-- One sentence pair, and two phrase pairs. The words of the second one are not in the corpus. -/
def unseenWords (name : String) : Option FileEntry :=
  ([("links", "0-0\n"), ("bitext", "a ||| x\n"), ("phrases",
    "a ||| x ||| 0-0\nb c ||| x ||| \n")].lookup name).map .text

/-- A lexical weight below `1e-160` counts as this much, and a product of two of them is faint. -/
def faintOptions : Options :=
  smallOptions { minLexProb := 1e-160 }

/-- The first row of a run is read back, and the check ends at the second one. -/
theorem makeTable_read_back_second_faint :
    ∃ (table : Table) (after : Transcript) (first second : Row),
      ((Environment.recorded unseenWords "0" .inTurn).makeTable faintOptions
          (.bitext "bitext")).run.run ⟨[], []⟩ = (.ok table, after) ∧
      table.rows = [first, second] ∧
      after.output =
        [ "a ||| x ||| 0-0 ||| 0.5 1 1 1"
        , "b c ||| x |||  ||| 0.5 9.99988867183e-321 1 1e-160" ] ∧
      (∃ summary : Summary, summary.lines = 1 ∧ summary.rejected = 0 ∧
        (checkText (notingScorer (fun _ _ _ => ()) table.state.counts faintOptions.config) 0
            table.vocabulary table.state.index ()
            (ReferenceRow.text [first.withSecond "0-0"])).value =
          (⟨table.vocabulary, table.state.index, (), summary⟩, .ok summary)) ∧
      (checkText (notingScorer (fun _ _ _ => ()) table.state.counts faintOptions.config) 0
          table.vocabulary table.state.index ()
          (ReferenceRow.text [first.withSecond "0-0", second.withSecond "0-0"])).value.2 =
        .error ⟨.number .outOfRange, (second.withSecond "0-0").line, 2⟩ := by
  have hstatus : (runRecorded unseenWords "0" faintOptions).1 = 0 := by decide +kernel
  obtain ⟨readings, after, hread, htable⟩ := exists_makeTable_of_runRecorded rfl hstatus
  have hrows :
      ((readingsOf unseenWords faintOptions (.bitext "bitext")).toOption.map fun readings =>
        (tableOf faintOptions .inTurn readings).rows.map fun row => (row.text, decide row.Faint)) =
      some
        [ ("a ||| x ||| 0-0 ||| 0.5 1 1 1", false)
        , ("b c ||| x |||  ||| 0.5 9.99988867183e-321 1 1e-160", true) ] := by decide +kernel
  rw [hread] at hrows
  simp only [Except.toOption, Option.map_some, Option.some.injEq, List.map_eq_cons_iff,
    List.map_eq_nil_iff, Prod.mk.injEq, decide_eq_false_iff_not, decide_eq_true_eq] at hrows
  obtain ⟨first, _, hrows, ⟨hfirst, hsound⟩, second, _, rfl, ⟨hsecond, hfaint⟩, rfl⟩ := hrows
  have hinserted : ∀ row ∈ [first, second], row ∈ (tableOf faintOptions .inTurn readings).rows ∧
      (row.withSecond "0-0").Inserted := by
    rw [hrows]
    exact fun row hrow => ⟨hrow, Row.inserted_withSecond row (by simp)⟩
  have hboth : ∀ reference ∈ [first.withSecond "0-0", second.withSecond "0-0"],
      reference.row ∈ (tableOf faintOptions .inTurn readings).rows ∧ reference.Inserted := by
    simpa [Row.withSecond] using hinserted
  have hone : ∀ reference ∈ [first.withSecond "0-0"],
      reference.row ∈ (tableOf faintOptions .inTurn readings).rows ∧ reference.Inserted :=
    fun reference hreference =>
      hboth reference (List.mem_cons.2 (.inl (List.mem_singleton.1 hreference)))
  obtain ⟨houtput, -, hread, -⟩ := makeTable_read_back htable hone (fun _ _ _ => ()) () 0
  obtain ⟨-, -, -, habort⟩ := makeTable_read_back htable hboth (fun _ _ _ => ()) () 0
  have hearlier : ∀ reference ∈ [first.withSecond "0-0"], ¬reference.row.Faint := by
    simpa [Row.withSecond] using hsound
  refine ⟨_, after, first, second, htable, hrows, ?_, hread hearlier, ?_⟩
  · rw [houtput, hrows]
    simp [hfirst, hsecond]
  · exact habort [_] _ [] rfl hearlier hfaint

/-- The checker does not read back all that a run has written. A phrase pair without a known word
gets the product of two least weights, and that number is written but not read. -/
theorem makeTable_unread_row :
    ∃ (table : Table) (after : Transcript),
      ((Environment.recorded unseenWords "0" .inTurn).makeTable faintOptions
          (.bitext "bitext")).run.run ⟨[], []⟩ = (.ok table, after) ∧
      after.output =
        [ "a ||| x ||| 0-0 ||| 0.5 1 1 1"
        , "b c ||| x |||  ||| 0.5 9.99988867183e-321 1 1e-160" ] ∧
      (checkText (fun _ pair => ((), table.state.counts.score faintOptions.config pair)) 0
          table.vocabulary table.state.index ()
          ("a ||| x ||| 0-0 ||| 0-0 ||| 0.5 1 1 1\n" ++
            "b c ||| x |||  ||| 0-0 ||| 0.5 9.99988867183e-321 1 1e-160\n")).value.2 =
        .error ⟨.number .outOfRange,
          "b c ||| x |||  ||| 0-0 ||| 0.5 9.99988867183e-321 1 1e-160", 2⟩ := by
  have hstatus : (runRecorded unseenWords "0" faintOptions).1 = 0 := by decide +kernel
  obtain ⟨readings, after, hread, htable⟩ := exists_makeTable_of_runRecorded rfl hstatus
  have hchecked :
      ((readingsOf unseenWords faintOptions (.bitext "bitext")).toOption.map fun readings =>
        let table := tableOf faintOptions .inTurn readings
        (table.rows.map Row.text,
          (checkText (fun _ pair => ((), table.state.counts.score faintOptions.config pair)) 0
            table.vocabulary table.state.index ()
            ("a ||| x ||| 0-0 ||| 0-0 ||| 0.5 1 1 1\n" ++
              "b c ||| x |||  ||| 0-0 ||| 0.5 9.99988867183e-321 1 1e-160\n")).value.2)) =
      some
        ([ "a ||| x ||| 0-0 ||| 0.5 1 1 1"
         , "b c ||| x |||  ||| 0.5 9.99988867183e-321 1 1e-160" ],
          .error ⟨.number .outOfRange,
            "b c ||| x |||  ||| 0-0 ||| 0.5 9.99988867183e-321 1 1e-160", 2⟩) := by
    decide +kernel
  rw [hread] at hchecked
  simp only [Except.toOption, Option.map_some, Option.some.injEq, Prod.mk.injEq] at hchecked
  obtain ⟨-, houtput, -⟩ := Environment.makeTable_eq_ok "0" .inTurn htable
  refine ⟨_, after, htable, ?_, hchecked.2⟩
  rw [houtput, hchecked.1]
  rfl

end Run

end PhraseTable
