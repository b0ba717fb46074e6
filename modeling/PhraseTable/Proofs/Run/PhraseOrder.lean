import PhraseTable.Proofs.Run.CorpusOrder

/-!
# The order of the phrase file

When the lines of the phrase file change places, words that only phrases have get other numbers,
phrases get other numbers too, and a pair may be kept as it stands on another line, with other
links. What stays is how the symbols of the two runs belong together: up to their order the second
run reads the renamed pairs (`Readings.Of.perm_pairs`). Counts are counts of symbols, texts are
those of symbols, and the largest weights look at nothing but symbols, so both runs accept the same
pairs with the same scores (`Matches.score_eq`), in another order.
-/

set_option autoImplicit false

namespace PhraseTable

/-! ## Lists that belong together by keys -/

section Keys

variable {α β γ κ : Type}

/-- If lists have the same keys in different orders, and members with the same key have the same
values, then they have the same values in different orders. -/
theorem perm_filterMap_of_keys {key : α → κ} {key' : β → κ} {f : α → Option γ} {g : β → Option γ}
    {xs : List α} {ys : List β} (hperm : (ys.map key').Perm (xs.map key))
    (hvalue : ∀ x ∈ xs, ∀ y ∈ ys, key' y = key x → g y = f x) :
    (ys.filterMap g).Perm (xs.filterMap f) := by
  have hkeys : List.Forall₂ (fun k x => k = key x) (xs.map key) xs :=
    List.forall₂_map_left_iff.2 (List.forall₂_same.2 fun _ _ => rfl)
  obtain ⟨zs, hzs, hxs⟩ := List.perm_comp_forall₂ hperm hkeys
  have hsame : ∀ {ys : List β} {zs : List α},
      List.Forall₂ (fun y z => key' y = key z) ys zs →
      (∀ z ∈ zs, ∀ y ∈ ys, key' y = key z → g y = f z) → ys.filterMap g = zs.filterMap f := by
    intro ys zs h hvalue
    induction h with
    | nil => rfl
    | @cons y z ys zs hkey _ ih =>
      have hrest := ih fun z' hz' y' hy' =>
        hvalue z' (List.mem_cons_of_mem z hz') y' (List.mem_cons_of_mem y hy')
      rw [List.filterMap_cons, List.filterMap_cons, hrest,
        hvalue z List.mem_cons_self y List.mem_cons_self hkey]
  rw [hsame (List.forall₂_map_left_iff.1 hzs) fun z hz => hvalue z (hxs.mem_iff.1 hz)]
  exact hxs.filterMap f

end Keys

/-! ## The words of symbols -/

/-- The word that a symbol stands for. -/
def Vocabulary.wordOf? (vocabulary : Vocabulary) : Int → Option String
  | .ofNat id => vocabulary.word? id
  | .negSucc _ => none

/-- The words of a phrase are those of its symbols. -/
theorem terminals_eq_filterMap {vocabulary : Vocabulary} {tokens : List String}
    (h : ∀ word ∈ terminals tokens, word ∈ vocabulary.words) (gaps : Nat) :
    terminals tokens =
      (phraseOf vocabulary.symbolOf gaps tokens).symbols.filterMap vocabulary.wordOf? := by
  induction tokens generalizing gaps with
  | nil => rfl
  | cons token rest ih =>
    unfold phraseOf
    split
    · rename_i hgap
      have hterminals := terminals_cons_of_gap hgap rest
      have hword : vocabulary.wordOf? (gapSymbol ((gaps : Int) + 1)) = none := rfl
      rw [hterminals] at h ⊢
      rw [List.filterMap_cons, hword]
      exact ih h (gaps + 1)
    · rename_i hword
      have hterminals := terminals_cons_of_word hword rest
      rw [hterminals, List.forall_mem_cons] at h
      obtain ⟨id, -, hfound, hid⟩ := Vocabulary.exists_symbolOf h.1
      have hsymbol : vocabulary.wordOf? (vocabulary.symbolOf token) = some token := by
        rw [hid]
        exact hfound
      rw [hterminals, List.filterMap_cons, hsymbol]
      exact congrArg (token :: ·) (ih h.2 gaps)

namespace PhrasePair

/-- Pairs with the same symbols have the same words, if all of them were read. -/
theorem words_eq_of_symbols {vocabulary : Vocabulary} {line line' : String} {p q : PhrasePair}
    (hp : ofLine vocabulary.symbolOf line = .ok p) (hq : ofLine vocabulary.symbolOf line' = .ok q)
    (hwords : ∀ word ∈ lineTerminals line ++ lineTerminals line', word ∈ vocabulary.words)
    (hsymbols : p.symbols = q.symbols) :
    p.sourceWords = q.sourceWords ∧ p.targetWords = q.targetWords := by
  have hdetermined : ∀ {line : String} {pair : PhrasePair},
      ofLine vocabulary.symbolOf line = .ok pair →
      (∀ word ∈ lineTerminals line, word ∈ vocabulary.words) →
      pair.sourceWords = pair.source.filterMap vocabulary.wordOf? ∧
        pair.targetWords = pair.target.filterMap vocabulary.wordOf? := by
    intro line pair hpair hknown
    obtain ⟨source, target, alignment, hfields, links, -, hparts⟩ := exists_parts hpair
    unfold lineTerminals at hknown
    rw [hfields] at hknown
    obtain ⟨hsourceKnown, htargetKnown⟩ := List.forall_mem_append.1 hknown
    rw [hparts.sourceWords_eq, hparts.targetWords_eq, hparts.source_eq, hparts.target_eq]
    exact ⟨terminals_eq_filterMap hsourceKnown 0, terminals_eq_filterMap htargetKnown 0⟩
  obtain ⟨hpKnown, hqKnown⟩ := List.forall_mem_append.1 hwords
  obtain ⟨hpSource, hpTarget⟩ := hdetermined hp hpKnown
  obtain ⟨hqSource, hqTarget⟩ := hdetermined hq hqKnown
  have hsource : p.source = q.source := congrArg Prod.fst hsymbols
  have htarget : p.target = q.target := congrArg Prod.snd hsymbols
  rw [hpSource, hpTarget, hqSource, hqTarget, hsource, htarget]
  exact ⟨rfl, rfl⟩

/-- The largest weights look at symbols only. -/
theorem value_maxLex_congr {p q : PhrasePair} (hsymbols : p.symbols = q.symbols)
    (table : LexicalTable) (config : Config) :
    (p.maxLexSourceGivenTarget table config).value =
        (q.maxLexSourceGivenTarget table config).value ∧
      (p.maxLexTargetGivenSource table config).value =
        (q.maxLexTargetGivenSource table config).value := by
  have hsource : p.source = q.source := congrArg Prod.fst hsymbols
  have htarget : p.target = q.target := congrArg Prod.snd hsymbols
  constructor
  · show (Candidates.product config (p.sourceCandidates table)).value =
      (Candidates.product config (q.sourceCandidates table)).value
    rw [Candidates.value_product_map, Candidates.value_product_map]
    simp only [sourceCandidates, AlignedPair.sourceAt, hsource, htarget, List.map_map,
      Function.comp_def]
  · show (Candidates.product config (p.targetCandidates table)).value =
      (Candidates.product config (q.targetCandidates table)).value
    rw [Candidates.value_product_map, Candidates.value_product_map]
    simp only [targetCandidates, AlignedPair.targetAt, hsource, htarget, List.map_map,
      Function.comp_def]

end PhrasePair

namespace Run

/-! ## Pairs in another order -/

/-- Lines in another order are read as the pairs in another order. -/
theorem ReadAs.perm {symbolOf : String → Int} {lines lines' : List String}
    {pairs : List PhrasePair} (h : ReadAs symbolOf lines pairs) (hlines : lines'.Perm lines) :
    ∃ pairs' : List PhrasePair, ReadAs symbolOf lines' pairs' ∧ pairs'.Perm pairs :=
  List.perm_comp_forall₂ hlines h

section Readings

variable {readings readings' : Readings} {rows : List SentenceRow} {lines lines' : List String}

/-- The phrase pairs of lines in another order are renamed, and stand in another order. -/
theorem Readings.Of.perm_pairs (h : readings.Of rows lines) (h' : readings'.Of rows lines')
    (hlines : lines'.Perm lines)
    (hrenaming : Renaming (readings.vocabulary.translate readings'.vocabulary)) :
    readings'.pairs.Perm (readings.pairs.map
      (PhrasePair.rename (readings.vocabulary.translate readings'.vocabulary))) := by
  have hrenamed := h.pairs.rename hrenaming fun word hword =>
    (Vocabulary.translate_symbolOf ((h.words word).2 (Or.inr (Or.inr hword)))).symm
  obtain ⟨pairs', hread, hperm⟩ := hrenamed.perm hlines
  have hsame : readings'.pairs = pairs' := by
    refine List.right_unique_forall₂' ?_ h'.pairs hread
    intro line pair pair' hpair hpair'
    exact Except.ok.inj (hpair.symm.trans hpair')
  rw [hsame]
  exact hperm

end Readings

/-! ## Runs on pairs in another order -/

namespace PassState.Matches

variable {ρ : Int → Int} {state state' : PassState}

/-- The different pairs have the symbols of all pairs. -/
theorem mem_symbols_distinct {symbols : List Int × List Int} :
    (symbols ∈ state.distinct.map fun pair => pair.symbols) ↔
      symbols ∈ state.pairs.map fun pair => pair.symbols :=
  mem_map_firstsBy.trans (and_iff_left List.not_mem_nil)

/-- The different pairs of one state are those of the other one, up to their symbols and their
order. -/
theorem perm_distinct (h : Matches ρ state state') :
    (state'.distinct.map fun pair => pair.symbols).Perm
      (state.distinct.map fun pair => renameSymbols ρ pair.symbols) := by
  have hmap : (state.distinct.map fun pair => renameSymbols ρ pair.symbols) =
      (state.distinct.map fun pair => pair.symbols).map (renameSymbols ρ) := by
    rw [List.map_map]
    rfl
  have hnodup := (nodup_map_firstsBy (fun pair : PhrasePair => pair.symbols) [] state.pairs).map
    (renameSymbols_injective h.renames)
  rw [hmap]
  apply (List.perm_ext_iff_of_nodup (nodup_map_firstsBy _ _ _) hnodup).2
  intro symbols
  show (symbols ∈ state'.distinct.map fun pair => pair.symbols) ↔
    symbols ∈ (state.distinct.map fun pair => pair.symbols).map (renameSymbols ρ)
  rw [mem_symbols_distinct, h.perm_symbols.mem_iff, List.mem_map, List.mem_map]
  simp only [mem_symbols_distinct]

variable {pair pair' : PhrasePair}

/-- With the largest weights, pairs of the same symbols have the same scores. -/
theorem score_eq (h : Matches ρ state state') {config : Config} (hmax : config.maxLexical = true)
    (hpair : pair ∈ state.pairs) (hpair' : pair' ∈ state'.pairs)
    (hsymbols : pair'.symbols = renameSymbols ρ pair.symbols) :
    (state'.counts.score config pair').value = (state.counts.score config pair).value := by
  have hoccurrences := h.occurrences?_eq hpair hpair' hsymbols
  have hfeature := Feature.value_score_rename h.renames h.table config ⟨0, 0, 0⟩ pair
  have hsame : pair'.symbols = (pair.rename ρ).symbols := hsymbols
  obtain ⟨hsource, htarget⟩ :=
    PhrasePair.value_maxLex_congr hsame state'.counts.words.table config
  have hverdict :
      ((LexicalModel.ofConfig state'.counts.words.table config).judge config
        state'.counts.phrases pair').value =
      ((LexicalModel.ofConfig state.counts.words.table config).judge config
        state.counts.phrases pair).value := by
    unfold LexicalModel.ofConfig
    rw [if_pos hmax, if_pos hmax]
    exact LexicalModel.value_judge_congr hoccurrences
      (hsource.trans (hfeature .maxLexSourceGivenTarget))
      (htarget.trans (hfeature .maxLexTargetGivenSource))
  exact congrArg (Verdict.scores? config) hverdict

end PassState.Matches

/-- What a row says, whatever links it has. -/
def Row.entry (row : Row) : String × String × List Score :=
  (row.pair.sourceText, row.pair.targetText, row.scores)

/-- What the row of a pair says, if the pair is accepted. -/
def entryOf? (counts : Counts) (config : Config) (pair : PhrasePair) :
    Option (String × String × List Score) :=
  (counts.score config pair).value.map fun scores => (pair.sourceText, pair.targetText, scores)

/-- Up to their order, the entries of a table are those of the different pairs. -/
theorem map_entry_tableOf {options : Options} {schedule : Schedule} {readings : Readings}
    (h : (tableOf options schedule readings).state.firstOccurrences.Perm
      (tableOf options schedule readings).state.distinct) :
    ((tableOf options schedule readings).rows.map Row.entry).Perm
      ((tableOf options schedule readings).state.distinct.filterMap
        (entryOf? (tableOf options schedule readings).state.counts options.config)) := by
  have hrows : (tableOf options schedule readings).rows = _ := value_scorePairs _ _ _
  have hentry : ∀ pair : PhrasePair,
      (((tableOf options schedule readings).state.counts.score options.config pair).value.map
        (Row.mk pair)).map Row.entry =
        entryOf? (tableOf options schedule readings).state.counts options.config pair :=
    fun pair => Option.map_map _ _ _
  rw [hrows, List.map_filterMap]
  exact (List.Perm.of_eq (List.filterMap_congr fun pair _ => hentry pair)).trans
    (h.filterMap _)

section Readings

variable {readings readings' : Readings} {rows : List SentenceRow} {lines lines' : List String}

/-- The pairs have the symbols with which they were read. -/
theorem symbols_finalState (config : Config) (schedule : Schedule)
    (sentences : List SentencePair) (pairs : List PhrasePair) :
    ((finalState config schedule sentences pairs).pairs.map fun pair => pair.symbols) =
      pairs.map fun pair => pair.symbols := by
  rw [pairs_finalState, List.map_map]
  rfl

/-- The order of lines says nothing about their gaps. -/
theorem FewGaps.perm (h : FewGaps lines) (hlines : lines'.Perm lines) : FewGaps lines' :=
  fun line hline => h line (hlines.mem_iff.1 hline)

namespace Readings.Of

variable (h : readings.Of rows lines) (h' : readings'.Of rows lines') (hlines : lines'.Perm lines)

include h h' hlines

/-- Runs on the same lines differ by a renaming. -/
theorem isRenaming : Renaming (readings.vocabulary.translate readings'.vocabulary) := by
  rw [← reorder_range rows] at h'
  exact Vocabulary.isRenaming_translate (h.mem_words_iff h' (.refl _) hlines)

/-- Both runs have counted the same pairs, up to their symbols and their order. -/
theorem matches_tableOf (options : Options) (schedule schedule' : Schedule) :
    (tableOf options schedule readings).state.Matches
      (readings.vocabulary.translate readings'.vocabulary)
      (tableOf options schedule' readings').state := by
  have hrenaming := h.isRenaming h' hlines
  have hcounted := counted_finalState options.config (schedule.forThreads options.threads)
    readings.corpus.sentences.toList readings.pairs
  have hcounted' := counted_finalState options.config (schedule'.forThreads options.threads)
    readings'.corpus.sentences.toList readings'.pairs
  have hsentences : readings'.corpus.sentences.toList.Perm
      (readings.corpus.sentences.toList.map
        (AlignedPair.rename (readings.vocabulary.translate readings'.vocabulary))) := by
    rw [← reorder_range rows] at h'
    exact h.perm_sentences h' (.refl _)
  refine
    { renames := hrenaming
      perm_symbols := ?_
      table := hcounted.renames hrenaming (hcounted'.perm (perm_passedWords hrenaming hsentences _))
      numbered := numbered_finalState _ _ _ _
      numbered' := numbered_finalState _ _ _ _
      counted := phrases_finalState _ _ _ _
      counted' := phrases_finalState _ _ _ _ }
  have hpairs := (h.perm_pairs h' hlines hrenaming).map fun pair => pair.symbols
  unfold tableOf
  rw [symbols_finalState, symbols_finalState]
  rw [List.map_map] at hpairs ⊢
  exact hpairs

/-- Pairs of the same symbols are written with the same words. -/
theorem phraseTexts_eq {options : Options} {schedule schedule' : Schedule}
    {pair pair' : PhrasePair} (hpair : pair ∈ (tableOf options schedule readings).state.pairs)
    (hpair' : pair' ∈ (tableOf options schedule' readings').state.pairs)
    (hsymbols : pair'.symbols =
      renameSymbols (readings.vocabulary.translate readings'.vocabulary) pair.symbols) :
    pair'.sourceText = pair.sourceText ∧ pair'.targetText = pair.targetText := by
  have hrenaming := h.isRenaming h' hlines
  obtain ⟨line, hline, hread⟩ :=
    (h.pairs.pairs_finalState options.config (schedule.forThreads options.threads)
      readings.corpus.sentences.toList).exists_line (List.mem_map_of_mem hpair)
  obtain ⟨line', hline', hread'⟩ :=
    (h'.pairs.pairs_finalState options.config (schedule'.forThreads options.threads)
      readings'.corpus.sentences.toList).exists_line (List.mem_map_of_mem hpair')
  have hknown : ∀ word ∈ PhrasePair.lineTerminals line' ++ PhrasePair.lineTerminals line,
      word ∈ readings'.vocabulary.words :=
    List.forall_mem_append.2
      ⟨h'.mem_words_of_mem hline', h'.mem_words_of_mem (hlines.mem_iff.2 hline)⟩
  have hrenamed := PhrasePair.ofLine_rename hrenaming hread fun word hword =>
    (Vocabulary.translate_symbolOf (h.mem_words_of_mem hline word hword)).symm
  obtain ⟨hsourceWords, htargetWords⟩ :=
    PhrasePair.words_eq_of_symbols hread' hrenamed hknown hsymbols
  obtain ⟨hsourceText, htargetText⟩ := PhrasePair.phraseTexts_rename hrenaming hread
  have hsource : pair'.source = _ := congrArg Prod.fst hsymbols
  have htarget : pair'.target = _ := congrArg Prod.snd hsymbols
  change pair'.sourceWords = pair.sourceWords at hsourceWords
  change pair'.targetWords = pair.targetWords at htargetWords
  rw [← hsourceText, ← htargetText]
  unfold PhrasePair.sourceText PhrasePair.targetText
  rw [hsource, htarget, hsourceWords, htargetWords]
  exact ⟨rfl, rfl⟩

/-- The same lines in another order make a table of the same entries. -/
theorem perm_entries (hgaps : FewGaps lines) {options : Options}
    (hmax : options.config.maxLexical = true) (schedule schedule' : Schedule) :
    ((tableOf options schedule' readings').rows.map Row.entry).Perm
      ((tableOf options schedule readings).rows.map Row.entry) := by
  have hmatches := h.matches_tableOf h' hlines options schedule schedule'
  have hfound := firstFound_finalState (h.pairs.separated_finalState hgaps options.config
    (schedule.forThreads options.threads) readings.corpus.sentences.toList)
  have hfound' := firstFound_finalState (h'.pairs.separated_finalState (hgaps.perm hlines)
    options.config (schedule'.forThreads options.threads) readings'.corpus.sentences.toList)
  have hentries := map_entry_tableOf hfound.perm_distinct
  have hentries' := map_entry_tableOf hfound'.perm_distinct
  refine (hentries'.trans ?_).trans hentries.symm
  -- a pair may be kept from another line, with other links, so rows are matched by their symbols
  apply perm_filterMap_of_keys hmatches.perm_distinct
  intro pair hpair pair' hpair' hsymbols
  have hmem := PassState.mem_of_mem_distinct hpair
  have hmem' := PassState.mem_of_mem_distinct hpair'
  obtain ⟨hsourceText, htargetText⟩ := h.phraseTexts_eq h' hlines hmem hmem' hsymbols
  have hscore := hmatches.score_eq hmax hmem hmem' hsymbols
  unfold entryOf?
  rw [hscore, hsourceText, htargetText]

end Readings.Of

end Readings

/-- A corpus is told by its own files. -/
theorem corpusOf_congr {files files' : String → Option FileEntry} {options : Options}
    {corpusFiles : CorpusFiles}
    (h : ∀ name ∈ options.alignment :: corpusFiles.names, files' name = files name) :
    corpusOf files' options corpusFiles = corpusOf files options corpusFiles := by
  have halignment := h options.alignment List.mem_cons_self
  cases corpusFiles with
  | bitext name =>
    have hbitext := h name (List.mem_cons_of_mem _ List.mem_cons_self)
    unfold corpusOf
    rw [halignment]
    dsimp only
    rw [hbitext]
  | sides source target =>
    have hsource := h source (List.mem_cons_of_mem _ List.mem_cons_self)
    have htarget :=
      h target (List.mem_cons_of_mem _ (List.mem_cons_of_mem _ List.mem_cons_self))
    unfold corpusOf
    rw [halignment]
    dsimp only
    rw [hsource, htarget]

/-- **The order of the phrase file plays no part with the largest weights.** If the lines of the
phrase file change places, then a run that ended well ends well again, in whatever order the threads
of both runs get on. Both runs print one row for each row of their tables, and up to their order
these have the same phrases and the same scores. -/
theorem runRecorded_permute_phrases {files files' : String → Option FileEntry}
    {seconds : String} (seconds' : String) {schedule : Schedule} (schedule' : Schedule)
    {options : Options} {corpusFiles : CorpusFiles} {text text' : String}
    (hfiles : options.corpusFiles? = some corpusFiles)
    (hmax : options.config.maxLexical = true)
    (hstatus : (runRecorded files seconds options schedule).1 = 0)
    (hcorpus : ∀ name ∈ options.alignment :: corpusFiles.names, files' name = files name)
    (htext : files options.phrases = some (.text text))
    (htext' : files' options.phrases = some (.text text'))
    (hlines : (Text.lines text').Perm (Text.lines text))
    (hgaps : FewGaps (phraseLines (Text.lines text))) :
    ∃ (table table' : Table) (after after' : Transcript),
      ((Environment.recorded files seconds schedule).makeTable options
        corpusFiles).run.run ⟨[], []⟩ = (.ok table, after) ∧
      ((Environment.recorded files' seconds' schedule').makeTable options
        corpusFiles).run.run ⟨[], []⟩ = (.ok table', after') ∧
      (runRecorded files seconds options schedule).2.output = table.rows.map Row.text ∧
      (runRecorded files' seconds' options schedule').1 = 0 ∧
      (runRecorded files' seconds' options schedule').2.output = table'.rows.map Row.text ∧
      (table'.rows.map Row.entry).Perm (table.rows.map Row.entry) := by
  obtain ⟨readings, after, hread, htable⟩ := exists_makeTable_of_runRecorded hfiles hstatus
  obtain ⟨hcorpusRead, hphrases⟩ := readingsOf_eq_ok_iff.1 hread
  obtain ⟨rows, -, hsentences⟩ := corpusOf_eq_ok_iff.1 hcorpusRead
  unfold phrasesOf at hphrases
  rw [htext] at hphrases
  have hof := Readings.of_addSentences hsentences hphrases
  have hphraseLines : (phraseLines (Text.lines text')).Perm (phraseLines (Text.lines text)) :=
    hlines.filter _
  obtain ⟨pairs, hpairs, -⟩ := hof.pairs.perm hphraseLines
  obtain ⟨vocabulary, pairs', hphrases'⟩ :=
    exists_readPhrases hpairs options.phrases readings.corpus.vocabulary 1
  have hof' := Readings.of_addSentences hsentences hphrases'
  have hread' : readingsOf files' options corpusFiles =
      .ok ⟨readings.corpus, vocabulary, pairs'⟩ := by
    refine readingsOf_eq_ok_iff.2 ⟨(corpusOf_congr hcorpus).trans hcorpusRead, ?_⟩
    unfold phrasesOf
    rw [htext']
    exact hphrases'
  obtain ⟨log, hrun⟩ := runRecorded_of_readings hfiles hread
  obtain ⟨log', hrun'⟩ := runRecorded_of_readings hfiles hread'
  obtain ⟨after', htable'⟩ := Environment.exists_makeTable seconds' schedule' hread' ⟨[], []⟩
  rw [hrun, hrun']
  exact ⟨_, _, after, after', htable, htable', rfl, rfl, rfl,
    hof.perm_entries hof' hphraseLines hgaps hmax schedule schedule'⟩

/-- Files with one sentence pair and the given phrase pairs. -/
def oneSentence (phrases name : String) : Option FileEntry :=
  ([("links", "0-0 1-1\n"), ("bitext", "das haus ||| the house\n"), ("phrases", phrases)].lookup
    name).map .text

/-- Two pairs, one of them with two alignments. -/
def alignedTwice : String :=
  "das haus ||| the house ||| 0-0 1-1\ndas haus ||| the house ||| 0-1\ndas ||| the ||| 0-0\n"

/-- The same lines from the last one to the first. -/
def alignedTwiceReversed : String :=
  "das ||| the ||| 0-0\ndas haus ||| the house ||| 0-1\ndas haus ||| the house ||| 0-0 1-1\n"

/-- The rows change places, and the pair with two alignments is printed with its other links. -/
theorem runRecorded_permute_phrases_two_alignments :
    ∃ table table' : Table,
      table.rows.map Row.text =
        ["das haus ||| the house ||| 0-0 1-1 ||| 1 1 1 1", "das ||| the ||| 0-0 ||| 1 1 1 1"] ∧
      table'.rows.map Row.text =
        ["das ||| the ||| 0-0 ||| 1 1 1 1", "das haus ||| the house ||| 0-1 ||| 1 1 1 1"] ∧
      (table'.rows.map Row.entry).Perm (table.rows.map Row.entry) := by
  have hrun : runRecorded (oneSentence alignedTwice) "0" (smallOptions { maxLexical := true }) =
      (0, ⟨["das haus ||| the house ||| 0-0 1-1 ||| 1 1 1 1", "das ||| the ||| 0-0 ||| 1 1 1 1"],
        (runRecorded (oneSentence alignedTwice) "0"
          (smallOptions { maxLexical := true })).2.log⟩) := by decide +kernel
  have hrows' : (runRecorded (oneSentence alignedTwiceReversed) "0"
      (smallOptions { maxLexical := true })).2.output =
      ["das ||| the ||| 0-0 ||| 1 1 1 1", "das haus ||| the house ||| 0-1 ||| 1 1 1 1"] := by
    decide +kernel
  have hcorpus : ∀ name ∈ ["links", "bitext"],
      oneSentence alignedTwiceReversed name = oneSentence alignedTwice name := by
    intro name hname
    rw [List.mem_cons, List.mem_singleton] at hname
    obtain rfl | rfl := hname <;> rfl
  have hfiles : (smallOptions { maxLexical := true }).corpusFiles? = some (.bitext "bitext") := rfl
  have hlines : (Text.lines alignedTwiceReversed).Perm (Text.lines alignedTwice) := by
    decide +kernel
  have hgaps : FewGaps (phraseLines (Text.lines alignedTwice)) := by decide +kernel
  obtain ⟨table, table', -, -, -, -, houtput, -, houtput', hperm⟩ :=
    runRecorded_permute_phrases "0" .inTurn hfiles rfl (congrArg Prod.fst hrun) hcorpus rfl rfl
      hlines hgaps
  refine ⟨table, table', ?_, houtput'.symm.trans hrows', hperm⟩
  rw [← houtput, hrun]

end Run

end PhraseTable
