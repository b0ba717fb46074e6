import PhraseTable.Proofs.Renaming
import PhraseTable.Proofs.Run.Rows

/-!
# The order of the corpus

Two runs whose corpora hold the same sentence pairs in different orders give their words different
numbers. Both runs are told by what their vocabularies say of the same rows, so one reads the
renamed pairs of the other (`pairs_eq`) and counts the renamed word pairs (`perm_passedWords`).
Phrases may get other numbers as well, if the threads of the runs get on in different orders, but a
count is one of symbols, so every pair has the same counts (`Matches.occurrences?_eq`) and the same
scores (`Twins.value_score`). The text of a phrase pair has no numbers in it, so both tables have
the same rows. These stand in the order in which phrase pairs came to the index, and that is all in
which the tables can differ: `runRecorded_reorder`.
-/

set_option autoImplicit false

namespace PhraseTable.Run

/-! ## The rows of a corpus -/

section Rows

variable {files : String → Option FileEntry} {options : Options} {corpusFiles : CorpusFiles}

/-- A corpus is accepted just when it was read without an error. -/
theorem acceptedCorpus_eq_ok_iff {read : Corpus × Except CorpusError Unit} {corpus : Corpus} :
    acceptedCorpus read = .ok corpus ↔ read = (corpus, .ok ()) := by
  obtain ⟨found, outcome⟩ := read
  unfold acceptedCorpus
  rw [mapError_eq_ok_iff]
  cases outcome with
  | error error => exact iff_of_false nofun nofun
  | ok value => simp [Except.map]

/-- The lines of the two sides of a corpus. -/
inductive SidesOf (files : String → Option FileEntry) :
    CorpusFiles → List String → List String → Prop where
  | bitext {name text : String} {sides : List (String × String)}
      (htext : files name = some (.text text))
      (hsides : Corpus.splitSides (Text.lines text) = .ok sides) :
      SidesOf files (.bitext name) (sides.map Prod.fst) (sides.map Prod.snd)
  | sides {sourceName targetName source target : String}
      (hsource : files sourceName = some (.text source))
      (htarget : files targetName = some (.text target)) :
      SidesOf files (.sides sourceName targetName) (Text.lines source) (Text.lines target)

/-- The rows of a corpus: its two sides, and the alignment beside them. -/
inductive RowsOf (files : String → Option FileEntry) (options : Options)
    (corpusFiles : CorpusFiles) : List SentenceRow → Prop where
  | intro {text : String} {alignment : Alignment} {sources targets : List String}
      (htext : files options.alignment = some (.text text))
      (halignment : Alignment.ofText text = .ok alignment)
      (hsides : SidesOf files corpusFiles sources targets)
      (htargets : sources.length = targets.length) (hlinks : sources.length = alignment.length) :
      RowsOf files options corpusFiles (sources.zip (targets.zip alignment))

/-- Lines are read just when there are as many on each side and in the alignment, and all of their
rows are accepted. -/
theorem addLines_eq_ok_iff {corpus after : Corpus} {sources targets : List String}
    {alignment : Alignment} :
    corpus.addLines sources targets alignment = (after, .ok ()) ↔
      (sources.length = targets.length ∧ sources.length = alignment.length) ∧
        corpus.addSentences 1 (sources.zip (targets.zip alignment)) = (after, .ok ()) := by
  unfold Corpus.addLines
  split
  · rename_i hsizes
    exact ⟨fun h => ⟨hsizes, h⟩, fun h => h.2⟩
  · rename_i hsizes
    exact iff_of_false nofun fun h => hsizes h.1

/-- A run that has a corpus has read the rows of its files. -/
theorem corpusOf_eq_ok_iff {corpus : Corpus} :
    corpusOf files options corpusFiles = .ok corpus ↔
      ∃ rows : List SentenceRow, RowsOf files options corpusFiles rows ∧
        Corpus.empty.addSentences 1 rows = (corpus, .ok ()) := by
  constructor
  · intro h
    obtain ⟨text, htext, h⟩ := exists_of_bind_eq_ok h
    obtain ⟨alignment, halignment, h⟩ := exists_of_bind_eq_ok h
    rw [contentOf_eq_ok_iff] at htext
    rw [mapError_eq_ok_iff] at halignment
    cases corpusFiles with
    | bitext name =>
      obtain ⟨bitext, hbitext, h⟩ := exists_of_bind_eq_ok h
      rw [contentOf_eq_ok_iff] at hbitext
      rw [acceptedCorpus_eq_ok_iff] at h
      unfold Corpus.readBitext at h
      split at h
      · cases h
      · rename_i sides hsides
        obtain ⟨⟨htargets, hlinks⟩, hrows⟩ := addLines_eq_ok_iff.1 h
        exact ⟨_, .intro htext halignment (.bitext hbitext hsides) htargets hlinks, hrows⟩
    | sides sourceName targetName =>
      obtain ⟨source, hsource, h⟩ := exists_of_bind_eq_ok h
      obtain ⟨target, htarget, h⟩ := exists_of_bind_eq_ok h
      rw [contentOf_eq_ok_iff] at hsource htarget
      rw [acceptedCorpus_eq_ok_iff] at h
      obtain ⟨⟨htargets, hlinks⟩, hrows⟩ := addLines_eq_ok_iff.1 h
      exact ⟨_, .intro htext halignment (.sides hsource htarget) htargets hlinks, hrows⟩
  · rintro ⟨rows, ⟨htext, halignment, hsides, htargets, hlinks⟩, hrows⟩
    have hlines := addLines_eq_ok_iff.2 ⟨⟨htargets, hlinks⟩, hrows⟩
    unfold corpusOf
    rw [contentOf_eq_ok_iff.2 htext]
    show Except.mapError _ _ >>= _ = _
    rw [mapError_eq_ok_iff.2 halignment]
    cases hsides with
    | bitext hbitext hsides =>
      show contentOf _ _ >>= _ = _
      rw [contentOf_eq_ok_iff.2 hbitext]
      show acceptedCorpus _ = _
      rw [acceptedCorpus_eq_ok_iff]
      unfold Corpus.readBitext
      rw [hsides]
      exact hlines
    | sides hsource htarget =>
      show contentOf _ _ >>= _ = _
      rw [contentOf_eq_ok_iff.2 hsource]
      show contentOf _ _ >>= _ = _
      rw [contentOf_eq_ok_iff.2 htarget]
      exact acceptedCorpus_eq_ok_iff.2 hlines

end Rows

/-! ## Files with their lines in another order -/

/-- The files of a corpus. -/
def CorpusFiles.names : CorpusFiles → List String
  | .bitext name => [name]
  | .sides source target => [source, target]

/-- Under this name the files have the same lines, where those of the second one stand in the given
order. -/
def Reordered (files files' : String → Option FileEntry) (order : List Nat) (name : String) :
    Prop :=
  ∃ text text' : String, files name = some (.text text) ∧ files' name = some (.text text') ∧
    order.Perm (List.range (Text.lines text).length) ∧
    Text.lines text' = reorder order (Text.lines text)

section Files

variable {files files' : String → Option FileEntry} {options : Options} {corpusFiles : CorpusFiles}
  {order : List Nat}

/-- The sides of reordered files are the lines in the new order. -/
theorem SidesOf.reorder {sources targets : List String}
    (h : SidesOf files corpusFiles sources targets)
    (hfiles : ∀ name ∈ corpusFiles.names, Reordered files files' order name) :
    SidesOf files' corpusFiles (Run.reorder order sources) (Run.reorder order targets) := by
  cases h with
  | @bitext name text sides htext hsides =>
    obtain ⟨_, text', hold, htext', -, hlines⟩ := hfiles name List.mem_cons_self
    rw [htext] at hold
    cases hold
    have hsides' : Corpus.splitSides (Text.lines text') = .ok (Run.reorder order sides) := by
      rw [hlines]
      exact Corpus.splitSides_eq_ok_iff.2
        (forall₂_reorder (Corpus.splitSides_eq_ok_iff.1 hsides) order)
    have hboth := SidesOf.bitext htext' hsides'
    rwa [map_reorder, map_reorder] at hboth
  | @sides sourceName targetName source target hsource htarget =>
    obtain ⟨_, source', hold, hsource', -, hlines⟩ := hfiles sourceName List.mem_cons_self
    rw [hsource] at hold
    cases hold
    obtain ⟨_, target', hold, htarget', -, hlines'⟩ :=
      hfiles targetName (List.mem_cons_of_mem _ List.mem_cons_self)
    rw [htarget] at hold
    cases hold
    rw [← hlines, ← hlines']
    exact .sides hsource' htarget'

/-- The rows of reordered files are the rows in the new order. -/
theorem RowsOf.reorder {rows : List SentenceRow} (h : RowsOf files options corpusFiles rows)
    (hfiles : ∀ name ∈ options.alignment :: corpusFiles.names, Reordered files files' order name) :
    RowsOf files' options corpusFiles (Run.reorder order rows) ∧
      order.Perm (List.range rows.length) := by
  obtain ⟨htext, halignment, hsides, htargets, hlinks⟩ := h
  rename_i text alignment sources targets
  obtain ⟨_, text', hold, htext', horder, hlines⟩ := hfiles options.alignment List.mem_cons_self
  rw [htext] at hold
  cases hold
  have hread := Alignment.ofLines_eq_ok_iff.1 halignment
  have halignment' : Alignment.ofText text' = .ok (Run.reorder order alignment) := by
    unfold Alignment.ofText
    rw [hlines]
    exact Alignment.ofLines_eq_ok_iff.2 (forall₂_reorder hread order)
  have hsides' := hsides.reorder fun name hname => hfiles name (List.mem_cons_of_mem _ hname)
  have hrows' := RowsOf.intro htext' halignment' hsides' (length_reorder htargets order)
    (length_reorder hlinks order)
  rw [zip_reorder (by omega), zip_reorder (by rw [List.length_zip]; omega)] at hrows'
  refine ⟨hrows', ?_⟩
  have hlength : (sources.zip (targets.zip alignment)).length = (Text.lines text).length := by
    rw [List.length_zip, List.length_zip, hread.length_eq]
    omega
  rw [hlength]
  exact horder

end Files

/-! ## Runs on the same rows -/

/-- What was read, told by the vocabulary at the end. -/
structure Readings.Of (readings : Readings) (rows : List SentenceRow) (lines : List String) :
    Prop where
  sentences : SentenceRow.ReadAs readings.vocabulary.symbolOf rows
    readings.corpus.sentences.toList
  pairs : ReadAs readings.vocabulary.symbolOf lines readings.pairs
  words : ∀ word : String, word ∈ readings.vocabulary.words ↔
    word ∈ Vocabulary.empty.words ∨ word ∈ rows.flatMap SentenceRow.words ∨
      word ∈ lines.flatMap PhrasePair.lineTerminals

/-- The words of all phrase lines are stored. -/
theorem Readings.Of.mem_words_of_mem {readings : Readings} {rows : List SentenceRow}
    {lines : List String} (h : readings.Of rows lines) {line : String} (hline : line ∈ lines) :
    ∀ word ∈ PhrasePair.lineTerminals line, word ∈ readings.vocabulary.words :=
  fun word hword => (h.words word).2 (Or.inr (Or.inr (List.mem_flatMap.2 ⟨line, hline, hword⟩)))

section Rows

variable {files : String → Option FileEntry} {options : Options} {corpusFiles : CorpusFiles}
  {text : String}

/-- What was read is made of these rows and lines. -/
theorem Readings.of_addSentences {rows : List SentenceRow} {corpus : Corpus} {name : String}
    {vocabulary : Vocabulary} {lines : List String} {pairs : List PhrasePair}
    (hrows : Corpus.empty.addSentences 1 rows = (corpus, .ok ()))
    (hlines : readPhrases name corpus.vocabulary 1 lines = .ok (vocabulary, pairs)) :
    Readings.Of ⟨corpus, vocabulary, pairs⟩ rows (phraseLines lines) := by
  obtain ⟨hextends, hwords, hpairs⟩ := readPhrases_eq_ok hlines
  obtain ⟨-, hcorpusWords, hread⟩ := Corpus.addSentences_eq_ok hrows
  obtain ⟨sentences, hsentences, hlist⟩ := hread vocabulary hextends
  change corpus.sentences.toList = sentences at hlist
  rw [← hlist] at hsentences
  refine ⟨hsentences, hpairs vocabulary (.refl _), ?_⟩
  intro word
  rw [hwords, hcorpusWords, or_assoc]
  rfl

/-- A run that has read its files has read the rows of its corpus. -/
theorem exists_rows_of_readingsOf {readings : Readings}
    (h : readingsOf files options corpusFiles = .ok readings)
    (htext : files options.phrases = some (.text text)) :
    ∃ rows : List SentenceRow, RowsOf files options corpusFiles rows ∧
      readings.Of rows (phraseLines (Text.lines text)) := by
  obtain ⟨hcorpus, hphrases⟩ := readingsOf_eq_ok_iff.1 h
  obtain ⟨rows, hrows, hsentences⟩ := corpusOf_eq_ok_iff.1 hcorpus
  unfold phrasesOf at hphrases
  rw [htext] at hphrases
  exact ⟨rows, hrows, Readings.of_addSentences hsentences hphrases⟩

end Rows

/-! ## Runs on the same rows in another order -/

/-- Renamed sentences in another order have renamed word pairs in another order. -/
theorem perm_passedWords {ρ : Int → Int} (h : Renaming ρ) {sentences sentences' : List SentencePair}
    (hperm : sentences'.Perm (sentences.map (AlignedPair.rename ρ))) (number : Nat) :
    (passedWords sentences' number).Perm ((passedWords sentences number).map (Prod.map ρ ρ)) := by
  have hpass : (sentences'.flatMap AlignedPair.wordPairs).Perm
      ((sentences.flatMap AlignedPair.wordPairs).map (Prod.map ρ ρ)) := by
    have hflat := hperm.flatMap_right AlignedPair.wordPairs
    rw [List.flatMap_map] at hflat
    rw [List.map_flatMap]
    simp only [AlignedPair.wordPairs_rename h] at hflat
    exact hflat
  induction number with
  | zero => exact .nil
  | succ number ih =>
    rw [passedWords_succ, passedWords_succ, List.map_append]
    exact ih.append hpass

namespace Readings.Of

variable {readings readings' : Readings} {rows : List SentenceRow} {lines lines' : List String}
  {order : List Nat}

/-- The order of rows and lines plays no part in which words are read. -/
theorem mem_words_iff (h : readings.Of rows lines) (h' : readings'.Of (reorder order rows) lines')
    (horder : order.Perm (List.range rows.length)) (hlines : lines'.Perm lines) (word : String) :
    word ∈ readings.vocabulary.words ↔ word ∈ readings'.vocabulary.words := by
  have hrowWords : word ∈ (reorder order rows).flatMap SentenceRow.words ↔
      word ∈ rows.flatMap SentenceRow.words :=
    ((perm_reorder horder).flatMap_right SentenceRow.words).mem_iff
  have hlineWords : word ∈ lines'.flatMap PhrasePair.lineTerminals ↔
      word ∈ lines.flatMap PhrasePair.lineTerminals :=
    (hlines.flatMap_right PhrasePair.lineTerminals).mem_iff
  rw [h.words, h'.words, hrowWords, hlineWords]

/-- The phrase pairs of the same lines are renamed. -/
theorem pairs_eq (h : readings.Of rows lines) (h' : readings'.Of (reorder order rows) lines)
    (horder : order.Perm (List.range rows.length)) :
    readings'.pairs = readings.pairs.map
      (PhrasePair.rename (readings.vocabulary.translate readings'.vocabulary)) := by
  have hrenaming := Vocabulary.isRenaming_translate (h.mem_words_iff h' horder (.refl lines))
  have hrenamed := h.pairs.rename hrenaming fun word hword =>
    (Vocabulary.translate_symbolOf ((h.words word).2 (Or.inr (Or.inr hword)))).symm
  refine List.right_unique_forall₂' ?_ h'.pairs hrenamed
  intro line pair pair' hpair hpair'
  exact Except.ok.inj (hpair.symm.trans hpair')

/-- The sentences of reordered rows are renamed, and stand in another order. -/
theorem perm_sentences (h : readings.Of rows lines) (h' : readings'.Of (reorder order rows) lines')
    (horder : order.Perm (List.range rows.length)) :
    readings'.corpus.sentences.toList.Perm (readings.corpus.sentences.toList.map
      (AlignedPair.rename (readings.vocabulary.translate readings'.vocabulary))) := by
  have hrenamed : SentenceRow.ReadAs readings'.vocabulary.symbolOf rows
      (readings.corpus.sentences.toList.map
        (AlignedPair.rename (readings.vocabulary.translate readings'.vocabulary))) :=
    h.sentences.rename fun word hword =>
      (Vocabulary.translate_symbolOf ((h.words word).2 (Or.inr (Or.inl hword)))).symm
  have hsentences : readings'.corpus.sentences.toList = reorder order
      (readings.corpus.sentences.toList.map
        (AlignedPair.rename (readings.vocabulary.translate readings'.vocabulary))) := by
    refine List.right_unique_forall₂' ?_ h'.sentences (forall₂_reorder hrenamed order)
    intro row sentence sentence' hsentence hsentence'
    exact Except.ok.inj (hsentence.symm.trans hsentence')
  rw [hsentences]
  apply perm_reorder
  rw [← hrenamed.length_eq]
  exact horder

end Readings.Of

/-! ## Counts of renamed pairs -/

/-- Members are counted by their keys, and different keys may be replaced by different others. -/
theorem countP_key_eq {α β κ κ' : Type} [DecidableEq κ] [DecidableEq κ'] {key : α → κ}
    {key' : β → κ'} {φ : κ → κ'} (hφ : Function.Injective φ) {xs : List α} {ys : List β}
    (hperm : (ys.map key').Perm ((xs.map key).map φ)) {x : α} {y : β}
    (hkey : key' y = φ (key x)) :
    (ys.countP fun z => key' z = key' y) = xs.countP fun z => key z = key x := by
  have hcount : ((ys.map key').count (φ (key x))) = (xs.map key).count (key x) := by
    rw [hperm.count_eq, List.count_map_of_injective _ φ hφ]
  rw [List.count, List.count, List.countP_map, List.countP_map] at hcount
  rw [hkey]
  exact hcount

/-- The symbols of both phrases, renamed. -/
def renameSymbols (ρ : Int → Int) : List Int × List Int → List Int × List Int :=
  Prod.map (List.map ρ) (List.map ρ)

/-- Different symbols stay different. -/
theorem renameSymbols_injective {ρ : Int → Int} (h : Renaming ρ) :
    Function.Injective (renameSymbols ρ) :=
  (List.map_injective_iff.2 h.injective).prodMap (List.map_injective_iff.2 h.injective)

/-- Both states were counted from the same pairs, up to their symbols and their order. -/
structure PassState.Matches (ρ : Int → Int) (state state' : PassState) : Prop where
  renames : Renaming ρ
  perm_symbols : (state'.pairs.map fun pair => pair.symbols).Perm
    ((state.pairs.map fun pair => pair.symbols).map (renameSymbols ρ))
  table : state.counts.words.table.Renames ρ state'.counts.words.table
  numbered : state.Numbered
  numbered' : state'.Numbered
  counted : state.counts.phrases = PhraseCounts.empty.addAll state.pairs
  counted' : state'.counts.phrases = PhraseCounts.empty.addAll state'.pairs

namespace PassState.Matches

variable {ρ : Int → Int} {state state' : PassState} {pair pair' : PhrasePair}

/-- What is told by the renamed symbols is told of as many pairs in both states. -/
theorem countP_eq (h : Matches ρ state state') (key : List Int × List Int → List Int)
    (hkey : ∀ symbols, key (renameSymbols ρ symbols) = (key symbols).map ρ)
    (hsymbols : pair'.symbols = renameSymbols ρ pair.symbols) :
    (state'.pairs.countP fun other => key other.symbols = key pair'.symbols) =
      state.pairs.countP fun other => key other.symbols = key pair.symbols := by
  have hperm := h.perm_symbols.map key
  have hrenamed : ((state.pairs.map fun pair => pair.symbols).map (renameSymbols ρ)).map key =
      (state.pairs.map fun pair => key pair.symbols).map (List.map ρ) := by
    rw [List.map_map, List.map_map, List.map_map]
    exact List.map_congr_left fun pair _ => hkey pair.symbols
  rw [hrenamed, List.map_map] at hperm
  apply countP_key_eq (List.map_injective_iff.2 h.renames.injective) hperm
  show key pair'.symbols = _
  rw [hsymbols, hkey]

/-- The three counts of a pair are those of the renamed pair. -/
theorem occurrences_eq (h : Matches ρ state state') (hpair : pair ∈ state.pairs)
    (hpair' : pair' ∈ state'.pairs) (hsymbols : pair'.symbols = renameSymbols ρ pair.symbols) :
    state'.occurrences pair' = state.occurrences pair := by
  have hkeys : ∀ symbols : List Int × List Int,
      (renameSymbols ρ symbols).1 ++ pairSeparator :: (renameSymbols ρ symbols).2 =
        (symbols.1 ++ pairSeparator :: symbols.2).map ρ := by
    intro symbols
    rw [List.map_append, List.map_cons, h.renames.gap pairSeparator (by decide)]
    rfl
  have hjoint : state'.jointCount pair' = state.jointCount pair := by
    rw [h.numbered'.jointCount_eq_keys h.counted' hpair',
      h.numbered.jointCount_eq_keys h.counted hpair]
    exact congrArg Nat.cast
      (h.countP_eq (fun symbols => symbols.1 ++ pairSeparator :: symbols.2) hkeys hsymbols)
  have hsource : state'.sourceCount pair' = state.sourceCount pair := by
    rw [h.numbered'.sourceCount_eq h.counted' hpair', h.numbered.sourceCount_eq h.counted hpair]
    exact congrArg Nat.cast (h.countP_eq Prod.fst (fun _ => rfl) hsymbols)
  have htarget : state'.targetCount pair' = state.targetCount pair := by
    rw [h.numbered'.targetCount_eq h.counted' hpair', h.numbered.targetCount_eq h.counted hpair]
    exact congrArg Nat.cast (h.countP_eq Prod.snd (fun _ => rfl) hsymbols)
  unfold occurrences
  rw [hjoint, hsource, htarget]

/-- Found under the numbers of either state, the counts of a pair are the same. -/
theorem occurrences?_eq (h : Matches ρ state state') (hpair : pair ∈ state.pairs)
    (hpair' : pair' ∈ state'.pairs) (hsymbols : pair'.symbols = renameSymbols ρ pair.symbols) :
    state'.counts.phrases.occurrences? pair'.ids = state.counts.phrases.occurrences? pair.ids := by
  rw [h.numbered'.occurrences?_eq h.counted' hpair', h.numbered.occurrences?_eq h.counted hpair,
    h.occurrences_eq hpair hpair' hsymbols]

end PassState.Matches

/-! ## Rows of renamed pairs -/

namespace PassState.Twins

variable {ρ : Int → Int} {state state' : PassState}

variable {symbolOf : String → Int} {lines : List String}

end PassState.Twins

/-! ## Tables of the same rows in another order -/

namespace Readings.Of

variable {readings readings' : Readings} {rows : List SentenceRow} {lines : List String}
  {order : List Nat}

end Readings.Of

end PhraseTable.Run
