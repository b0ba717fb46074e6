import PhraseTable.Proofs.Corpus
import PhraseTable.Proofs.Mirror
import PhraseTable.Proofs.PhraseIndex
import PhraseTable.Proofs.PhraseReader
import PhraseTable.Run.Passes

/-!
# Symbols by other numbers

The numbers of words say nothing about the words. If all symbols are renamed, with different ones
kept apart and the null word and the gaps kept as they are (`Renaming`), then counting and scoring
go on as before: word pairs are renamed (`wordPairs_rename`), and word probabilities with them
(`Counted.renames`); a phrase pair keeps its scores (`value_score_rename`) and its text
(`text_rename`), under whatever numbers it is counted.
-/

set_option autoImplicit false

namespace PhraseTable

/-- Other numbers for words. Different symbols stay different, and the null word and the gaps stay
what they are. -/
structure Renaming (ρ : Int → Int) : Prop where
  injective : Function.Injective ρ
  null : ρ nullWord = nullWord
  gap : ∀ symbol < 0, ρ symbol = symbol

variable {ρ : Int → Int}

/-- A renamed symbol is a gap just when the symbol is one. -/
theorem Renaming.isGap (h : Renaming ρ) (symbol : Int) :
    Surface.isGap (ρ symbol) = Surface.isGap symbol := by
  unfold Surface.isGap
  rw [decide_eq_decide]
  constructor
  · intro hneg
    have hfixed := h.injective (h.gap (ρ symbol) hneg)
    rwa [hfixed] at hneg
  · intro hneg
    rwa [h.gap symbol hneg]

/-! ## Vocabularies of the same words -/

namespace Vocabulary

/-- What stands under a number is one of the words. -/
theorem mem_words_of_word? {vocabulary : Vocabulary} {id : Nat} {word : String}
    (h : vocabulary.word? id = some word) : word ∈ vocabulary.words := by
  unfold word? at h
  rw [← DenseIndex.getElem?_toList] at h
  exact List.mem_of_getElem? h

/-- The symbol of a word in another vocabulary. Symbols of no word stay. -/
def translate (vocabulary vocabulary' : Vocabulary) : Int → Int
  | .ofNat id =>
    match vocabulary.word? id with
    | some word => vocabulary'.symbolOf word
    | none => id
  | .negSucc n => .negSucc n

variable {vocabulary vocabulary' : Vocabulary}

/-- A number is translated through the word that it stands for. -/
theorem translate_natCast (vocabulary vocabulary' : Vocabulary) (id : Nat) :
    vocabulary.translate vocabulary' (id : Int) =
      match vocabulary.word? id with
      | some word => vocabulary'.symbolOf word
      | none => id := rfl

/-- The symbol of a known word is translated to its symbol in the other vocabulary. -/
theorem translate_symbolOf {word : String} (h : word ∈ vocabulary.words) :
    vocabulary.translate vocabulary' (vocabulary.symbolOf word) = vocabulary'.symbolOf word := by
  obtain ⟨id, -, hword, hid⟩ := exists_symbolOf h
  rw [hid, translate_natCast, hword]

/-- Vocabularies with the same words have the same size. -/
theorem size_eq_of_words (hwords : ∀ word, word ∈ vocabulary.words ↔ word ∈ vocabulary'.words) :
    vocabulary.size = vocabulary'.size := by
  have hperm : vocabulary.words.Perm vocabulary'.words :=
    (List.perm_ext_iff_of_nodup (DenseIndex.nodup_toList _) (DenseIndex.nodup_toList _)).2 hwords
  have hlength := hperm.length_eq
  unfold words at hlength
  rwa [DenseIndex.length_toList, DenseIndex.length_toList] at hlength

/-- A symbol keeps its kind: that of a word is one of a word, and any other symbol stays. -/
theorem translate_cases (hwords : ∀ word, word ∈ vocabulary.words ↔ word ∈ vocabulary'.words)
    (symbol : Int) :
    (∃ (id : Nat) (word : String), symbol = id ∧ vocabulary.word? id = some word ∧
      vocabulary.translate vocabulary' symbol = vocabulary'.symbolOf word ∧
      0 ≤ vocabulary'.symbolOf word ∧ vocabulary'.symbolOf word < vocabulary.size) ∨
    ((symbol < 0 ∨ (vocabulary.size : Int) ≤ symbol) ∧
      vocabulary.translate vocabulary' symbol = symbol) := by
  cases symbol with
  | negSucc n => exact Or.inr ⟨Or.inl (by omega), rfl⟩
  | ofNat id =>
    cases hword : vocabulary.word? id with
    | some word =>
      have hmem := (hwords word).1 (mem_words_of_word? hword)
      obtain ⟨id', hlt, -, hid'⟩ := exists_symbolOf hmem
      have hsize := size_eq_of_words hwords
      refine Or.inl ⟨id, word, rfl, hword, ?_, by omega, by omega⟩
      show vocabulary.translate vocabulary' (id : Int) = _
      rw [translate_natCast, hword]
    | none =>
      refine Or.inr ⟨Or.inr ?_, ?_⟩
      · unfold word? at hword
        rw [← DenseIndex.getElem?_toList, List.getElem?_eq_none_iff,
          DenseIndex.length_toList] at hword
        exact Int.ofNat_le.2 hword
      · show vocabulary.translate vocabulary' (id : Int) = _
        rw [translate_natCast, hword]
        rfl

/-- Two vocabularies of the same words differ by a renaming. -/
theorem isRenaming_translate
    (hwords : ∀ word, word ∈ vocabulary.words ↔ word ∈ vocabulary'.words) :
    Renaming (vocabulary.translate vocabulary') where
  injective := by
    intro symbol symbol' h
    obtain ⟨id, word, rfl, hword, hrename, hlow, hhigh⟩ | ⟨hout, hrename⟩ :=
      translate_cases hwords symbol
    · obtain ⟨id', word', rfl, hword', hrename', -, -⟩ | ⟨hout', hrename'⟩ :=
        translate_cases hwords symbol'
      · rw [hrename, hrename'] at h
        have hmem := (hwords word).1 (mem_words_of_word? hword)
        have hmem' := (hwords word').1 (mem_words_of_word? hword')
        have hsame : word = word' := (idOrUnassigned_eq_iff hmem hmem').1 h
        have hid := word?_eq_some_iff.1 hword
        have hid' := word?_eq_some_iff.1 hword'
        rw [hsame, hid'] at hid
        rw [Option.some.inj hid]
      · rw [hrename, hrename'] at h
        omega
    · obtain ⟨id', word', rfl, hword', hrename', hlow', hhigh'⟩ | ⟨hout', hrename'⟩ :=
        translate_cases hwords symbol'
      · rw [hrename, hrename'] at h
        omega
      · rwa [hrename, hrename'] at h
  null := by
    have hnull : vocabulary.translate vocabulary' (vocabulary.symbolOf nullText) =
        vocabulary'.symbolOf nullText := translate_symbolOf vocabulary.null_mem_words
    rwa [symbolOf_nullText, symbolOf_nullText] at hnull
  gap := by
    intro symbol hneg
    cases symbol with
    | ofNat id =>
      have hpos := Int.natCast_nonneg id
      exact absurd hneg (Int.not_lt.2 hpos)
    | negSucc n => rfl

end Vocabulary

/-! ## Pairs -/

namespace AlignedPair

/-- The pair with renamed symbols. -/
def rename (ρ : Int → Int) (pair : AlignedPair) : AlignedPair where
  source := pair.source.map ρ
  target := pair.target.map ρ
  links := pair.links
  within := by
    rw [List.length_map, List.length_map]
    exact pair.within
  nodup := pair.nodup

/-- A pair is built from renamed symbols as the renamed pair. -/
theorem ofLinks_rename {source target : List Int} {raws : List RawLink} {pair : AlignedPair}
    (h : ofLinks source target raws = .ok pair) (ρ : Int → Int) :
    ofLinks (source.map ρ) (target.map ρ) raws = .ok (pair.rename ρ) := by
  obtain ⟨rfl, rfl, hlinks⟩ := ofLinks_eq_ok_iff.1 h
  exact ofLinks_eq_ok_iff.2 ⟨rfl, rfl, hlinks⟩

/-- The source symbol of a position is renamed. -/
theorem sourceAt_rename (h : Renaming ρ) (pair : AlignedPair) (i : Nat) :
    (pair.rename ρ).sourceAt i = ρ (pair.sourceAt i) := by
  have hnull : ρ 0 = 0 := h.null
  show (pair.source.map ρ).getD i 0 = ρ (pair.source.getD i 0)
  rw [List.getD_eq_getElem?_getD, List.getD_eq_getElem?_getD, List.getElem?_map]
  cases pair.source[i]? with
  | none => exact hnull.symm
  | some symbol => rfl

/-- The target symbol of a position is renamed. -/
theorem targetAt_rename (h : Renaming ρ) (pair : AlignedPair) (j : Nat) :
    (pair.rename ρ).targetAt j = ρ (pair.targetAt j) := by
  have hnull : ρ 0 = 0 := h.null
  show (pair.target.map ρ).getD j 0 = ρ (pair.target.getD j 0)
  rw [List.getD_eq_getElem?_getD, List.getD_eq_getElem?_getD, List.getElem?_map]
  cases pair.target[j]? with
  | none => exact hnull.symm
  | some symbol => rfl

/-- The word pairs of a position are renamed. -/
theorem wordPairsAt_rename (h : Renaming ρ) (pair : AlignedPair) (i : Nat) :
    (pair.rename ρ).wordPairsAt i = (pair.wordPairsAt i).map (Prod.map ρ ρ) := by
  have htargets : (pair.rename ρ).targetsOf i = pair.targetsOf i := rfl
  unfold wordPairsAt
  rw [htargets, sourceAt_rename h]
  cases pair.targetsOf i with
  | nil =>
    show [(ρ (pair.sourceAt i), nullWord)] = [(ρ (pair.sourceAt i), ρ nullWord)]
    rw [h.null]
  | cons j rest =>
    simp only [targetAt_rename h, List.map_map]
    rfl

/-- Renamed pairs count renamed word pairs. -/
theorem wordPairs_rename (h : Renaming ρ) (pair : AlignedPair) :
    (pair.rename ρ).wordPairs = pair.wordPairs.map (Prod.map ρ ρ) := by
  have hsources : ∀ j : Nat, (pair.rename ρ).sourcesOf j = pair.sourcesOf j := fun _ => rfl
  have hsource : (pair.rename ρ).source.length = pair.source.length := List.length_map _
  have htarget : (pair.rename ρ).target.length = pair.target.length := List.length_map _
  have hpairsAt : (pair.rename ρ).wordPairsAt = fun i => (pair.wordPairsAt i).map (Prod.map ρ ρ) :=
    funext (wordPairsAt_rename h pair)
  unfold wordPairs
  rw [hpairsAt, hsource, htarget, List.map_append, List.map_flatMap, List.map_map]
  simp only [hsources, targetAt_rename h]
  congr 1
  apply List.map_congr_left
  intro j _
  show (nullWord, ρ (pair.targetAt j)) = (ρ nullWord, ρ (pair.targetAt j))
  rw [h.null]

end AlignedPair

/-! ## Counts and probabilities of words -/

/-- The probabilities of the renamed words are those of the words. -/
structure LexicalTable.Renames (ρ : Int → Int) (table table' : LexicalTable) : Prop where
  sourceGivenTarget : ∀ f e : Int,
    table'.sourceGivenTarget (ρ f) (ρ e) = table.sourceGivenTarget f e
  targetGivenSource : ∀ f e : Int,
    table'.targetGivenSource (ρ f) (ρ e) = table.targetGivenSource f e

/-- Words that counted renamed pairs make the renamed table. -/
theorem WordCounts.Counted.renames (h : Renaming ρ) {words words' : WordCounts}
    {pairs : List (Int × Int)} (hwords : words.Counted pairs)
    (hwords' : words'.Counted (pairs.map (Prod.map ρ ρ))) :
    words.table.Renames ρ words'.table := by
  have hpairs : ∀ f e : Int, words'.pairCount? (ρ f) (ρ e) = words.pairCount? f e := fun f e =>
    Tally.Tracks.count?_map (h.injective.prodMap h.injective) hwords.pairs hwords'.pairs (f, e)
  have hsources : ∀ f : Int, words'.sourceCount? (ρ f) = words.sourceCount? f := by
    have hmap : (pairs.map (Prod.map ρ ρ)).map Prod.fst = (pairs.map Prod.fst).map ρ := by
      rw [List.map_map, List.map_map]
      rfl
    have htracks := hwords'.sources
    rw [hmap] at htracks
    exact Tally.Tracks.count?_map h.injective hwords.sources htracks
  have htargets : ∀ e : Int, words'.targetCount? (ρ e) = words.targetCount? e := by
    have hmap : (pairs.map (Prod.map ρ ρ)).map Prod.snd = (pairs.map Prod.snd).map ρ := by
      rw [List.map_map, List.map_map]
      rfl
    have htracks := hwords'.targets
    rw [hmap] at htracks
    exact Tally.Tracks.count?_map h.injective hwords.targets htracks
  constructor
  · intro f e
    show countRatio _ _ = countRatio _ _
    rw [hpairs, htargets]
  · intro f e
    show countRatio _ _ = countRatio _ _
    rw [hpairs, hsources]

/-! ## Phrase pairs -/

namespace PhrasePair

/-- The phrase pair with renamed symbols. Its words, links and numbers stay. -/
def rename (ρ : Int → Int) (pair : PhrasePair) : PhrasePair :=
  { pair.toAlignedPair.rename ρ with
    sourceWords := pair.sourceWords
    targetWords := pair.targetWords
    ids := pair.ids }

/-- A pair is built from renamed symbols as the renamed pair. -/
theorem ofLinks_rename {source target : List Int} {sourceWords targetWords : List String}
    {raws : List RawLink} {pair : PhrasePair}
    (h : ofLinks source target sourceWords targetWords raws = .ok pair) (ρ : Int → Int) :
    ofLinks (source.map ρ) (target.map ρ) sourceWords targetWords raws =
      .ok (pair.rename ρ) := by
  obtain ⟨hpair, hsourceWords, htargetWords, hids⟩ := ofLinks_eq_ok_iff.1 h
  exact ofLinks_eq_ok_iff.2
    ⟨AlignedPair.ofLinks_rename hpair ρ, hsourceWords, htargetWords, hids⟩

end PhrasePair

/-- A line is read as the renamed pair if its words have the renamed symbols. -/
theorem symbols_phraseOf_rename (h : Renaming ρ) {symbolOf symbolOf' : String → Int}
    {tokens : List String} (gaps : Nat)
    (hwords : ∀ word ∈ terminals tokens, symbolOf' word = ρ (symbolOf word)) :
    (phraseOf symbolOf' gaps tokens).symbols = (phraseOf symbolOf gaps tokens).symbols.map ρ := by
  induction tokens generalizing gaps with
  | nil => rfl
  | cons token rest ih =>
    unfold phraseOf
    split
    · rename_i hgap
      have hterminals := terminals_cons_of_gap hgap rest
      rw [hterminals] at hwords
      have hfixed : ρ (gapSymbol ((gaps : Int) + 1)) = gapSymbol ((gaps : Int) + 1) := by
        apply h.gap
        unfold gapSymbol
        omega
      rw [List.map_cons, hfixed, ih (gaps + 1) hwords]
    · rename_i hword
      have hterminals := terminals_cons_of_word hword rest
      rw [hterminals] at hwords
      rw [List.map_cons, hwords token List.mem_cons_self,
        ih gaps fun word hmem => hwords word (List.mem_cons_of_mem token hmem)]

/-- A line is read with renamed symbols as the renamed pair. -/
theorem PhrasePair.ofLine_rename (h : Renaming ρ) {symbolOf symbolOf' : String → Int}
    {line : String} {pair : PhrasePair} (hpair : ofLine symbolOf line = .ok pair)
    (hwords : ∀ word ∈ lineTerminals line, symbolOf' word = ρ (symbolOf word)) :
    ofLine symbolOf' line = .ok (pair.rename ρ) := by
  obtain ⟨source, target, alignment, hfields, links, hlinks, hbuilt⟩ := ofLine_eq_ok_iff.1 hpair
  unfold lineTerminals at hwords
  rw [hfields] at hwords
  refine ofLine_eq_ok_iff.2 ⟨source, target, alignment, hfields, links, hlinks, ?_⟩
  rw [symbols_phraseOf_rename h 0 fun word hmem => hwords word (List.mem_append_left _ hmem),
    symbols_phraseOf_rename h 0 fun word hmem => hwords word (List.mem_append_right _ hmem)]
  exact ofLinks_rename hbuilt ρ

/-- A row is read with renamed symbols as the renamed sentence pair. -/
theorem SentenceRow.sentenceOf_rename {symbolOf symbolOf' : String → Int} {row : SentenceRow}
    {sentence : SentencePair} (hsentence : sentenceOf symbolOf row = .ok sentence)
    (hwords : ∀ word ∈ row.words, symbolOf' word = ρ (symbolOf word)) :
    sentenceOf symbolOf' row = .ok (AlignedPair.rename ρ sentence) := by
  have hrenamed := AlignedPair.ofLinks_rename hsentence ρ
  rw [List.map_map, List.map_map] at hrenamed
  rw [sentenceOf_congr hwords]
  exact hrenamed

/-- Lines are read with renamed symbols as the renamed pairs. -/
theorem Run.ReadAs.rename (h : Renaming ρ) {symbolOf symbolOf' : String → Int}
    {lines : List String} {pairs : List PhrasePair} (hread : ReadAs symbolOf lines pairs)
    (hwords : ∀ word ∈ lines.flatMap PhrasePair.lineTerminals,
      symbolOf' word = ρ (symbolOf word)) :
    ReadAs symbolOf' lines (pairs.map (PhrasePair.rename ρ)) := by
  induction hread with
  | nil => exact .nil
  | cons hline _ ih =>
    rw [List.flatMap_cons] at hwords
    refine .cons ?_ (ih fun word hword => hwords word (List.mem_append_right _ hword))
    exact PhrasePair.ofLine_rename h hline fun word hword =>
      hwords word (List.mem_append_left _ hword)

/-- Rows are read with renamed symbols as the renamed sentence pairs. -/
theorem SentenceRow.ReadAs.rename {symbolOf symbolOf' : String → Int} {rows : List SentenceRow}
    {sentences : List SentencePair} (hread : ReadAs symbolOf rows sentences)
    (hwords : ∀ word ∈ rows.flatMap SentenceRow.words, symbolOf' word = ρ (symbolOf word)) :
    ReadAs symbolOf' rows (sentences.map (AlignedPair.rename ρ)) := by
  induction hread with
  | nil => exact .nil
  | cons hrow _ ih =>
    rw [List.flatMap_cons] at hwords
    refine .cons ?_ (ih fun word hword => hwords word (List.mem_append_right _ hword))
    exact sentenceOf_rename hrow fun word hword => hwords word (List.mem_append_left _ hword)

/-! ## Scores -/

/-- Mirrored tables are renamed in the same way. -/
theorem LexicalTable.Renames.mirror {table table' : LexicalTable} (h : table.Renames ρ table') :
    table.mirror.Renames ρ table'.mirror where
  sourceGivenTarget f e := h.targetGivenSource e f
  targetGivenSource f e := h.sourceGivenTarget e f

namespace PhrasePair

variable {table table' : LexicalTable}

/-- The renamed pair has the same lexical weight under the renamed table. -/
theorem value_lexSourceGivenTarget_rename (h : Renaming ρ) (htable : table.Renames ρ table')
    (config : Config) (pair : PhrasePair) :
    ((pair.rename ρ).lexSourceGivenTarget table' config).value =
      (pair.lexSourceGivenTarget table config).value := by
  have hlength : (pair.rename ρ).source.length = pair.source.length := List.length_map _
  have hsource : ∀ i : Nat, (pair.rename ρ).sourceAt i = ρ (pair.sourceAt i) :=
    pair.toAlignedPair.sourceAt_rename h
  have htarget : ∀ j : Nat, (pair.rename ρ).targetAt j = ρ (pair.targetAt j) :=
    pair.toAlignedPair.targetAt_rename h
  have hlinked : ∀ i : Nat, (pair.rename ρ).targetsOf i = pair.targetsOf i := fun _ => rfl
  have hnull : ∀ i : Nat, table'.sourceGivenTarget (ρ (pair.sourceAt i)) nullWord =
      table.sourceGivenTarget (pair.sourceAt i) nullWord := by
    intro i
    rw [← htable.sourceGivenTarget, h.null]
  show (Support.product config true ((pair.rename ρ).sourceSupports table')).value =
    (Support.product config true (pair.sourceSupports table)).value
  rw [Support.value_product_map, Support.value_product_map]
  unfold sourceSupports
  simp only [hlength, hsource, htarget, h.isGap, hlinked, hnull, htable.sourceGivenTarget,
    List.map_map]
  rfl

/-- The renamed pair has the same greatest lexical weight under the renamed table. -/
theorem value_maxLexSourceGivenTarget_rename (h : Renaming ρ) (htable : table.Renames ρ table')
    (config : Config) (pair : PhrasePair) :
    ((pair.rename ρ).maxLexSourceGivenTarget table' config).value =
      (pair.maxLexSourceGivenTarget table config).value := by
  have hlength : (pair.rename ρ).source.length = pair.source.length := List.length_map _
  have hsource : ∀ i : Nat, (pair.rename ρ).sourceAt i = ρ (pair.sourceAt i) :=
    pair.toAlignedPair.sourceAt_rename h
  have htarget : (pair.rename ρ).target ++ [nullWord] = (pair.target ++ [nullWord]).map ρ := by
    rw [List.map_append, List.map_singleton, h.null]
    rfl
  show (Candidates.product config ((pair.rename ρ).sourceCandidates table')).value =
    (Candidates.product config (pair.sourceCandidates table)).value
  rw [Candidates.value_product_map, Candidates.value_product_map]
  unfold sourceCandidates
  rw [hlength, htarget]
  simp only [hsource, List.map_map, Function.comp_def, htable.sourceGivenTarget]

end PhrasePair

namespace Feature

/-- A feature of the renamed pair. The features of the target side are those of the source side of
the mirrored pair. -/
theorem value_score_rename (h : Renaming ρ) {table table' : LexicalTable}
    (htable : table.Renames ρ table') (config : Config) (occurrences : Occurrences)
    (pair : PhrasePair) (feature : Feature) :
    (feature.score table' config occurrences (pair.rename ρ)).value =
      (feature.score table config occurrences pair).value := by
  cases feature with
  | phiSourceGivenTarget => rfl
  | phiTargetGivenSource => rfl
  | lexSourceGivenTarget => exact pair.value_lexSourceGivenTarget_rename h htable config
  | lexTargetGivenSource =>
    have hpair := score_mirror table config occurrences pair .lexTargetGivenSource
    have hrenamed := score_mirror table' config occurrences (pair.rename ρ) .lexTargetGivenSource
    rw [← hpair, ← hrenamed]
    exact pair.mirror.value_lexSourceGivenTarget_rename h htable.mirror config
  | maxLexSourceGivenTarget => exact pair.value_maxLexSourceGivenTarget_rename h htable config
  | maxLexTargetGivenSource =>
    have hpair := score_mirror table config occurrences pair .maxLexTargetGivenSource
    have hrenamed := score_mirror table' config occurrences (pair.rename ρ) .maxLexTargetGivenSource
    rw [← hpair, ← hrenamed]
    exact pair.mirror.value_maxLexSourceGivenTarget_rename h htable.mirror config

end Feature

/-- A judgement rests on the occurrences and on the two weights. -/
theorem LexicalModel.value_judge_congr {model model' : LexicalModel Logged} {config : Config}
    {phrases phrases' : PhraseCounts} {pair pair' : PhrasePair}
    (hoccurrences : phrases'.occurrences? pair'.ids = phrases.occurrences? pair.ids)
    (hsource : (model'.sourceGivenTarget pair').value = (model.sourceGivenTarget pair).value)
    (htarget : (model'.targetGivenSource pair').value = (model.targetGivenSource pair).value) :
    (model'.judge config phrases' pair').value = (model.judge config phrases pair).value := by
  unfold judge
  rw [hoccurrences]
  cases phrases.occurrences? pair.ids with
  | none => rfl
  | some occurrences =>
    dsimp only
    split
    · rfl
    · rw [Logged.value_bind, Logged.value_bind, Logged.value_bind, Logged.value_bind, hsource,
        htarget]

/-- The renamed pair has the scores of the pair, if it was counted as often. The numbers under which
both were counted may be different. -/
theorem Counts.value_score_rename (h : Renaming ρ) {counts counts' : Counts}
    (htable : counts.words.table.Renames ρ counts'.words.table) (config : Config)
    {pair : PhrasePair} {ids : PhraseIds}
    (hoccurrences : counts'.phrases.occurrences? ids = counts.phrases.occurrences? pair.ids) :
    (counts'.score config ((pair.rename ρ).withIds ids)).value =
      (counts.score config pair).value := by
  have hfeature := Feature.value_score_rename h htable config ⟨0, 0, 0⟩ pair
  have hverdict :
      ((LexicalModel.ofConfig counts'.words.table config).judge config counts'.phrases
        ((pair.rename ρ).withIds ids)).value =
      ((LexicalModel.ofConfig counts.words.table config).judge config counts.phrases
        pair).value := by
    unfold LexicalModel.ofConfig
    split
    · exact LexicalModel.value_judge_congr hoccurrences (hfeature .maxLexSourceGivenTarget)
        (hfeature .maxLexTargetGivenSource)
    · exact LexicalModel.value_judge_congr hoccurrences (hfeature .lexSourceGivenTarget)
        (hfeature .lexTargetGivenSource)
  exact congrArg (Verdict.scores? config) hverdict

/-! ## Texts -/

/-- As long as there is a word for every terminal, a phrase is written with its words and without
the numbers of its terminals. -/
theorem Surface.surface_rename (h : Renaming ρ) {symbols : List Int} {words : List String}
    (hwords : symbols.countP (!isGap ·) ≤ words.length) :
    surface (symbols.map ρ) words = surface symbols words := by
  induction symbols generalizing words with
  | nil => rfl
  | cons symbol rest ih =>
    rw [List.countP_cons] at hwords
    rw [List.map_cons]
    unfold surface
    rw [h.isGap]
    split
    · rename_i hgap
      have hfixed : ρ symbol = symbol := h.gap symbol (of_decide_eq_true hgap)
      rw [hfixed, ih (by omega)]
    · rename_i hword
      rw [if_pos (by simpa using hword)] at hwords
      cases words with
      | nil => exact absurd hwords (by simp)
      | cons word words =>
        rw [List.length_cons] at hwords
        have hrest : rest.countP (!isGap ·) ≤ words.length := by omega
        exact congrArg (word :: ·) (ih hrest)

/-- There are words for all terminals of a phrase that was read. -/
theorem countP_symbols_phraseOf_le (symbolOf : String → Int) (gaps : Nat) (tokens : List String) :
    (phraseOf symbolOf gaps tokens).symbols.countP (!Surface.isGap ·) ≤
      (terminals tokens).length := by
  induction tokens generalizing gaps with
  | nil => exact Nat.le_refl 0
  | cons token rest ih =>
    unfold phraseOf
    split
    · rename_i hgap
      have hterminals := terminals_cons_of_gap hgap rest
      have hnegative : Surface.isGap (gapSymbol ((gaps : Int) + 1)) = true := by
        unfold Surface.isGap gapSymbol
        rw [decide_eq_true_iff]
        omega
      rw [hterminals, List.countP_cons_of_neg (by rw [hnegative]; decide)]
      exact ih (gaps + 1)
    · rename_i hword
      have hterminals := terminals_cons_of_word hword rest
      have hrest := ih gaps
      rw [hterminals, List.length_cons, List.countP_cons]
      split <;> omega

/-- A pair that was read is written as before. -/
theorem PhrasePair.phraseTexts_rename (h : Renaming ρ) {symbolOf : String → Int} {line : String}
    {pair : PhrasePair} (hpair : ofLine symbolOf line = .ok (pair.withIds .unassigned)) :
    (pair.rename ρ).sourceText = pair.sourceText ∧
      (pair.rename ρ).targetText = pair.targetText := by
  obtain ⟨source, target, alignment, -, links, -, hparts⟩ := exists_parts hpair
  have hsource : pair.source = _ := hparts.source_eq
  have htarget : pair.target = _ := hparts.target_eq
  have hsourceWords : pair.sourceWords = _ := hparts.sourceWords_eq
  have htargetWords : pair.targetWords = _ := hparts.targetWords_eq
  have hsourceFull : pair.source.countP (!Surface.isGap ·) ≤ pair.sourceWords.length := by
    rw [hsource, hsourceWords]
    exact countP_symbols_phraseOf_le _ _ _
  have htargetFull : pair.target.countP (!Surface.isGap ·) ≤ pair.targetWords.length := by
    rw [htarget, htargetWords]
    exact countP_symbols_phraseOf_le _ _ _
  exact ⟨congrArg (" ".intercalate ·) (Surface.surface_rename h hsourceFull),
    congrArg (" ".intercalate ·) (Surface.surface_rename h htargetFull)⟩

end PhraseTable
