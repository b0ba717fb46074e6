import PhraseTable.Proofs.Score.Filters

/-!
# The layouts of the scores

There are three layouts: the two relative frequencies, these with the lexical weights between them,
and both with the counts behind. The layout decides which columns are shown and nothing else. So
settings that differ in their layout alone judge a pair alike (`judge_withoutLayout`), and since a
layout is a list of columns, of which the names and the scores are both taken, the named scores of a
narrower layout are those of a wider one with some left out (`columns_sublist`). What stands in a
column is the feature of that name, or a count (`score_layouts`).
-/

set_option autoImplicit false

namespace PhraseTable

namespace Config

/-- The settings with the layout of the defaults. -/
def withoutLayout (config : Config) : Config :=
  { config with onlyPhi := false, printCounts := false }

/-- The features that are shown before the counts. -/
def features (config : Config) : List Feature :=
  if config.maxLexical then
    [ .phiSourceGivenTarget, .maxLexSourceGivenTarget, .phiTargetGivenSource
    , .maxLexTargetGivenSource ]
  else
    [ .phiSourceGivenTarget, .lexSourceGivenTarget, .phiTargetGivenSource, .lexTargetGivenSource ]

/-- Some columns are left out of a wider layout. -/
theorem columns_sublist {config config' : Config}
    (h : config'.printCounts = true ∨ config.printCounts = false ∧ config.onlyPhi = true) :
    config.columns.Sublist config'.columns := by
  unfold columns
  rcases h with hcounts | ⟨hcounts, hphi⟩
  · rw [if_pos hcounts]
    split
    · exact List.Sublist.refl _
    · split <;> decide
  · rw [if_neg (Bool.not_eq_true _ ▸ hcounts), if_pos hphi]
    split
    · decide
    · split <;> decide

/-- There are seven columns, two or four. -/
theorem length_columns (config : Config) :
    config.columns.length = if config.printCounts then 7 else if config.onlyPhi then 2 else 4 := by
  unfold columns
  split
  · rfl
  · split <;> rfl

end Config

namespace LexicalModel

/-- The layout plays no part in the lexical model. -/
theorem ofConfig_withoutLayout (table : LexicalTable) (config : Config) :
    ofConfig table config.withoutLayout = ofConfig table config := by
  unfold ofConfig
  have hmodel : config.withoutLayout.maxLexical = config.maxLexical := rfl
  rw [hmodel]
  split <;> rfl

/-- The layout is no part of the judgement. -/
theorem judge_withoutLayout (model : LexicalModel Logged) (config : Config)
    (phrases : PhraseCounts) (pair : PhrasePair) :
    model.judge config.withoutLayout phrases pair = model.judge config phrases pair := rfl

/-- An accepted pair has the occurrences that were counted, and both weights. -/
theorem eq_of_accepted {model : LexicalModel Logged} {config : Config} {phrases : PhraseCounts}
    {pair : PhrasePair} {features : Features}
    (h : (model.judge config phrases pair).value = .accepted features) :
    features = ⟨phrases.occurrences pair.ids, (model.sourceGivenTarget pair).value,
      (model.targetGivenSource pair).value⟩ := by
  by_cases hholds : phrases.Holds pair.ids
  · by_cases hphi : config.phiFilter > (phrases.occurrences pair.ids).phiTargetGivenSource.value
    · rw [judge_of_below hholds hphi] at h
      cases h
    · rw [judge_of_reaches ⟨hholds, hphi⟩] at h
      change verdictOf config _ _ = _ at h
      unfold verdictOf at h
      split at h
      · cases h
      · cases h
        rfl
  · rw [judge_of_not_holds hholds] at h
    cases h

end LexicalModel

/-- Whether there are scores does not depend on the columns. -/
theorem Verdict.isSome_scores? (verdict : Verdict) (config config' : Config) :
    (verdict.scores? config).isSome = (verdict.scores? config').isSome := by
  cases verdict <;> rfl

namespace Counts

variable {counts : Counts} {config config' : Config} {pair : PhrasePair} {scores : List Score}

/-- The verdict on a pair. -/
def verdict (counts : Counts) (config : Config) (pair : PhrasePair) : Logged Verdict :=
  (LexicalModel.ofConfig counts.words.table config).judge config counts.phrases pair

/-- The names of the columns that the settings ask for. -/
def featureNames (counts : Counts) (config : Config) : List String :=
  (LexicalModel.ofConfig counts.words.table config).featureNames config

/-- The value of a feature of a pair. -/
def featureScore (counts : Counts) (config : Config) (pair : PhrasePair) (feature : Feature) :
    Score :=
  (feature.score counts.words.table config (counts.phrases.occurrences pair.ids) pair).value

/-- Configurations that differ in their layouts alone give the same verdict. -/
theorem verdict_congr (h : config.withoutLayout = config'.withoutLayout) :
    counts.verdict config pair = counts.verdict config' pair := by
  unfold verdict
  rw [← LexicalModel.ofConfig_withoutLayout, ← LexicalModel.judge_withoutLayout, h,
    LexicalModel.ofConfig_withoutLayout, LexicalModel.judge_withoutLayout]

/-- A score is what the verdict says of the columns, with its notice behind the log. -/
theorem score_eq (counts : Counts) (config : Config) (pair : PhrasePair) :
    counts.score config pair =
      ⟨(counts.verdict config pair).value.scores? config,
        (counts.verdict config pair).log ++ (counts.verdict config pair).value.notice pair⟩ := by
  apply Logged.ext
  · rfl
  · exact congrArg ((counts.verdict config pair).log ++ ·) (List.append_nil _)

/-- A pair with scores was accepted, and the scores are its features column by column. -/
theorem exists_accepted (h : (counts.score config pair).value = some scores) :
    ∃ features : Features, (counts.verdict config pair).value = .accepted features ∧
      scores = config.columns.map features.value := by
  rw [score_eq] at h
  change Verdict.scores? config _ = some scores at h
  unfold Verdict.scores? at h
  split at h
  · rename_i features hfeatures
    cases h
    exact ⟨features, hfeatures, rfl⟩
  · cases h

/-- The named scores are taken column by column. -/
theorem zip_featureNames (counts : Counts) (config : Config) (features : Features) :
    (counts.featureNames config).zip (config.columns.map features.value) =
      config.columns.map fun column =>
        ((LexicalModel.ofConfig counts.words.table config).columnName column,
          features.value column) :=
  List.zip_map'

/-- With all columns the scores are the features of the names, and the counts. -/
theorem scores_of_printCounts (hcounts : config.printCounts = true)
    (h : (counts.score config pair).value = some scores) :
    counts.featureNames config =
        config.features.map Feature.name ++ ["CountFE", "CountE", "CountF"] ∧
      scores = config.features.map (counts.featureScore config pair) ++
        [ .ofFloat (counts.phrases.occurrences pair.ids).pair
        , .ofFloat (counts.phrases.occurrences pair.ids).target
        , .ofFloat (counts.phrases.occurrences pair.ids).source ] := by
  obtain ⟨features, haccepted, rfl⟩ := exists_accepted h
  obtain rfl := LexicalModel.eq_of_accepted haccepted
  unfold featureNames LexicalModel.featureNames Config.columns LexicalModel.ofConfig
    Config.features
  rw [if_pos hcounts]
  split <;> exact ⟨rfl, rfl⟩

/-- **Layouts differ in the columns that they show, and in nothing else.** Two settings differ in
nothing but their layout. A pair is accepted under both or under neither, and the same lines are
logged. There are as many scores as names: seven, two or four. With all columns they are the
features of the names, of which the two relative frequencies are quotients of counts, and then the
counts themselves. The named scores of a narrower layout are those of a wider one, in the same
order, with some left out. -/
theorem score_layouts (h : config.withoutLayout = config'.withoutLayout) (counts : Counts)
    (pair : PhrasePair) :
    let joint := Float.ofInt (counts.phrases.pairs.get pair.ids.pair)
    let source := Float.ofInt (counts.phrases.sources.get pair.ids.source)
    let target := Float.ofInt (counts.phrases.targets.get pair.ids.target)
    (counts.score config pair).value.isSome = (counts.score config' pair).value.isSome ∧
    (counts.score config pair).log = (counts.score config' pair).log ∧
    (∀ scores : List Score, (counts.score config pair).value = some scores →
      scores.length = (counts.featureNames config).length ∧
      scores.length = (if config.printCounts then 7 else if config.onlyPhi then 2 else 4) ∧
      (config.printCounts = true →
        counts.featureNames config =
          config.features.map Feature.name ++ ["CountFE", "CountE", "CountF"] ∧
        scores = config.features.map (counts.featureScore config pair) ++
          [.ofFloat joint, .ofFloat target, .ofFloat source] ∧
        (counts.featureScore config pair .phiSourceGivenTarget).value = joint / target ∧
        (counts.featureScore config pair .phiTargetGivenSource).value = joint / source)) ∧
    ∀ scores scores' : List Score,
      (counts.score config pair).value = some scores →
      (counts.score config' pair).value = some scores' →
      config'.printCounts = true ∨ config.printCounts = false ∧ config.onlyPhi = true →
        ((counts.featureNames config).zip scores).Sublist
          ((counts.featureNames config').zip scores') := by
  intro joint source target
  have hverdict : counts.verdict config pair = counts.verdict config' pair := verdict_congr h
  refine ⟨?_, ?_, ?_, ?_⟩
  · rw [score_eq, score_eq, hverdict]
    exact Verdict.isSome_scores? _ config config'
  · rw [score_eq, score_eq, hverdict]
  · intro scores hscores
    refine ⟨?_, ?_, ?_⟩
    · obtain ⟨features, -, rfl⟩ := exists_accepted hscores
      unfold featureNames LexicalModel.featureNames
      rw [List.length_map, List.length_map]
    · obtain ⟨features, -, rfl⟩ := exists_accepted hscores
      rw [List.length_map, Config.length_columns]
    · intro hcounts
      obtain ⟨hnames, hvalues⟩ := scores_of_printCounts hcounts hscores
      exact ⟨hnames, hvalues, rfl, rfl⟩
  · intro scores scores' hscores hscores' hwider
    obtain ⟨features, haccepted, rfl⟩ := exists_accepted hscores
    obtain ⟨features', haccepted', rfl⟩ := exists_accepted hscores'
    have hmodel : LexicalModel.ofConfig counts.words.table config =
        LexicalModel.ofConfig counts.words.table config' := by
      rw [← LexicalModel.ofConfig_withoutLayout, h, LexicalModel.ofConfig_withoutLayout]
    rw [hverdict, haccepted'] at haccepted
    cases haccepted
    rw [zip_featureNames, zip_featureNames, hmodel]
    exact (Config.columns_sublist hwider).map _

/-- The only link of a sentence pair makes a phrase pair. -/
def onlyLink : PhrasePair where
  source := [1]
  target := [2]
  links := [⟨0, 0⟩]
  within := by decide
  nodup := by decide
  sourceWords := ["das"]
  targetWords := ["the"]
  ids := ⟨0, 0, 0⟩

/-- The phrase pair was counted twice, and its source phrase once more with another target. -/
def threePhrases : Counts :=
  ((empty { exact := false }).performAll
    [ .addWordPair 1 2, .addWordPair 1 3, .countPhrase onlyLink, .countPhrase onlyLink
    , .countPhrase (onlyLink.withIds ⟨1, 0, 1⟩) ]).value

/-- A pair that was counted twice, scored in two columns and in all seven. The two named scores are
among the seven, in their order. -/
theorem score_layouts_two_of_seven :
    ({ onlyPhi := true } : Config).withoutLayout =
        ({ onlyPhi := true, printCounts := true } : Config).withoutLayout ∧
      ∃ scores scores' : List Score,
        (threePhrases.score { onlyPhi := true } onlyLink).value = some scores ∧
        (threePhrases.score { onlyPhi := true, printCounts := true } onlyLink).value =
          some scores' ∧
        ((threePhrases.featureNames { onlyPhi := true }).zip scores).Sublist
          ((threePhrases.featureNames { onlyPhi := true, printCounts := true }).zip scores') ∧
        scores.map (·.significant 12) = ["1", "0.666666666667"] ∧
        scores'.map (·.significant 12) = ["1", "1", "0.666666666667", "0.5", "2", "2", "3"] := by
  have hlayout : ({ onlyPhi := true } : Config).withoutLayout =
      ({ onlyPhi := true, printCounts := true } : Config).withoutLayout := rfl
  obtain ⟨-, -, -, hsublist⟩ := score_layouts hlayout threePhrases onlyLink
  have htexts : (threePhrases.score { onlyPhi := true } onlyLink).value.map
      (·.map (·.significant 12)) = some ["1", "0.666666666667"] := by decide +kernel
  have htexts' : (threePhrases.score { onlyPhi := true, printCounts := true } onlyLink).value.map
      (·.map (·.significant 12)) =
        some ["1", "1", "0.666666666667", "0.5", "2", "2", "3"] := by decide +kernel
  obtain ⟨scores, hscores, htext⟩ := Option.map_eq_some_iff.1 htexts
  obtain ⟨scores', hscores', htext'⟩ := Option.map_eq_some_iff.1 htexts'
  exact ⟨hlayout, scores, scores', hscores, hscores',
    hsublist scores scores' hscores hscores' (Or.inl rfl), htext, htext'⟩

end Counts

end PhraseTable
