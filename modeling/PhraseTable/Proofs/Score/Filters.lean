import PhraseTable.Proofs.Counts.Passes
import PhraseTable.Score.Scorer

/-!
# What turns a phrase pair away

A phrase pair is judged by three tests: it was counted, its `phi(e|f)` reaches its filter, and its
`lex(e|f)` reaches its filter. Nothing is said here about the lexical weights. They may have
effects, so it matters that they are computed only when the first two tests are passed, and once
each: `traced` notes when they are (`run_judge_traced`). All counts that a pair is divided by come
from a history of counting, so they are at least one (`PhraseCounts.CountsAll.one_le`).
`result_filters` puts this together.
-/

set_option autoImplicit false

namespace PhraseTable

/-! ## Numbers that were counted -/

/-- The number has a slot, and the count in it is not zero. -/
def CountVector.Holds (vector : CountVector) (id : Int) : Prop :=
  0 ≤ id ∧ id < vector.size ∧ vector.get id ≠ 0

/-- What was counted has a count of one or more. -/
theorem CountVector.CountsEach.one_le {vector : CountVector} {ids : List Int}
    (h : vector.CountsEach ids) {id : Int} (hid : vector.Holds id) : 1 ≤ vector.get id := by
  obtain ⟨hnonneg, -, hne⟩ := hid
  rw [h.get_eq id hnonneg] at hne ⊢
  omega

namespace PhraseCounts

/-- All three numbers of a pair were counted. -/
structure Holds (phrases : PhraseCounts) (ids : PhraseIds) : Prop where
  pair : phrases.pairs.Holds ids.pair
  source : phrases.sources.Holds ids.source
  target : phrases.targets.Holds ids.target

/-- The counts under the numbers of a pair. -/
def occurrences (phrases : PhraseCounts) (ids : PhraseIds) : Occurrences where
  pair := Float.ofInt (phrases.pairs.get ids.pair)
  source := Float.ofInt (phrases.sources.get ids.source)
  target := Float.ofInt (phrases.targets.get ids.target)

/-- What was counted has its count, as a double. -/
theorem positive?_eq_some {vector : CountVector} {id : Int} (h : vector.Holds id) :
    positive? vector id = some (Float.ofInt (vector.get id)) := by
  have hcontains : vector.contains id = true := decide_eq_true ⟨h.1, h.2.1⟩
  exact if_pos ⟨hcontains, h.2.2⟩

/-- What was never counted has no positive count. -/
theorem positive?_eq_none {vector : CountVector} {id : Int} (h : ¬vector.Holds id) :
    positive? vector id = none := by
  apply if_neg
  rintro ⟨hcontains, hne⟩
  obtain ⟨hnonneg, hlt⟩ := of_decide_eq_true hcontains
  exact h ⟨hnonneg, hlt, hne⟩

variable {phrases : PhraseCounts} {ids : PhraseIds}

/-- A pair that was counted has its occurrences. -/
theorem occurrences?_of_holds (h : phrases.Holds ids) :
    phrases.occurrences? ids = some (phrases.occurrences ids) := by
  unfold occurrences?
  rw [positive?_eq_some h.pair, positive?_eq_some h.source, positive?_eq_some h.target]
  rfl

/-- A pair without one of its three counts has no occurrences. -/
theorem occurrences?_of_not_holds (h : ¬phrases.Holds ids) : phrases.occurrences? ids = none := by
  unfold occurrences?
  by_cases hpair : phrases.pairs.Holds ids.pair
  · rw [positive?_eq_some hpair]
    by_cases hsource : phrases.sources.Holds ids.source
    · have htarget : ¬phrases.targets.Holds ids.target := fun htarget =>
        h ⟨hpair, hsource, htarget⟩
      rw [positive?_eq_some hsource, positive?_eq_none htarget]
      rfl
    · rw [positive?_eq_none hsource]
      rfl
  · rw [positive?_eq_none hpair]
    rfl

/-- A pair was not counted when one of its three counts is missing. -/
theorem not_holds_iff :
    ¬phrases.Holds ids ↔ ¬phrases.pairs.Holds ids.pair ∨ ¬phrases.sources.Holds ids.source ∨
      ¬phrases.targets.Holds ids.target := by
  rw [← not_and_or, ← not_and_or, not_iff_not]
  exact ⟨fun h => ⟨h.pair, h.source, h.target⟩, fun h => ⟨h.1, h.2.1, h.2.2⟩⟩

/-- The pair was counted, and its `phi(e|f)` reaches the filter. -/
def Reaches (phrases : PhraseCounts) (config : Config) (ids : PhraseIds) : Prop :=
  phrases.Holds ids ∧
    ¬config.phiFilter > (phrases.occurrences ids).phiTargetGivenSource.value

end PhraseCounts

/-! ## Effects of the lexical weights -/

/-- One of two lexical weights. -/
inductive WeightCall where
  | sourceGivenTarget
  | targetGivenSource
deriving DecidableEq, Repr

namespace LexicalModel

variable {m : Type → Type} [Monad m]

/-- Both weights of a pair, one after the other. -/
def weigh (model : LexicalModel m) (pair : PhrasePair) : m (Score × Score) := do
  let lexSourceGivenTarget ← model.sourceGivenTarget pair
  let lexTargetGivenSource ← model.targetGivenSource pair
  return (lexSourceGivenTarget, lexTargetGivenSource)

/-- The model that notes each weight that is computed. -/
def traced (model : LexicalModel m) : LexicalModel (StateT (List WeightCall) m) where
  sourceName := model.sourceName
  targetName := model.targetName
  sourceGivenTarget pair := do
    let weight ← StateT.lift (model.sourceGivenTarget pair)
    modify (· ++ [.sourceGivenTarget])
    return weight
  targetGivenSource pair := do
    let weight ← StateT.lift (model.targetGivenSource pair)
    modify (· ++ [.targetGivenSource])
    return weight

/-- The verdict on a counted pair, once both weights are known. -/
def verdictOf (config : Config) (occurrences : Occurrences) (weights : Score × Score) : Verdict :=
  if config.lexFilter > weights.2.value then .belowLexFilter
  else .accepted ⟨occurrences, weights.1, weights.2⟩

variable {model : LexicalModel m} {config : Config} {phrases : PhraseCounts} {pair : PhrasePair}

/-- A pair that was never counted is turned away before anything is computed. -/
theorem judge_of_not_holds (h : ¬phrases.Holds pair.ids) :
    model.judge config phrases pair = pure .uncounted := by
  unfold judge
  rw [PhraseCounts.occurrences?_of_not_holds h]

/-- A pair below the first filter is turned away before its weights are computed. -/
theorem judge_of_below (h : phrases.Holds pair.ids)
    (hphi : config.phiFilter > (phrases.occurrences pair.ids).phiTargetGivenSource.value) :
    model.judge config phrases pair = pure .belowPhiFilter := by
  unfold judge
  rw [PhraseCounts.occurrences?_of_holds h]
  exact if_pos hphi

/-- A pair that reaches the first filter is judged by its weights. -/
theorem judge_of_reaches [LawfulMonad m] (h : phrases.Reaches config pair.ids) :
    model.judge config phrases pair =
      verdictOf config (phrases.occurrences pair.ids) <$> model.weigh pair := by
  unfold judge weigh
  rw [PhraseCounts.occurrences?_of_holds h.1]
  dsimp only
  rw [if_neg h.2]
  simp only [map_bind, map_pure]
  refine bind_congr fun lexSourceGivenTarget => bind_congr fun lexTargetGivenSource => ?_
  unfold verdictOf
  split <;> rfl

/-- Weighing a pair computes both weights, in order. -/
theorem run_weigh_traced [LawfulMonad m] (model : LexicalModel m) (pair : PhrasePair)
    (calls : List WeightCall) :
    (model.traced.weigh pair).run calls =
      (fun weights => (weights, calls ++ [.sourceGivenTarget, .targetGivenSource])) <$>
        model.weigh pair := by
  unfold weigh traced
  simp

/-- The weights are computed once each, the first one first, if the pair was counted and its
`phi(e|f)` reaches the filter. Otherwise they are not computed. -/
theorem run_judge_traced [LawfulMonad m] (model : LexicalModel m) (config : Config)
    (phrases : PhraseCounts) (pair : PhrasePair) (calls : List WeightCall) :
    (phrases.Reaches config pair.ids ∧
      (model.traced.judge config phrases pair).run calls =
        (fun verdict => (verdict, calls ++ [.sourceGivenTarget, .targetGivenSource])) <$>
          model.judge config phrases pair) ∨
    (¬phrases.Reaches config pair.ids ∧
      (model.traced.judge config phrases pair).run calls =
        (fun verdict => (verdict, calls)) <$> model.judge config phrases pair) := by
  by_cases hholds : phrases.Holds pair.ids
  · by_cases hphi : config.phiFilter > (phrases.occurrences pair.ids).phiTargetGivenSource.value
    · right
      refine ⟨fun h => h.2 hphi, ?_⟩
      rw [judge_of_below hholds hphi, judge_of_below hholds hphi, map_pure]
      rfl
    · left
      refine ⟨⟨hholds, hphi⟩, ?_⟩
      rw [judge_of_reaches ⟨hholds, hphi⟩, judge_of_reaches ⟨hholds, hphi⟩, StateT.run_map,
        run_weigh_traced, Functor.map_map, Functor.map_map]
  · right
    refine ⟨fun h => hholds h.1, ?_⟩
    rw [judge_of_not_holds hholds, judge_of_not_holds hholds, map_pure]
    rfl

/-! ## Scoring with any weights -/

/-- What comes of scoring a pair with weights that have a state. -/
structure Result (σ : Type) where
  accepted : Bool
  scores : List Score
  /-- The state that the weights leave behind. -/
  state : σ
  /-- The weights that were computed, in order. -/
  calls : List WeightCall

section Result

variable {σ : Type} {model : LexicalModel (StateM σ)} {config : Config} {phrases : PhraseCounts}
  {pair : PhrasePair} {start : σ}

/-- Scores a pair. A pair that is turned away has no scores. -/
def result (model : LexicalModel (StateM σ)) (config : Config) (phrases : PhraseCounts)
    (pair : PhrasePair) (start : σ) : Result σ :=
  let (verdict, state) := (model.judge config phrases pair).run start
  { accepted := (verdict.scores? config).isSome
    scores := (verdict.scores? config).getD []
    state
    calls := (((model.traced.judge config phrases pair).run []).run start).1.2 }

/-- A pair that does not reach the first filter is turned away, and leaves the state as it is. -/
theorem result_of_not_reaches (h : ¬phrases.Reaches config pair.ids) :
    model.result config phrases pair start = ⟨false, [], start, []⟩ := by
  obtain ⟨hreaches, -⟩ | ⟨-, htraced⟩ := model.run_judge_traced config phrases pair []
  · exact absurd hreaches h
  have hverdict : ∃ verdict : Verdict, verdict.scores? config = none ∧
      model.judge config phrases pair = pure verdict := by
    by_cases hholds : phrases.Holds pair.ids
    · exact ⟨.belowPhiFilter, rfl, judge_of_below hholds (not_not.1 fun hphi => h ⟨hholds, hphi⟩)⟩
    · exact ⟨.uncounted, rfl, judge_of_not_holds hholds⟩
  obtain ⟨verdict, hscores, hjudge⟩ := hverdict
  unfold result
  rw [htraced, hjudge]
  show Result.mk (verdict.scores? config).isSome _ _ _ = _
  rw [hscores]
  rfl

/-- A pair that reaches the first filter is weighed, and accepted or turned away by its weights. -/
theorem result_of_reaches (h : phrases.Reaches config pair.ids) :
    model.result config phrases pair start =
      let weights := (model.weigh pair).run start
      let scores :=
        (verdictOf config (phrases.occurrences pair.ids) weights.1).scores? config
      ⟨scores.isSome, scores.getD [], weights.2, [.sourceGivenTarget, .targetGivenSource]⟩ := by
  obtain ⟨-, htraced⟩ | ⟨hreaches, -⟩ := model.run_judge_traced config phrases pair []
  · unfold result
    rw [htraced, judge_of_reaches h]
    rfl
  · exact absurd h hreaches

/-- A pair is accepted just if it passes all three tests. -/
theorem accepted_result_iff :
    (model.result config phrases pair start).accepted = true ↔
      phrases.Reaches config pair.ids ∧
        ¬config.lexFilter > ((model.weigh pair).run start).1.2.value := by
  by_cases h : phrases.Reaches config pair.ids
  · rw [result_of_reaches h]
    dsimp only [verdictOf]
    split
    · rename_i hlex
      exact iff_of_false nofun fun hpassed => hpassed.2 hlex
    · rename_i hlex
      exact iff_of_true rfl ⟨h, hlex⟩
  · rw [result_of_not_reaches h]
    exact iff_of_false nofun fun hpassed => h hpassed.1

/-- An accepted pair has a score for every column, and a pair that is turned away has none. -/
theorem scores_result (model : LexicalModel (StateM σ)) (config : Config) (phrases : PhraseCounts)
    (pair : PhrasePair) (start : σ) :
    ((model.result config phrases pair start).accepted = true ∧
      (model.result config phrases pair start).scores =
        config.columns.map (Features.value
          ⟨phrases.occurrences pair.ids, ((model.weigh pair).run start).1.1,
            ((model.weigh pair).run start).1.2⟩)) ∨
    ((model.result config phrases pair start).accepted = false ∧
      (model.result config phrases pair start).scores = []) := by
  by_cases h : phrases.Reaches config pair.ids
  · rw [result_of_reaches h]
    dsimp only [verdictOf]
    split
    · exact Or.inr ⟨rfl, rfl⟩
    · exact Or.inl ⟨rfl, rfl⟩
  · rw [result_of_not_reaches h]
    exact Or.inr ⟨rfl, rfl⟩

/-- The scores that are filtered are given as they passed their filters. -/
theorem not_lt_of_scores {column : Nat} {score : Score}
    (h : (model.result config phrases pair start).scores[column]? = some score) :
    (config.columns[column]? = some .phiTargetGivenSource → ¬score.value < config.phiFilter) ∧
      (config.columns[column]? = some .lexTargetGivenSource → ¬score.value < config.lexFilter) := by
  obtain ⟨haccepted, hscores⟩ | ⟨-, hscores⟩ := scores_result model config phrases pair start
  · obtain ⟨⟨-, hphi⟩, hlex⟩ := accepted_result_iff.1 haccepted
    rw [hscores, List.getElem?_map] at h
    constructor
    · intro hcolumn
      rw [hcolumn] at h
      cases h
      exact hphi
    · intro hcolumn
      rw [hcolumn] at h
      cases h
      exact hlex
  · rw [hscores] at h
    cases h

end Result

/-- **What turns a pair away.** The counts come from any history, the settings and the numbers of
the pair are any, and so are the weights. They may be chosen for these counts and this pair, so they
may depend on the counts as well. What a pair is divided by was counted at least once. The pair is
turned away just if one of its numbers was not counted or one of `phi(e|f)` and `lex(e|f)` is below
its filter, and then it has no scores; so no score that is given is below its filter. To be accepted
does not depend on the count of the target phrase, if there is one, nor on `phi(f|e)` and
`lex(f|e)`. The weights are computed once each if the first two tests are passed, and not at all
otherwise. -/
theorem result_filters {σ : Type} (counting config : Config) (ops : List CountOp)
    (pair : PhrasePair) (model : LexicalModel (StateM σ)) (start : σ) :
    let phrases := Counts.phrasesAfter counting ops
    let joint := phrases.pairs.get pair.ids.pair
    let source := phrases.sources.get pair.ids.source
    let weights := (model.weigh pair).run start
    let result := model.result config phrases pair start
    (∀ occurrences : Occurrences, phrases.occurrences? pair.ids = some occurrences →
      occurrences = phrases.occurrences pair.ids ∧ 1 ≤ joint ∧ 1 ≤ source ∧
        1 ≤ phrases.targets.get pair.ids.target) ∧
    (result.accepted = false ↔
      (¬phrases.pairs.Holds pair.ids.pair ∨ ¬phrases.sources.Holds pair.ids.source ∨
          ¬phrases.targets.Holds pair.ids.target) ∨
        config.phiFilter > Float.ofInt joint / Float.ofInt source ∨
        config.lexFilter > weights.1.2.value) ∧
    (result.accepted = false → result.scores = []) ∧
    (∀ (column : Nat) (score : Score), result.scores[column]? = some score →
      (config.columns[column]? = some .phiTargetGivenSource → ¬score.value < config.phiFilter) ∧
      (config.columns[column]? = some .lexTargetGivenSource → ¬score.value < config.lexFilter)) ∧
    (∀ {σ' : Type} (counting' : Config) (ops' : List CountOp) (pair' : PhrasePair)
      (model' : LexicalModel (StateM σ')) (start' : σ'),
      let phrases' := Counts.phrasesAfter counting' ops'
      phrases.Holds pair.ids → phrases'.Holds pair'.ids →
      phrases'.pairs.get pair'.ids.pair = joint → phrases'.sources.get pair'.ids.source = source →
      ((model'.weigh pair').run start').1.2.value = weights.1.2.value →
        (model'.result config phrases' pair' start').accepted = result.accepted) ∧
    (phrases.Holds pair.ids ∧ ¬config.phiFilter > Float.ofInt joint / Float.ofInt source →
      result.calls = [.sourceGivenTarget, .targetGivenSource] ∧ result.state = weights.2) ∧
    (¬(phrases.Holds pair.ids ∧ ¬config.phiFilter > Float.ofInt joint / Float.ofInt source) →
      result.calls = [] ∧ result.state = start) := by
  intro phrases joint source weights result
  have hcounts : phrases.CountsAll (finalPairs counting 0 ops) :=
    Counts.countsAll_phrasesAfter counting ops
  have haccepted : result.accepted = true ↔ phrases.Reaches config pair.ids ∧
      ¬config.lexFilter > weights.1.2.value := accepted_result_iff
  refine ⟨?_, ?_, ?_, ?_, ?_, ?_, ?_⟩
  · intro occurrences hfound
    by_cases hholds : phrases.Holds pair.ids
    · rw [PhraseCounts.occurrences?_of_holds hholds] at hfound
      exact ⟨(Option.some.inj hfound).symm, hcounts.pairs.one_le hholds.pair,
        hcounts.sources.one_le hholds.source, hcounts.targets.one_le hholds.target⟩
    · rw [PhraseCounts.occurrences?_of_not_holds hholds] at hfound
      cases hfound
  · rw [← Bool.not_eq_true, haccepted, ← PhraseCounts.not_holds_iff]
    show ¬((phrases.Holds pair.ids ∧ ¬config.phiFilter > Float.ofInt joint / Float.ofInt source) ∧
      ¬config.lexFilter > weights.1.2.value) ↔ _
    rw [not_and_or, not_and_or, not_not, not_not, or_assoc]
  · intro hrejected
    obtain ⟨haccepted, -⟩ | ⟨-, hscores⟩ := scores_result model config phrases pair start
    · exact absurd haccepted (by rw [hrejected]; exact Bool.false_ne_true)
    · exact hscores
  · intro column score hscore
    exact not_lt_of_scores hscore
  · intro σ' counting' ops' pair' model' start' phrases' hholds hholds' hjoint hsource hlex
    rw [Bool.eq_iff_iff, haccepted, accepted_result_iff, hlex]
    have hreaches : phrases'.Reaches config pair'.ids ↔ phrases.Reaches config pair.ids := by
      refine and_congr (iff_of_true hholds' hholds) (not_congr ?_)
      show config.phiFilter > Float.ofInt (phrases'.pairs.get pair'.ids.pair) /
        Float.ofInt (phrases'.sources.get pair'.ids.source) ↔ _
      rw [hjoint, hsource]
      rfl
    rw [hreaches]
  · intro hreaches
    have hresult : result = _ := result_of_reaches hreaches
    rw [hresult]
    exact ⟨rfl, rfl⟩
  · intro hreaches
    have hresult : result = _ := result_of_not_reaches hreaches
    rw [hresult]
    exact ⟨rfl, rfl⟩

end LexicalModel

end PhraseTable
