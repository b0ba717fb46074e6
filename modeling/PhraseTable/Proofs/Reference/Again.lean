import PhraseTable.Proofs.Reference.Check
import PhraseTable.Session

/-!
# Checking a reference table twice

A check takes new words and phrases in, and it does so for a malformed line too. A second check
finds all of them known. So it reads every line as the first one did (`ReferenceLine.read_again`),
gives every pair its numbers again (`CheckState.checkPair_again`) and comes to the same end
(`checkText_again`), whatever the scorer is, if it starts from the same state.
-/

set_option autoImplicit false

namespace PhraseTable

/-- What follows a logged value matters only for that value. -/
theorem Logged.bind_congr_value {α β : Type} {x : Logged α} {f g : α → Logged β}
    (h : f x.value = g x.value) : x >>= f = x >>= g := by
  apply Logged.ext
  · rw [Logged.value_bind, Logged.value_bind, h]
  · rw [Logged.log_bind, Logged.log_bind, h]

namespace PhraseIndex

/-- A pair that was numbered once has the same numbers in any index that comes later. -/
theorem insert_again {index larger : PhraseIndex} {pair : PhrasePair}
    (h : larger.Extends (index.insert pair).1) :
    larger.insert pair = (larger, (index.insert pair).2) := by
  have hhas := has_insert index pair
  rw [insert_of_has (h.has hhas), snd_insert, h.idsOf hhas]

end PhraseIndex

namespace CheckState

variable {σ : Type} (scorer : Scorer σ) (debugLevel : Int) {larger : Vocabulary}
  {index : PhraseIndex}

/-- The state with another vocabulary and another index. -/
def withShared (larger : Vocabulary) (index : PhraseIndex) (state : CheckState σ) : CheckState σ :=
  { state with vocabulary := larger, index }

/-- Checking a pair stores no words. -/
theorem vocabulary_checkPair (state : CheckState σ) (line : ReferenceLine) :
    (checkPair scorer debugLevel state line).value.vocabulary = state.vocabulary := by
  unfold checkPair
  rw [Logged.value_bind]
  split <;> rfl

/-- Checking a pair enters it in the index. -/
theorem index_checkPair (state : CheckState σ) (line : ReferenceLine) :
    (checkPair scorer debugLevel state line).value.index = (state.index.insert line.pair).1 := by
  unfold checkPair
  rw [Logged.value_bind]
  split <;> rfl

/-- A phrase pair that was checked once is checked again in the same way. -/
theorem checkPair_again {state : CheckState σ} {line : ReferenceLine}
    (h : index.Extends (state.index.insert line.pair).1) :
    checkPair scorer debugLevel (state.withShared larger index) line =
      withShared larger index <$> checkPair scorer debugLevel state line := by
  obtain ⟨vocabulary, before, start, summary⟩ := state
  have hinsert := PhraseIndex.insert_again h
  unfold checkPair withShared
  dsimp only at hinsert ⊢
  rw [hinsert]
  generalize before.insert line.pair = numbered
  obtain ⟨after, pair⟩ := numbered
  dsimp only
  generalize scorer start pair = answer
  obtain ⟨start', reply, log⟩ := answer
  cases reply with
  | none => rfl
  | some scores => rfl

/-- Checking lines takes away no symbol and no number. -/
theorem extends_checkLines (state : CheckState σ) (lineNumber : Nat) (lines : List String) :
    (checkLines scorer debugLevel state lineNumber lines).value.1.vocabulary.Extends
        state.vocabulary ∧
      (checkLines scorer debugLevel state lineNumber lines).value.1.index.Extends state.index := by
  induction lines generalizing state lineNumber with
  | nil => exact ⟨.refl _, .refl _⟩
  | cons line rest ih =>
    by_cases hline : line.isEmpty
    · rw [checkLines_of_isEmpty scorer debugLevel state lineNumber rest hline]
      exact ih state (lineNumber + 1)
    · have hwords := ReferenceLine.extends_read state.vocabulary line
      cases hread : ReferenceLine.read state.vocabulary line with
      | mk vocabulary outcome =>
        rw [hread] at hwords
        cases outcome with
        | error fault =>
          rw [checkLines_of_error scorer debugLevel state lineNumber rest hline hread]
          exact ⟨hwords, .refl _⟩
        | ok found =>
          rw [checkLines_of_ok scorer debugLevel state lineNumber rest hline hread,
            Logged.value_bind]
          obtain ⟨hvocabulary, hindex⟩ := ih
            (checkPair scorer debugLevel { state with vocabulary } found).value (lineNumber + 1)
          rw [vocabulary_checkPair] at hvocabulary
          rw [index_checkPair] at hindex
          exact ⟨hvocabulary.trans hwords, hindex.trans (PhraseIndex.extends_insert _ _)⟩

/-- Lines that were checked once are checked again in the same way, up to the same malformed line,
and no word and no phrase is new. -/
theorem checkLines_again (state : CheckState σ) (lineNumber : Nat) (lines : List String)
    (hlarger : larger.Extends
      (checkLines scorer debugLevel state lineNumber lines).value.1.vocabulary)
    (hindex : index.Extends (checkLines scorer debugLevel state lineNumber lines).value.1.index) :
    checkLines scorer debugLevel (state.withShared larger index) lineNumber lines =
      Prod.map (withShared larger index) id <$>
        checkLines scorer debugLevel state lineNumber lines := by
  induction lines generalizing state lineNumber with
  | nil => rfl
  | cons line rest ih =>
    by_cases hline : line.isEmpty
    · rw [checkLines_of_isEmpty scorer debugLevel state lineNumber rest hline] at *
      rw [checkLines_of_isEmpty scorer debugLevel (state.withShared larger index) lineNumber rest
        hline]
      exact ih state (lineNumber + 1) hlarger hindex
    · cases hread : ReferenceLine.read state.vocabulary line with
      | mk vocabulary outcome =>
        cases outcome with
        | error fault =>
          rw [checkLines_of_error scorer debugLevel state lineNumber rest hline hread] at hlarger ⊢
          have hagain := ReferenceLine.read_again hread hlarger
          rw [checkLines_of_error scorer debugLevel (state.withShared larger index) lineNumber rest
            hline hagain]
          rfl
        | ok found =>
          rw [checkLines_of_ok scorer debugLevel state lineNumber rest hline hread] at *
          rw [Logged.value_bind] at hlarger hindex
          obtain ⟨hwords, hnumbers⟩ := extends_checkLines scorer debugLevel
            (checkPair scorer debugLevel { state with vocabulary } found).value (lineNumber + 1)
            rest
          rw [vocabulary_checkPair] at hwords
          rw [index_checkPair] at hnumbers
          have hagain := ReferenceLine.read_again hread (hlarger.trans hwords)
          have hpair : checkPair scorer debugLevel
              { state.withShared larger index with vocabulary := larger } found =
                withShared larger index <$>
                  checkPair scorer debugLevel { state with vocabulary } found :=
            checkPair_again scorer debugLevel (hindex.trans hnumbers)
          rw [checkLines_of_ok scorer debugLevel (state.withShared larger index) lineNumber rest
            hline hagain, hpair, bind_map_left, map_bind]
          exact Logged.bind_congr_value (ih _ _ hlarger hindex)

end CheckState

/-- A text that was checked once is checked again in the same way, with what the first check has
left behind, and leaves the same behind. -/
theorem checkText_again {σ : Type} (scorer : Scorer σ) (debugLevel : Int) (vocabulary : Vocabulary)
    (index : PhraseIndex) (start : σ) (text : String) :
    checkText scorer debugLevel
        (checkText scorer debugLevel vocabulary index start text).value.1.vocabulary
        (checkText scorer debugLevel vocabulary index start text).value.1.index start text =
      checkText scorer debugLevel vocabulary index start text := by
  refine (CheckState.checkLines_again scorer debugLevel ⟨vocabulary, index, start, .empty⟩ 1
    (Text.lines text) (.refl _) (.refl _)).trans ?_
  rfl

namespace Session

/-- The answer to a check with this outcome. -/
def checkAnswer : Except ReferenceError Summary → Except SessionError Answer
  | .error error => .error (.reference error)
  | .ok summary => .ok (.checked summary)

/-- A session checks a text with its own scorer, and keeps what the check leaves. -/
theorem step_check (session : Session) (text : String) :
    session.step (.check text) =
      Prod.map session.afterCheck checkAnswer <$>
        checkText session.scorer session.scoring.debugLevel session.vocabulary session.index ()
          text := by
  rw [map_eq_pure_bind]
  refine bind_congr ?_
  rintro ⟨state, outcome⟩
  cases outcome <;> rfl

/-- **A check can be repeated.** It leaves the counts, the settings and the phrase pairs of a
session as they are, and every word and every phrase keeps its number. Checking the same text again
gives the same answer and the same log, and nothing is new to the session, also if the first check
ended at a malformed line. -/
theorem check_again (session : Session) (text : String) :
    (session.step (.check text)).value.1.counts = session.counts ∧
    (session.step (.check text)).value.1.scoring = session.scoring ∧
    (session.step (.check text)).value.1.pairs = session.pairs ∧
    (session.step (.check text)).value.1.vocabulary.Extends session.vocabulary ∧
    (session.step (.check text)).value.1.index.Extends session.index ∧
    (session.step (.check text)).value.1.step (.check text) = session.step (.check text) := by
  rw [step_check]
  obtain ⟨hvocabulary, hindex⟩ := CheckState.extends_checkLines session.scorer
    session.scoring.debugLevel ⟨session.vocabulary, session.index, (), .empty⟩ 1 (Text.lines text)
  refine ⟨rfl, rfl, rfl, hvocabulary, hindex, ?_⟩
  rw [step_check]
  exact congrArg _ (checkText_again session.scorer session.scoring.debugLevel session.vocabulary
    session.index () text)

end Session

end PhraseTable
