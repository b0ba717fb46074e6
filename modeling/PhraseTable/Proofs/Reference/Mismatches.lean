import PhraseTable.Proofs.Number.SelfQuotient
import PhraseTable.Proofs.Reference.Check
import PhraseTable.Session

/-!
# Which values of a reference table do not agree

A value agrees with a score if their quotient is near one. So a value that is the score itself
agrees, unless both are zero: then the quotient is no number, and nothing is near that
(`agrees_of_beq`). `value_compareFrom` says what the comparison of one line counts, column by
column, and `compared_checkLines` what all lines count, of any text and with any scorer. A table
that is checked against its own values therefore shows as many mismatches as it has zeros
(`checkText_mismatches`).
-/

set_option autoImplicit false

namespace PhraseTable

/-! ## One column -/

/-- The relative error depends on the two numbers through their quotient alone. -/
theorem relativeError_congr {x y v w : Float}
    (h : (x / y).toModel.unpack = (v / w).toModel.unpack) :
    relativeError x y = relativeError v w := by
  show Float.ofModel (.pack (.sub .binary64 (1 : Float).toModel.unpack (x / y).toModel.unpack)) =
    .ofModel (.pack (.sub .binary64 (1 : Float).toModel.unpack (v / w).toModel.unpack))
  rw [h]

/-- Equal doubles agree just if they are finite and not zero. -/
theorem agrees_of_beq {x y : Float} (h : (x == y) = true) :
    agrees x y = (y.isFinite && !(y == 0)) := by
  have hquotient := Binary64.unpack_div_of_beq h
  cases hnormal : y.isFinite && !(y == 0) with
  | true =>
    have hone : (x / y).toModel.unpack = ((1 : Float) / 1).toModel.unpack := by
      rw [hquotient, hnormal]
      rfl
    unfold agrees
    rw [relativeError_congr hone]
    decide +kernel
  | false =>
    have hzero : (x / y).toModel.unpack = ((0 : Float) / 0).toModel.unpack := by
      rw [hquotient, hnormal]
      exact (Binary64.unpack_div_of_notANumber rfl).symm
    unfold agrees
    rw [relativeError_congr hzero]
    decide +kernel

/-- A value of a reference table and the score in its column. -/
structure Comparison where
  reading : Number.Reading
  score : Score

namespace Comparison

/-- Is it counted as a mismatch? -/
def disagrees (comparison : Comparison) : Bool :=
  !agrees comparison.reading.value comparison.score.value

/-- The value and the score are the same finite number. -/
def Same (comparison : Comparison) : Prop :=
  (comparison.reading.value == comparison.score.value) = true ∧
    comparison.score.value.isFinite = true

/-- Is the score zero? -/
def isZero (comparison : Comparison) : Bool :=
  comparison.score.value == 0

instance (comparison : Comparison) : Decidable comparison.Same :=
  inferInstanceAs (Decidable (_ ∧ _))

/-- Equal finite values are a mismatch just when they are zero. -/
theorem disagrees_of_same {comparison : Comparison} (h : comparison.Same) :
    comparison.disagrees = comparison.isZero := by
  unfold disagrees isZero
  rw [agrees_of_beq h.1, h.2, Bool.true_and, Bool.not_not]

end Comparison

/-! ## One line -/

namespace Summary

/-- The summary with these comparisons counted. -/
def addComparisons (summary : Summary) (comparisons : List Comparison) : Summary :=
  { summary with
    features := summary.features + comparisons.length
    mismatches := summary.mismatches + comparisons.countP Comparison.disagrees }

/-- Without comparisons a summary stays as it is. -/
@[simp] theorem addComparisons_nil (summary : Summary) : summary.addComparisons [] = summary := rfl

/-- Comparisons may be counted in two parts. -/
theorem addComparisons_addComparisons (summary : Summary) (comparisons others : List Comparison) :
    (summary.addComparisons comparisons).addComparisons others =
      summary.addComparisons (comparisons ++ others) := by
  simp [addComparisons, Nat.add_assoc]

section Compare

variable (debugLevel : Int) (line : ReferenceLine) (pair : PhrasePair) (scores : List Score)

/-- A value without a score is not compared. -/
theorem value_compare_of_none (summary : Summary) {column : Nat} (reading : Number.Reading)
    (h : scores[column]? = none) :
    (summary.compare debugLevel line pair scores column reading).value = summary := by
  unfold compare
  rw [h]
  rfl

/-- A value with a score is compared with it. -/
theorem value_compare_of_some (summary : Summary) {column : Nat} (reading : Number.Reading)
    {score : Score} (h : scores[column]? = some score) :
    (summary.compare debugLevel line pair scores column reading).value =
      summary.addComparisons [⟨reading, score⟩] := by
  unfold compare
  rw [h]
  dsimp only
  split
  · rename_i hagrees
    simp [addComparisons, Comparison.disagrees, hagrees]
  · rename_i hagrees
    simp [addComparisons, Comparison.disagrees, hagrees]

/-- Values are compared column by column, as long as there are scores. -/
theorem value_compareFrom (summary : Summary) (column : Nat) (readings : List Number.Reading) :
    (summary.compareFrom debugLevel line pair scores column readings).value =
      summary.addComparisons (List.zipWith Comparison.mk readings (scores.drop column)) := by
  induction readings generalizing summary column with
  | nil => simp [compareFrom]
  | cons reading rest ih =>
    rw [compareFrom, Logged.value_bind, ih]
    cases hscore : scores[column]? with
    | none =>
      have hlength := List.getElem?_eq_none_iff.1 hscore
      rw [value_compare_of_none _ _ _ _ _ _ hscore, List.drop_eq_nil_of_le hlength,
        List.drop_eq_nil_of_le (by omega)]
      simp
    | some score =>
      obtain ⟨hlt, rfl⟩ := List.getElem?_eq_some_iff.1 hscore
      rw [value_compare_of_some _ _ _ _ _ _ hscore, List.drop_eq_getElem_cons hlt,
        addComparisons_addComparisons]
      rfl

end Compare

/-- These comparisons were made between the two summaries. -/
structure Compared (before after : Summary) (comparisons : List Comparison) : Prop where
  features_eq : after.features = before.features + comparisons.length
  mismatches_eq : after.mismatches = before.mismatches + comparisons.countP Comparison.disagrees

/-- Without comparisons nothing was compared. -/
theorem Compared.refl (summary : Summary) : summary.Compared summary [] := ⟨rfl, rfl⟩

/-- Comparisons of two parts were made one after the other. -/
theorem Compared.trans {before middle after : Summary} {comparisons others : List Comparison}
    (h : before.Compared middle comparisons) (hothers : middle.Compared after others) :
    before.Compared after (comparisons ++ others) where
  features_eq := by
    rw [hothers.features_eq, h.features_eq, List.length_append, Nat.add_assoc]
  mismatches_eq := by
    rw [hothers.mismatches_eq, h.mismatches_eq, List.countP_append, Nat.add_assoc]

end Summary

namespace ReferenceLine

/-- The values of a line, if all of them are numbers. -/
def valuesOf (line : String) : List Number.Reading :=
  (((Text.tokens ((Text.fields line).getD 4 "")).mapM Number.read).toOption).getD []

/-- A line that was read has these values. -/
theorem valuesOf_of_read {vocabulary after : Vocabulary} {line : String} {found : ReferenceLine}
    (h : read vocabulary line = (after, .ok found)) : valuesOf line = found.values := by
  obtain ⟨source, target, alignment, second, values, hfields⟩ | hcount := fields_cases line
  · rw [read_of_fields hfields] at h
    have hvalues := (ofPair_eq_ok_iff.1 (congrArg Prod.snd h)).2.2
    unfold valuesOf
    rw [hfields]
    simp [hvalues, Except.toOption]
  · rw [read_of_length_ne hcount] at h
    cases h

end ReferenceLine

/-- The values of a line with the scores that a call gave for it. -/
def ScorerCall.comparisons (call : ScorerCall) (values : List Number.Reading) : List Comparison :=
  match call.reply with
  | none => []
  | some scores => List.zipWith Comparison.mk values scores

/-- What was compared when these calls were made for the first of these lines. -/
def comparisons (calls : List ScorerCall) (lines : List String) : List Comparison :=
  (List.zipWith (fun call line => call.comparisons (ReferenceLine.valuesOf line)) calls
    lines).flatten

/-! ## Texts -/

namespace CheckState

variable {σ : Type} (scorer : Scorer σ) (debugLevel : Int)

/-- One line makes one call, and its scores are compared. -/
theorem compared_checkPair (state : CheckState (σ × List ScorerCall)) (line : ReferenceLine) :
    ∃ call : ScorerCall,
      (checkPair scorer.traced debugLevel state line).value.scorer.2 = state.scorer.2 ++ [call] ∧
      state.summary.Compared (checkPair scorer.traced debugLevel state line).value.summary
        (call.comparisons line.values) := by
  obtain ⟨vocabulary, index, ⟨start, calls⟩, summary⟩ := state
  refine ⟨⟨(index.insert line.pair).2, (scorer start (index.insert line.pair).2).2.value⟩, ?_⟩
  unfold checkPair
  dsimp only [Scorer.traced]
  generalize index.insert line.pair = numbered
  obtain ⟨index', pair⟩ := numbered
  generalize scorer start pair = answer
  obtain ⟨start', reply, log⟩ := answer
  cases reply with
  | none => exact ⟨rfl, rfl, rfl⟩
  | some scores =>
    refine ⟨rfl, ?_⟩
    show summary.Compared (Summary.compareFrom debugLevel line pair scores
      { summary with lines := summary.lines + 1 } 0 line.values).value _
    rw [Summary.value_compareFrom]
    exact ⟨rfl, rfl⟩

/-- All lines up to the end, or to the first one that is malformed. -/
theorem compared_checkLines (state : CheckState (σ × List ScorerCall)) (lineNumber : Nat)
    (lines : List String) :
    ∃ (after : CheckState (σ × List ScorerCall)) (outcome : Except ReferenceError Summary)
        (calls : List ScorerCall),
      (checkLines scorer.traced debugLevel state lineNumber lines).value = (after, outcome) ∧
      after.scorer.2 = state.scorer.2 ++ calls ∧
      state.summary.Compared after.summary (comparisons calls (Run.phraseLines lines)) ∧
      ∀ summary : Summary, outcome = .ok summary → summary = after.summary := by
  induction lines generalizing state lineNumber with
  | nil =>
    refine ⟨state, .ok state.summary, [], rfl, by simp, .refl _, ?_⟩
    rintro _ ⟨⟩
    rfl
  | cons line rest ih =>
    by_cases hline : line.isEmpty
    · rw [checkLines_of_isEmpty _ _ _ _ _ hline, Run.phraseLines_cons_of_isEmpty hline]
      exact ih state (lineNumber + 1)
    · cases hread : ReferenceLine.read state.vocabulary line with
      | mk vocabulary read =>
      cases read with
      | error fault =>
        rw [checkLines_of_error _ _ _ _ _ hline hread]
        exact ⟨_, _, [], rfl, by simp, .refl _, nofun⟩
      | ok found =>
        rw [checkLines_of_ok _ _ _ _ _ hline hread, Run.phraseLines_cons_of_not_isEmpty hline]
        obtain ⟨call, hcall, hcompared⟩ :=
          compared_checkPair scorer debugLevel { state with vocabulary } found
        obtain ⟨after, outcome, calls, hvalue, hcalls, hrest, hsummary⟩ := ih
          (checkPair scorer.traced debugLevel { state with vocabulary } found).value
          (lineNumber + 1)
        refine ⟨after, outcome, call :: calls, hvalue, ?_, ?_, hsummary⟩
        · rw [hcalls, hcall, List.append_assoc, List.singleton_append]
        · rw [← ReferenceLine.valuesOf_of_read hread] at hcompared
          exact hcompared.trans hrest

end CheckState

/-- **Equal values are mismatches just if they are zero.** Whatever is compared, a value that is the
same finite number as its score adds to the mismatches just if both are zero. A check of any text
with any scorer counts the columns of its lines, each line with the scores of its own call. If every
value is the score itself, there are as many mismatches as there are zeros. -/
theorem checkText_mismatches {σ : Type} (scorer : Scorer σ) (debugLevel : Int)
    (vocabulary : Vocabulary) (index : PhraseIndex) (start : σ) (text : String) :
    (∀ (line : ReferenceLine) (pair : PhrasePair) (scores : List Score) (summary : Summary)
        (column : Nat) (reading : Number.Reading) (score : Score),
      scores[column]? = some score → Comparison.Same ⟨reading, score⟩ →
        (summary.compare debugLevel line pair scores column reading).value =
          { summary with
            features := summary.features + 1
            mismatches := summary.mismatches + if score.value == 0 then 1 else 0 }) ∧
    ∃ (after : CheckState (σ × List ScorerCall)) (outcome : Except ReferenceError Summary),
      (checkText scorer.traced debugLevel vocabulary index (start, []) text).value =
        (after, outcome) ∧
      (checkText scorer debugLevel vocabulary index start text).value =
        (after.untraced, outcome) ∧
      (∀ summary : Summary, outcome = .ok summary → summary = after.summary) ∧
      Summary.empty.Compared after.summary
        (comparisons after.scorer.2 (Run.phraseLines (Text.lines text))) ∧
      ((∀ comparison ∈ comparisons after.scorer.2 (Run.phraseLines (Text.lines text)),
          comparison.Same) →
        after.summary.mismatches =
          (comparisons after.scorer.2 (Run.phraseLines (Text.lines text))).countP
            Comparison.isZero) := by
  constructor
  · intro line pair scores summary column reading score hscore hsame
    rw [Summary.value_compare_of_some _ _ _ _ _ _ hscore, Summary.addComparisons]
    simp [List.countP_cons, Comparison.disagrees_of_same hsame, Comparison.isZero]
  · obtain ⟨after, outcome, calls, hvalue, hcalls, hcompared, hsummary⟩ :=
      CheckState.compared_checkLines scorer debugLevel ⟨vocabulary, index, (start, []), .empty⟩ 1
        (Text.lines text)
    obtain rfl : after.scorer.2 = calls := hcalls
    have huntraced := CheckState.untraced_checkLines scorer debugLevel
      ⟨vocabulary, index, (start, []), .empty⟩ 1 (Text.lines text)
    refine ⟨after, outcome, hvalue, ?_, hsummary, hcompared, ?_⟩
    · have hplain := congrArg Logged.value huntraced
      rw [Logged.value_map, hvalue] at hplain
      exact hplain.symm
    · intro hsame
      have hmismatches := hcompared.mismatches_eq
      rw [List.countP_congr fun comparison hcomparison => by
        rw [Comparison.disagrees_of_same (hsame comparison hcomparison)]] at hmismatches
      simpa [Summary.empty] using hmismatches

/-- A session in which one phrase pair was counted and no word pair, and words without a probability
have the weight zero. -/
def unseenWordSession : Session :=
  (Session.run (.empty { exact := false, minLexProb := 0 })
    [.parse "b ||| x |||", .index 0, .count 0]).value.1

/-- The phrase pair of that session with its own scores. -/
def unseenWordLine : String := "b ||| x ||| ||| ||| 1 0 1 0\n"

/-- All four values are the scores themselves, and two of them are counted as mismatches. -/
theorem mismatches_unseenWordLine :
    (checkText unseenWordSession.scorer.traced 0 unseenWordSession.vocabulary
        unseenWordSession.index ((), []) unseenWordLine).value.2 = .ok ⟨1, 4, 2, 0⟩ ∧
    (comparisons
        (checkText unseenWordSession.scorer.traced 0 unseenWordSession.vocabulary
          unseenWordSession.index ((), []) unseenWordLine).value.1.scorer.2
        (Run.phraseLines (Text.lines unseenWordLine))).map
      (fun comparison => decide comparison.Same) = [true, true, true, true] := by
  decide +kernel

end PhraseTable
