import Mathlib.Algebra.BigOperators.Ring.Finset
import PhraseTable.Proofs.PhraseIndex
import PhraseTable.Proofs.Reference.Line
import PhraseTable.Reference.File

/-!
# What a check of a reference table comes to

The scorer of a check may be any. `Scorer.traced` notes how it is called, which changes nothing
(`CheckState.untraced_checkLines`). One line that is not malformed makes one call, and the answer
decides what is counted (`CheckState.checked_checkPair`); by induction so do all lines in front of
the first malformed one (`CheckState.checked_checkLines`), and `checkText_outcome` says what the
whole check comes to.
-/

set_option autoImplicit false

namespace PhraseTable

/-! ## Calls of a scorer -/

/-- A phrase pair that a scorer was asked for, and what it answered. -/
structure ScorerCall where
  pair : PhrasePair
  reply : Option (List Score)

/-- The scorer that notes its calls, the first one first. -/
def Scorer.traced {σ : Type} (scorer : Scorer σ) : Scorer (σ × List ScorerCall) :=
  fun state pair =>
    (((scorer state.1 pair).1, state.2 ++ [⟨pair, (scorer state.1 pair).2.value⟩]),
      (scorer state.1 pair).2)

namespace CheckState

variable {σ : Type}

/-- The state without the calls that were noted. -/
def untraced (state : CheckState (σ × List ScorerCall)) : CheckState σ :=
  { state with scorer := state.scorer.1 }

/-- Noting the calls of the scorer changes nothing else in the check of a line. -/
theorem untraced_checkPair (scorer : Scorer σ) (debugLevel : Int)
    (state : CheckState (σ × List ScorerCall)) (line : ReferenceLine) :
    untraced <$> checkPair scorer.traced debugLevel state line =
      checkPair scorer debugLevel state.untraced line := by
  obtain ⟨vocabulary, index, ⟨scorerState, calls⟩, summary⟩ := state
  unfold checkPair
  dsimp only [Scorer.traced, untraced]
  generalize scorer scorerState (index.insert line.pair).2 = answer
  obtain ⟨scorerState', reply, log⟩ := answer
  cases reply with
  | none => rfl
  | some scores => rfl

/-- That the calls are noted changes neither the outcome nor the log. -/
theorem untraced_checkLines (scorer : Scorer σ) (debugLevel : Int)
    (state : CheckState (σ × List ScorerCall)) (lineNumber : Nat) (lines : List String) :
    Prod.map untraced id <$> checkLines scorer.traced debugLevel state lineNumber lines =
      checkLines scorer debugLevel state.untraced lineNumber lines := by
  induction lines generalizing state lineNumber with
  | nil => rfl
  | cons line rest ih =>
    unfold checkLines
    split
    · exact ih state (lineNumber + 1)
    · dsimp only [untraced]
      generalize ReferenceLine.read state.vocabulary line = outcome
      obtain ⟨vocabulary, fault | found⟩ := outcome
      · rfl
      · have hpair := untraced_checkPair scorer debugLevel { state with vocabulary } found
        dsimp only [untraced] at hpair ⊢
        rw [map_bind, ← hpair, bind_map_left]
        exact bind_congr fun after => ih after (lineNumber + 1)

end CheckState

/-! ## What is counted -/

/-- How many values of a reference line have a score to be compared with. -/
def ScorerCall.compared (call : ScorerCall) (line : String) : Nat :=
  match call.reply with
  | none => 0
  | some scores => min (Text.tokens ((Text.fields line).getD 4 "")).length scores.length

namespace Summary

/-- So many more values were compared, and nothing else was done. -/
structure ComparedMore (before after : Summary) (count : Nat) : Prop where
  lines_eq : after.lines = before.lines
  rejected_eq : after.rejected = before.rejected
  features_eq : after.features = before.features + count
  mismatches_le : after.mismatches ≤ before.mismatches + count

section Compare

variable (debugLevel : Int) (line : ReferenceLine) (pair : PhrasePair) (scores : List Score)

/-- One value is compared, if there is a score for it. -/
theorem comparedMore_compare (summary : Summary) (column : Nat) (reading : Number.Reading) :
    summary.ComparedMore (summary.compare debugLevel line pair scores column reading).value
      (if column < scores.length then 1 else 0) := by
  unfold compare
  split
  · rename_i hnone
    rw [if_neg (Nat.not_lt.2 (List.getElem?_eq_none_iff.1 hnone))]
    exact ⟨rfl, rfl, rfl, Nat.le_refl _⟩
  · rename_i score hscore
    rw [if_pos (List.getElem?_eq_some_iff.1 hscore).1]
    dsimp only
    split
    · exact ⟨rfl, rfl, rfl, Nat.le_succ _⟩
    · exact ⟨rfl, rfl, rfl, Nat.le_refl _⟩

/-- Values without a score are passed over, and scores without a value are not looked at. -/
theorem comparedMore_compareFrom (summary : Summary) (column : Nat)
    (readings : List Number.Reading) :
    summary.ComparedMore (summary.compareFrom debugLevel line pair scores column readings).value
      (min readings.length (scores.length - column)) := by
  induction readings generalizing summary column with
  | nil => exact ⟨rfl, rfl, by simp [compareFrom], Nat.le_add_right _ _⟩
  | cons reading rest ih =>
    have hfirst := comparedMore_compare debugLevel line pair scores summary column reading
    have hrest := ih (summary.compare debugLevel line pair scores column reading).value (column + 1)
    have hcount : min (reading :: rest).length (scores.length - column) =
        (if column < scores.length then 1 else 0) +
          min rest.length (scores.length - (column + 1)) := by
      rw [List.length_cons]
      split <;> omega
    have hfeatures := hfirst.features_eq
    have hmismatches := hfirst.mismatches_le
    have hrestFeatures := hrest.features_eq
    have hrestMismatches := hrest.mismatches_le
    unfold compareFrom
    rw [hcount, Logged.value_bind]
    exact ⟨hrest.lines_eq.trans hfirst.lines_eq, hrest.rejected_eq.trans hfirst.rejected_eq,
      by omega, by omega⟩

end Compare

/-- What the summary of a check grows by when these calls are made for these lines. -/
structure Grown (before after : Summary) (lines : List String) (calls : List ScorerCall) :
    Prop where
  lines_eq : after.lines = before.lines + calls.length
  rejected_eq : after.rejected = before.rejected + calls.countP fun call => call.reply.isNone
  features_eq :
    after.features = before.features + (List.zipWith ScorerCall.compared calls lines).sum
  mismatches_le : after.mismatches + before.features ≤ before.mismatches + after.features

/-- Without calls a summary has not grown. -/
theorem Grown.refl (summary : Summary) : summary.Grown summary [] [] :=
  ⟨rfl, rfl, rfl, Nat.le_refl _⟩

/-- One more line, the values of which were compared. -/
theorem ComparedMore.grown {before after : Summary} {line : String} {call : ScorerCall}
    {scores : List Score} (hreply : call.reply = some scores)
    (h : { before with lines := before.lines + 1 }.ComparedMore after
      (min (Text.tokens ((Text.fields line).getD 4 "")).length scores.length)) :
    before.Grown after [line] [call] where
  lines_eq := h.lines_eq
  rejected_eq := by
    rw [h.rejected_eq, List.countP_singleton, hreply]
    rfl
  features_eq := by
    rw [h.features_eq, List.zipWith_cons_cons, List.zipWith_nil_left, List.sum_singleton,
      ScorerCall.compared, hreply]
  mismatches_le := by
    have hfeatures := h.features_eq
    have hmismatches := h.mismatches_le
    dsimp only at hfeatures hmismatches
    omega

/-- A summary that grew by one line and then by others has grown by all of them. -/
theorem Grown.cons {before middle after : Summary} {line : String} {lines : List String}
    {call : ScorerCall} {calls : List ScorerCall} (h : before.Grown middle [line] [call])
    (hrest : middle.Grown after lines calls) :
    before.Grown after (line :: lines) (call :: calls) where
  lines_eq := by
    rw [hrest.lines_eq, h.lines_eq, List.length_singleton, List.length_cons]
    omega
  rejected_eq := by
    rw [hrest.rejected_eq, h.rejected_eq, List.countP_singleton, List.countP_cons]
    omega
  features_eq := by
    rw [hrest.features_eq, h.features_eq, List.zipWith_cons_cons, List.zipWith_cons_cons,
      List.zipWith_nil_left, List.sum_cons, List.sum_cons, List.sum_nil]
    omega
  mismatches_le := by
    have hfirst := h.mismatches_le
    have hothers := hrest.mismatches_le
    omega

/-- The summary of a check with one call for each line. -/
structure Accounts (summary : Summary) (lines : List String) (calls : List ScorerCall) : Prop where
  lines_eq : summary.lines = lines.length
  calls_eq : summary.lines = calls.length
  rejected_eq : summary.rejected = calls.countP fun call => call.reply.isNone
  features_eq : summary.features = (List.zipWith ScorerCall.compared calls lines).sum
  mismatches_le : summary.mismatches ≤ summary.features

/-- A summary that grew from nothing accounts for its lines. -/
theorem Grown.accounts {summary : Summary} {lines : List String} {calls : List ScorerCall}
    (h : empty.Grown summary lines calls) (hlength : lines.length = calls.length) :
    summary.Accounts lines calls where
  lines_eq := by rw [h.lines_eq, hlength, empty, Nat.zero_add]
  calls_eq := by rw [h.lines_eq, empty, Nat.zero_add]
  rejected_eq := by rw [h.rejected_eq, empty, Nat.zero_add]
  features_eq := by rw [h.features_eq, empty, Nat.zero_add]
  mismatches_le := by simpa [empty] using h.mismatches_le

end Summary

/-! ## Checking lines -/

/-- The scorer was called for the phrase pair of a line, numbered by the index. -/
def CallFor (vocabulary : Vocabulary) (index : PhraseIndex) (line : String) (call : ScorerCall) :
    Prop :=
  ∃ found : ReferenceLine, ReferenceLine.ofLine vocabulary.symbolOf line = .ok found ∧
    call.pair = found.pair.withIds (index.idsOf found.pair)

namespace CheckState

variable {σ : Type}

/-- These calls were made for these lines, one for each. -/
structure Checked (before after : CheckState (σ × List ScorerCall)) (lines : List String)
    (calls : List ScorerCall) : Prop where
  vocabulary_extends : after.vocabulary.Extends before.vocabulary
  index_extends : after.index.Extends before.index
  scorer_eq : after.scorer.2 = before.scorer.2 ++ calls
  calls_for : ∀ (vocabulary : Vocabulary) (index : PhraseIndex),
    vocabulary.Extends after.vocabulary → index.Extends after.index →
      List.Forall₂ (CallFor vocabulary index) lines calls
  summary_grown : before.summary.Grown after.summary lines calls

/-- Without lines nothing is checked. -/
theorem Checked.refl (state : CheckState (σ × List ScorerCall)) : state.Checked state [] [] where
  vocabulary_extends := .refl _
  index_extends := .refl _
  scorer_eq := (List.append_nil _).symm
  calls_for := fun _ _ _ _ => .nil
  summary_grown := .refl _

/-- One line that is checked, and then others, are all of them checked. -/
theorem Checked.cons {before middle after : CheckState (σ × List ScorerCall)} {line : String}
    {lines : List String} {call : ScorerCall} {calls : List ScorerCall}
    (h : before.Checked middle [line] [call]) (hrest : middle.Checked after lines calls) :
    before.Checked after (line :: lines) (call :: calls) where
  vocabulary_extends := hrest.vocabulary_extends.trans h.vocabulary_extends
  index_extends := hrest.index_extends.trans h.index_extends
  scorer_eq := by
    rw [hrest.scorer_eq, h.scorer_eq, List.append_assoc]
    rfl
  calls_for := by
    intro vocabulary index hvocabulary hindex
    have hfirst := h.calls_for vocabulary index (hvocabulary.trans hrest.vocabulary_extends)
      (hindex.trans hrest.index_extends)
    exact .cons (List.forall₂_cons.1 hfirst).1
      (hrest.calls_for vocabulary index hvocabulary hindex)
  summary_grown := h.summary_grown.cons hrest.summary_grown

/-- One phrase pair: the scorer is called once, and its answer decides what is counted. -/
theorem value_checkPair (scorer : Scorer σ) (debugLevel : Int) (state : CheckState σ)
    {line : String} {found : ReferenceLine}
    (hlength : found.values.length = (Text.tokens ((Text.fields line).getD 4 "")).length) :
    ∃ summary : Summary,
      state.summary.Grown summary [line]
        [⟨(state.index.insert found.pair).2,
          (scorer state.scorer (state.index.insert found.pair).2).2.value⟩] ∧
      (checkPair scorer debugLevel state found).value =
        { state with
          index := (state.index.insert found.pair).1
          scorer := (scorer state.scorer (state.index.insert found.pair).2).1
          summary } := by
  obtain ⟨vocabulary, index, start, summary⟩ := state
  unfold checkPair
  dsimp only
  generalize index.insert found.pair = numbered
  obtain ⟨index', pair⟩ := numbered
  generalize scorer start pair = answer
  obtain ⟨start', reply, log⟩ := answer
  cases reply with
  | none =>
    refine ⟨{ summary with lines := summary.lines + 1, rejected := summary.rejected + 1 }, ?_, rfl⟩
    exact ⟨rfl, rfl, rfl, Nat.le_refl _⟩
  | some scores =>
    have hcompared := Summary.comparedMore_compareFrom debugLevel found pair scores
      { summary with lines := summary.lines + 1 } 0 found.values
    rw [hlength] at hcompared
    exact ⟨_, Summary.ComparedMore.grown rfl hcompared, rfl⟩

/-- A line that was read is checked by one call. -/
theorem checked_checkPair (scorer : Scorer σ) (debugLevel : Int)
    (state : CheckState (σ × List ScorerCall)) {vocabulary : Vocabulary} {line : String}
    {found : ReferenceLine} (hvocabulary : vocabulary.Extends state.vocabulary)
    (hfound : ∀ larger : Vocabulary, larger.Extends vocabulary →
      ReferenceLine.ofLine larger.symbolOf line = .ok found) :
    ∃ call : ScorerCall, state.Checked
      (checkPair scorer.traced debugLevel { state with vocabulary } found).value [line] [call] := by
  obtain ⟨summary, hsummary, hvalue⟩ :=
    value_checkPair scorer.traced debugLevel { state with vocabulary }
      (ReferenceLine.length_values_of_ofLine (hfound vocabulary (.refl _)))
  rw [hvalue]
  refine ⟨_, hvocabulary, PhraseIndex.extends_insert _ _, rfl, ?_, hsummary⟩
  intro larger index hlarger hindex
  refine .cons ⟨found, hfound larger hlarger, ?_⟩ .nil
  rw [PhraseIndex.snd_insert, hindex.idsOf (PhraseIndex.has_insert _ _)]

section Steps

variable (scorer : Scorer σ) (debugLevel : Int) (state : CheckState σ) (lineNumber : Nat)
  (rest : List String) {vocabulary : Vocabulary} {line : String}

/-- An empty line is passed over, but counted among the line numbers. -/
theorem checkLines_of_isEmpty (h : line.isEmpty) :
    checkLines scorer debugLevel state lineNumber (line :: rest) =
      checkLines scorer debugLevel state (lineNumber + 1) rest := by
  rw [checkLines, if_pos h]

/-- A line that cannot be read ends the check. Its words stay stored. -/
theorem checkLines_of_error {fault : ReferenceFault} (h : ¬line.isEmpty)
    (hread : ReferenceLine.read state.vocabulary line = (vocabulary, .error fault)) :
    checkLines scorer debugLevel state lineNumber (line :: rest) =
      pure ({ state with vocabulary }, .error ⟨fault, line, lineNumber⟩) := by
  rw [checkLines, if_neg h, hread]

/-- A line that was read is checked in front of the others. -/
theorem checkLines_of_ok {found : ReferenceLine} (h : ¬line.isEmpty)
    (hread : ReferenceLine.read state.vocabulary line = (vocabulary, .ok found)) :
    checkLines scorer debugLevel state lineNumber (line :: rest) =
      (checkPair scorer debugLevel { state with vocabulary } found >>= fun after =>
        checkLines scorer debugLevel after (lineNumber + 1) rest) := by
  rw [checkLines, if_neg h, hread]

end Steps

/-- Lines are checked after others with what these have left behind, unless they end the check. -/
theorem checkLines_append (scorer : Scorer σ) (debugLevel : Int) (state : CheckState σ)
    (lineNumber : Nat) (front back : List String) :
    checkLines scorer debugLevel state lineNumber (front ++ back) =
      (checkLines scorer debugLevel state lineNumber front >>= fun after =>
        match after.2 with
        | .error error => pure (after.1, .error error)
        | .ok _ => checkLines scorer debugLevel after.1 (lineNumber + front.length) back) := by
  induction front generalizing state lineNumber with
  | nil => rfl
  | cons line rest ih =>
    have hcount : lineNumber + (line :: rest).length = lineNumber + 1 + rest.length := by
      rw [List.length_cons]
      omega
    rw [hcount, List.cons_append]
    by_cases hempty : line.isEmpty
    · rw [checkLines_of_isEmpty _ _ _ _ _ hempty, checkLines_of_isEmpty _ _ _ _ _ hempty, ih]
    · cases hread : ReferenceLine.read state.vocabulary line with
      | mk vocabulary outcome =>
      cases outcome with
      | error fault =>
        rw [checkLines_of_error _ _ _ _ _ hempty hread, checkLines_of_error _ _ _ _ _ hempty hread]
        rfl
      | ok found =>
        rw [checkLines_of_ok _ _ _ _ _ hempty hread, checkLines_of_ok _ _ _ _ _ hempty hread,
          bind_assoc]
        exact bind_congr fun after => ih after (lineNumber + 1)

/-- All lines up to a place are checked, none of them malformed. -/
theorem checked_checkLines (scorer : Scorer σ) (debugLevel : Int) {lines : List String}
    (h : ∀ line ∈ Run.phraseLines lines, ¬ReferenceLine.Malformed line)
    (state : CheckState (σ × List ScorerCall)) (lineNumber : Nat) (back : List String) :
    ∃ (after : CheckState (σ × List ScorerCall)) (calls : List ScorerCall),
      state.Checked after (Run.phraseLines lines) calls ∧
      (checkLines scorer.traced debugLevel state lineNumber (lines ++ back)).value =
        (checkLines scorer.traced debugLevel after (lineNumber + lines.length) back).value := by
  induction lines generalizing state lineNumber with
  | nil => exact ⟨state, [], .refl state, rfl⟩
  | cons line rest ih =>
    rw [List.cons_append, List.length_cons, Nat.add_comm rest.length 1, ← Nat.add_assoc]
    by_cases hline : line.isEmpty
    · have hlines := Run.phraseLines_cons_of_isEmpty hline rest
      rw [hlines] at h ⊢
      rw [checkLines_of_isEmpty scorer.traced debugLevel state lineNumber (rest ++ back) hline]
      exact ih h state (lineNumber + 1)
    · have hlines := Run.phraseLines_cons_of_not_isEmpty hline rest
      rw [hlines, List.forall_mem_cons] at h
      obtain ⟨found, hread, hfound⟩ := ReferenceLine.exists_read h.1 state.vocabulary
      obtain ⟨call, hcall⟩ := checked_checkPair scorer debugLevel state
        (ReferenceLine.extends_read state.vocabulary line) hfound
      obtain ⟨after, calls, hcalls, hrest⟩ := ih h.2
        (checkPair scorer.traced debugLevel
          { state with vocabulary := (ReferenceLine.read state.vocabulary line).1 } found).value
        (lineNumber + 1)
      refine ⟨after, call :: calls, hlines ▸ hcall.cons hcalls, ?_⟩
      rw [checkLines_of_ok scorer.traced debugLevel state lineNumber (rest ++ back) hline hread,
        Logged.value_bind]
      exact hrest

end CheckState

/-! ## Whole texts and files -/

/-- Whether a check of a file was done, and what stands in the place of a summary afterwards. -/
def Summary.replacedBy (held : Summary) (found : Option Summary) : Bool × Summary :=
  (found.isSome, found.getD held)

section Outcome

variable {σ : Type} (scorer : Scorer σ) (debugLevel : Int) (vocabulary : Vocabulary)
  (index : PhraseIndex) (start : σ)

/-- A text without malformed lines is checked to its end, with one call for each line. -/
theorem checkText_of_formed {text : String}
    (h : ∀ line ∈ Run.phraseLines (Text.lines text), ¬ReferenceLine.Malformed line) :
    ∃ after : CheckState (σ × List ScorerCall),
      (checkText scorer.traced debugLevel vocabulary index (start, []) text).value =
        (after, .ok after.summary) ∧
      List.Forall₂ (CallFor after.vocabulary after.index) (Run.phraseLines (Text.lines text))
        after.scorer.2 ∧
      after.summary.Accounts (Run.phraseLines (Text.lines text)) after.scorer.2 := by
  obtain ⟨after, calls, hchecked, hvalue⟩ := CheckState.checked_checkLines scorer debugLevel h
    ⟨vocabulary, index, (start, []), .empty⟩ 1 []
  have hcalls := hchecked.calls_for after.vocabulary after.index (.refl _) (.refl _)
  obtain rfl : after.scorer.2 = calls := hchecked.scorer_eq
  rw [List.append_nil] at hvalue
  exact ⟨after, hvalue, hcalls, hchecked.summary_grown.accounts hcalls.length_eq⟩

/-- A text is checked up to its first malformed line, which is named with its number. -/
theorem checkText_of_malformed {text line : String} {front back : List String}
    (hlines : Text.lines text = front ++ line :: back) (hline : ¬line.isEmpty)
    (hmalformed : ReferenceLine.Malformed line)
    (hfront : ∀ earlier ∈ Run.phraseLines front, ¬ReferenceLine.Malformed earlier) :
    ∃ (after : CheckState (σ × List ScorerCall)) (fault : ReferenceFault),
      (checkText scorer.traced debugLevel vocabulary index (start, []) text).value =
        (after, .error ⟨fault, line, front.length + 1⟩) ∧
      List.Forall₂ (CallFor after.vocabulary after.index) (Run.phraseLines front)
        after.scorer.2 ∧
      (ReferenceLine.read after.vocabulary line).2 = .error fault := by
  obtain ⟨before, calls, hchecked, hvalue⟩ := CheckState.checked_checkLines scorer debugLevel
    hfront ⟨vocabulary, index, (start, []), .empty⟩ 1 (line :: back)
  have hcalls := hchecked.calls_for
  obtain rfl : before.scorer.2 = calls := hchecked.scorer_eq
  obtain ⟨fault, hread⟩ := ReferenceLine.exists_read_of_malformed hmalformed before.vocabulary
  have hextends := ReferenceLine.extends_read before.vocabulary line
  -- the words of the malformed line are known by now, so it is told the same way again
  have hagain := ReferenceLine.read_again hread (.refl _)
  rw [← hlines, CheckState.checkLines_of_error _ debugLevel _ _ back hline hread,
    Nat.add_comm] at hvalue
  exact ⟨_, fault, hvalue, hcalls _ _ hextends (.refl _), by rw [hagain]⟩

/-- The check of a file gives the summary of its text, or none when this is malformed. -/
theorem snd_checkEntry_text (name content : String) :
    (checkEntry scorer debugLevel vocabulary index start name (some (.text content))).value.2 =
      (checkText scorer debugLevel vocabulary index start content).value.2.toOption := by
  unfold checkEntry
  rw [Logged.value_bind]
  cases (checkText scorer debugLevel vocabulary index start content).value with
  | mk after outcome => cases outcome <;> rfl

/-- **What a check comes to, with any scorer.** If no line is malformed, there is a summary: the
scorer was called once for every line that is not empty, and its calls decide what is counted.
Otherwise the check fails at the first malformed line, with its number, after one call for each line
before it that is not empty. A file gives no other outcome, and a summary that was held stays unless
the check of its text gives one. Noting the calls changes nothing. -/
theorem checkText_outcome (text : String) :
    Prod.map CheckState.untraced id <$>
        checkText scorer.traced debugLevel vocabulary index (start, []) text =
      checkText scorer debugLevel vocabulary index start text ∧
    (∃ (after : CheckState (σ × List ScorerCall)) (outcome : Except ReferenceError Summary),
      (checkText scorer.traced debugLevel vocabulary index (start, []) text).value =
        (after, outcome) ∧
      (((∀ line ∈ Run.phraseLines (Text.lines text), ¬ReferenceLine.Malformed line) ∧
          List.Forall₂ (CallFor after.vocabulary after.index) (Run.phraseLines (Text.lines text))
            after.scorer.2 ∧
          ∃ summary : Summary, outcome = .ok summary ∧
            summary.Accounts (Run.phraseLines (Text.lines text)) after.scorer.2) ∨
        ∃ (front : List String) (line : String) (back : List String) (fault : ReferenceFault),
          Text.lines text = front ++ line :: back ∧ ¬line.isEmpty ∧
          ReferenceLine.Malformed line ∧
          (∀ earlier ∈ Run.phraseLines front, ¬ReferenceLine.Malformed earlier) ∧
          List.Forall₂ (CallFor after.vocabulary after.index) (Run.phraseLines front)
            after.scorer.2 ∧
          (ReferenceLine.read after.vocabulary line).2 = .error fault ∧
          outcome = .error ⟨fault, line, front.length + 1⟩)) ∧
    ∀ (name : String) (entry : Option FileEntry) (held : Summary),
      (∃ (content : String) (summary : Summary), entry = some (.text content) ∧
        (checkText scorer debugLevel vocabulary index start content).value.2 = .ok summary ∧
        held.replacedBy (checkEntry scorer debugLevel vocabulary index start name entry).value.2 =
          (true, summary)) ∨
      ((∀ content : String, entry = some (.text content) → ∃ error : ReferenceError,
          (checkText scorer debugLevel vocabulary index start content).value.2 = .error error) ∧
        held.replacedBy (checkEntry scorer debugLevel vocabulary index start name entry).value.2 =
          (false, held)) := by
  refine ⟨CheckState.untraced_checkLines scorer debugLevel _ 1 _, ?_, ?_⟩
  · obtain hformed | ⟨front, line, back, hlines, hline, hmalformed, hfront⟩ :=
      ReferenceLine.exists_first_malformed (Text.lines text)
    · obtain ⟨after, hvalue, hcalls, haccounts⟩ :=
        checkText_of_formed scorer debugLevel vocabulary index start hformed
      exact ⟨after, _, hvalue, Or.inl ⟨hformed, hcalls, after.summary, rfl, haccounts⟩⟩
    · obtain ⟨after, fault, hvalue, hcalls, hread⟩ :=
        checkText_of_malformed scorer debugLevel vocabulary index start hlines hline hmalformed
          hfront
      exact ⟨after, _, hvalue, Or.inr ⟨front, line, back, fault, hlines, hline, hmalformed, hfront,
        hcalls, hread, rfl⟩⟩
  · intro name entry held
    match entry with
    | none | some .locked | some .directory => exact Or.inr ⟨nofun, rfl⟩
    | some (.text content) =>
      rw [snd_checkEntry_text]
      cases hcheck : (checkText scorer debugLevel vocabulary index start content).value.2 with
      | ok summary => exact Or.inl ⟨content, summary, rfl, hcheck, rfl⟩
      | error error =>
        refine Or.inr ⟨?_, rfl⟩
        rintro _ ⟨⟩
        exact ⟨error, hcheck⟩

end Outcome

/-- Empty lines have numbers, but no calls. -/
example :
    (checkText (fun calls pair => (calls ++ [pair.text], pure none)) 0 .empty .empty []
        "a ||| b ||| 0-0 ||| ||| 1\n\na ||| b ||| 0-0 ||| 1\n").value.1.scorer =
      ["a ||| b ||| 0-0"] ∧
    (checkText (fun calls pair => (calls ++ [pair.text], pure none)) 0 .empty .empty []
        "a ||| b ||| 0-0 ||| ||| 1\n\na ||| b ||| 0-0 ||| 1\n").value.2 =
      .error ⟨.wrongFieldCount 4, "a ||| b ||| 0-0 ||| 1", 3⟩ := by
  decide +kernel

end PhraseTable
