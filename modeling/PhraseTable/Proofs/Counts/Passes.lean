import PhraseTable.Proofs.Counts.Operations

/-!
# What is counted on which pass

Passes may be begun in any order and again, and an attempt to begin one that does not exist fails.
`value_perform` says all that one operation does to counts. From it follows what a run has counted:
the phrases of `finalPairs`, which were handed over while the final pass was under way, and the
words of all operations, whatever the passes were. `performAll_passes` puts this together, for pairs
whose numbers can be counted in 32 bits.
-/

set_option autoImplicit false

namespace PhraseTable

/-! ## Histories -/

namespace CountOp

/-- The phrase pairs that an operation hands over. -/
def phrasePairs : CountOp → List PhrasePair
  | .countPhrase pair => [pair]
  | .countPhrases pairs => pairs
  | _ => []

/-- Does the operation count words? -/
def countsWords : CountOp → Bool
  | .addWordPair .. => true
  | .countSentence _ => true
  | .countSentences _ => true
  | _ => false

/-- The pass that is under way after an operation. Only a pass that exists is begun. -/
def passAfter (config : Config) (pass : Nat) : CountOp → Nat
  | .startPass next => if 0 ≤ next ∧ next < config.passes then next.toNat else pass
  | _ => pass

/-- An operation that counts no words hands over no word pairs. -/
theorem wordPairs_of_not_countsWords {op : CountOp} (h : ¬op.countsWords) : op.wordPairs = [] := by
  cases op with
  | startPass pass => rfl
  | addWordPair source target => exact absurd rfl h
  | countSentence sentence => exact absurd rfl h
  | countSentences sentences => exact absurd rfl h
  | countPhrase pair => rfl
  | countPhrases pairs => rfl

/-- Operations that count no words may be left out where word pairs are counted. -/
theorem flatMap_wordPairs_filter (ops : List CountOp) :
    (ops.filter countsWords).flatMap wordPairs = ops.flatMap wordPairs := by
  induction ops with
  | nil => rfl
  | cons op rest ih =>
    by_cases hop : op.countsWords
    · rw [List.filter_cons_of_pos hop, List.flatMap_cons, List.flatMap_cons, ih]
    · rw [List.filter_cons_of_neg hop, List.flatMap_cons, wordPairs_of_not_countsWords hop, ih,
        List.nil_append]

/-- No operation leads behind the final pass. -/
theorem passAfter_lt {config : Config} {pass : Nat} (h : pass < config.passes) (op : CountOp) :
    op.passAfter config pass < config.passes := by
  cases op with
  | startPass next =>
    dsimp only [passAfter]
    split <;> omega
  | addWordPair source target => exact h
  | countSentence sentence => exact h
  | countSentences sentences => exact h
  | countPhrase pair => exact h
  | countPhrases pairs => exact h

end CountOp

/-- The phrase pairs that operations hand over while the final pass is under way, where the first of
the operations finds the given pass. -/
def finalPairs (config : Config) (pass : Nat) : List CountOp → List PhrasePair
  | [] => []
  | op :: rest =>
    (if pass + 1 = config.passes then op.phrasePairs else []) ++
      finalPairs config (op.passAfter config pass) rest

/-! ## Counts by number -/

/-- The vector holds how often each number occurs, and reaches up to the largest of them. Negative
numbers are passed over. -/
structure CountVector.CountsEach (vector : CountVector) (ids : List Int) : Prop where
  get_eq : ∀ id : Int, 0 ≤ id → vector.get id = ids.count id
  get_neg : ∀ id : Int, id < 0 → vector.get id = 0
  size_eq : ((∀ id ∈ ids, id < 0) ∧ vector.size = 0) ∨
    ∃ top ∈ ids, 0 ≤ top ∧ (∀ id ∈ ids, id ≤ top) ∧ (vector.size : Int) = top + 1

/-- A vector that is incremented once for each number counts the numbers. -/
theorem CountVector.countsEach_incrementAll (ids : List Int) :
    (empty.incrementAll (ids.map fun id => (id, 1))).CountsEach ids where
  get_eq id hid := by
    obtain ⟨n, rfl⟩ := Int.eq_ofNat_of_zero_le hid
    rw [get_incrementAll_ones, get_empty, Int.zero_add]
    rfl
  get_neg id hid := if_pos hid
  size_eq := by
    have hsize := size_incrementAll (ids.map fun id => (id, 1))
    simpa using hsize

namespace PhraseCounts

/-- Phrase pairs may be counted in two parts. -/
theorem addAll_append (phrases : PhraseCounts) (first second : List PhrasePair) :
    phrases.addAll (first ++ second) = (phrases.addAll first).addAll second :=
  List.foldl_append

/-- Each of the three vectors counts the numbers in its own place. -/
structure CountsAll (phrases : PhraseCounts) (counted : List PhrasePair) : Prop where
  pairs : phrases.pairs.CountsEach (counted.map fun pair => pair.ids.pair)
  sources : phrases.sources.CountsEach (counted.map fun pair => pair.ids.source)
  targets : phrases.targets.CountsEach (counted.map fun pair => pair.ids.target)

/-- Phrase pairs that are counted one after the other are counted under their three numbers. -/
theorem countsAll_addAll (pairs : List PhrasePair) : (empty.addAll pairs).CountsAll pairs where
  pairs := by
    rw [pairs_addAll]
    exact CountVector.countsEach_incrementAll _
  sources := by
    rw [sources_addAll]
    exact CountVector.countsEach_incrementAll _
  targets := by
    rw [targets_addAll]
    exact CountVector.countsEach_incrementAll _

end PhraseCounts

/-! ## Numbers of 32 bits -/

/-- All three numbers can be counted in 32 bits. -/
structure PhraseIds.InBounds (ids : PhraseIds) : Prop where
  pair : ids.pair < CountVector.idBound
  source : ids.source < CountVector.idBound
  target : ids.target < CountVector.idBound

/-- All pairs that the operation hands over have numbers that can be counted in 32 bits. -/
def CountOp.InBounds (op : CountOp) : Prop :=
  ∀ pair ∈ op.phrasePairs, pair.ids.InBounds

/-- The numbers of slots are numbers of 32 bits. -/
structure PhraseCounts.InBounds (phrases : PhraseCounts) : Prop where
  pairs : (phrases.pairs.size : Int) ≤ CountVector.idBound
  sources : (phrases.sources.size : Int) ≤ CountVector.idBound
  targets : (phrases.targets.size : Int) ≤ CountVector.idBound

/-- Only pairs that some operation hands over are counted. -/
theorem exists_of_mem_finalPairs {config : Config} {pass : Nat} {ops : List CountOp}
    {pair : PhrasePair} (h : pair ∈ finalPairs config pass ops) :
    ∃ op ∈ ops, pair ∈ op.phrasePairs := by
  induction ops generalizing pass with
  | nil => cases h
  | cons op rest ih =>
    unfold finalPairs at h
    rw [List.mem_append] at h
    rcases h with hop | hrest
    · split at hop
      · exact ⟨op, List.mem_cons_self, hop⟩
      · cases hop
    · obtain ⟨later, hlater, hpair⟩ := ih hrest
      exact ⟨later, List.mem_cons_of_mem op hlater, hpair⟩

/-- Pairs with such numbers are counted in so many slots. -/
theorem PhraseCounts.inBounds_addAll {pairs : List PhrasePair}
    (h : ∀ pair ∈ pairs, pair.ids.InBounds) : (empty.addAll pairs).InBounds where
  pairs := by
    rw [pairs_addAll]
    apply CountVector.InBounds.size_le
    simpa [CountVector.InBounds] using fun pair hpair => (h pair hpair).pair
  sources := by
    rw [sources_addAll]
    apply CountVector.InBounds.size_le
    simpa [CountVector.InBounds] using fun pair hpair => (h pair hpair).source
  targets := by
    rw [targets_addAll]
    apply CountVector.InBounds.size_le
    simpa [CountVector.InBounds] using fun pair hpair => (h pair hpair).target

/-! ## One operation, and a run of them -/

namespace Counts

/-- A pass that exists is begun. -/
theorem startPass_of_exists {counts : Counts} {pass : Int}
    (h : 0 ≤ pass ∧ pass < counts.config.passes) :
    counts.startPass pass = .ok { counts with pass := pass.toNat } :=
  if_pos h

/-- A pass that does not exist is refused, with the number of passes. -/
theorem startPass_of_not_exists {counts : Counts} {pass : Int}
    (h : ¬(0 ≤ pass ∧ pass < counts.config.passes)) :
    counts.startPass pass = .error ⟨pass, counts.config.passes⟩ :=
  if_neg h

/-- The final pass is the last one of the configuration. -/
theorem isFinalPass_iff (counts : Counts) :
    counts.isFinalPass = true ↔ counts.pass + 1 = counts.config.passes :=
  beq_iff_eq

/-- A phrase pair is answered by whether it was counted. -/
theorem snd_countPhrase (counts : Counts) (pair : PhrasePair) :
    (counts.countPhrase pair).value.2 = counts.isFinalPass := by
  unfold countPhrase
  split
  · rename_i hfinal
    exact hfinal.symm
  · rename_i hfinal
    exact (Bool.eq_false_of_not_eq_true hfinal).symm

/-- To count one pair is to count a row of one. -/
theorem perform_countPhrase (counts : Counts) (pair : PhrasePair) :
    counts.perform (.countPhrase pair) = counts.countPhrases [pair] := by
  unfold perform countPhrases
  rw [List.foldlM_cons]
  exact (bind_pure _).symm

/-- An operation begins a pass, counts words, and counts phrases on the final pass. -/
theorem value_perform (counts : Counts) (op : CountOp) :
    (counts.perform op).value =
      { counts with
        pass := op.passAfter counts.config counts.pass
        words := counts.words.addAll op.wordPairs
        phrases :=
          if counts.pass + 1 = counts.config.passes then counts.phrases.addAll op.phrasePairs
          else counts.phrases } := by
  have hkeep : (if counts.pass + 1 = counts.config.passes then counts.phrases.addAll []
      else counts.phrases) = counts.phrases := ite_self _
  have hphrases : ∀ pairs : List PhrasePair, (counts.countPhrases pairs).value =
      { counts with
        phrases :=
          if counts.pass + 1 = counts.config.passes then counts.phrases.addAll pairs
          else counts.phrases } := by
    intro pairs
    rw [value_countPhrases]
    by_cases hfinal : counts.pass + 1 = counts.config.passes
    · rw [if_pos ((isFinalPass_iff counts).2 hfinal), if_pos hfinal]
    · rw [if_neg fun h => hfinal ((isFinalPass_iff counts).1 h), if_neg hfinal]
  cases op with
  | startPass pass =>
    dsimp only [perform, CountOp.passAfter, CountOp.phrasePairs]
    rw [hkeep]
    by_cases hpass : 0 ≤ pass ∧ pass < counts.config.passes
    · rw [startPass_of_exists hpass, if_pos hpass]
      rfl
    · rw [startPass_of_not_exists hpass, if_neg hpass]
      rfl
  | addWordPair source target =>
    dsimp only [CountOp.phrasePairs]
    rw [hkeep]
    rfl
  | countSentence sentence =>
    have hpairs : (CountOp.countSentence sentence).wordPairs = sentence.wordPairs :=
      List.append_nil _
    dsimp only [CountOp.phrasePairs]
    rw [hkeep, hpairs]
    exact value_addWordPairs counts sentence.wordPairs
  | countSentences sentences =>
    dsimp only [CountOp.phrasePairs]
    rw [hkeep]
    exact value_countSentences counts sentences
  | countPhrase pair =>
    rw [perform_countPhrase, hphrases]
    rfl
  | countPhrases pairs => exact hphrases pairs

/-- The operations behind the first one find what that one has left. -/
theorem value_performAll_cons (counts : Counts) (op : CountOp) (rest : List CountOp) :
    (counts.performAll (op :: rest)).value = ((counts.perform op).value.performAll rest).value := by
  unfold performAll
  rw [List.foldlM_cons]
  rfl

/-- No operation changes the configuration. -/
theorem config_performAll (counts : Counts) (ops : List CountOp) :
    (counts.performAll ops).value.config = counts.config := by
  induction ops generalizing counts with
  | nil => rfl
  | cons op rest ih => rw [value_performAll_cons, ih, value_perform]

/-- After any operations a pass is under way that exists. -/
theorem pass_performAll_lt {counts : Counts} (h : counts.pass < counts.config.passes)
    (ops : List CountOp) : (counts.performAll ops).value.pass < counts.config.passes := by
  induction ops generalizing counts with
  | nil => exact h
  | cons op rest ih =>
    have hop := CountOp.passAfter_lt h op
    rw [value_performAll_cons]
    have hrest := @ih (counts.perform op).value
    rw [value_perform] at hrest ⊢
    exact hrest hop

/-- Operations count the phrase pairs that they hand over on the final pass. -/
theorem phrases_performAll (counts : Counts) (ops : List CountOp) :
    (counts.performAll ops).value.phrases =
      counts.phrases.addAll (finalPairs counts.config counts.pass ops) := by
  induction ops generalizing counts with
  | nil => rfl
  | cons op rest ih =>
    rw [value_performAll_cons, ih, value_perform]
    dsimp only [finalPairs]
    rw [PhraseCounts.addAll_append]
    split <;> rfl

/-- The phrase counts after a run of operations that starts from empty counts. -/
def phrasesAfter (config : Config) (ops : List CountOp) : PhraseCounts :=
  ((empty config).performAll ops).value.phrases

/-- The phrase counts at the end, told by the pairs that were counted. -/
theorem phrasesAfter_eq (config : Config) (ops : List CountOp) :
    phrasesAfter config ops = PhraseCounts.empty.addAll (finalPairs config 0 ops) :=
  phrases_performAll (empty config) ops

/-- Each vector holds the numbers of the pairs that were counted. -/
theorem countsAll_phrasesAfter (config : Config) (ops : List CountOp) :
    (phrasesAfter config ops).CountsAll (finalPairs config 0 ops) := by
  rw [phrasesAfter_eq]
  exact PhraseCounts.countsAll_addAll _

/-- **Phrases are counted on the final pass only.** The phrase pairs of a history carry numbers that
can be counted in 32 bits. After any such history the current pass exists. To begin a pass that does
not exist fails and changes nothing. Each vector of phrase counts holds, by number, the pairs that
were handed over while the final pass was under way, and a pair is reported as counted just on that
pass. The words that were counted are those of any history with the same operations on words,
whatever passes it began and whatever phrases it handed over. -/
theorem performAll_passes (config : Config) {ops : List CountOp} (h : ∀ op ∈ ops, op.InBounds) :
    let counts := ((empty config).performAll ops).value
    counts.pass < config.passes ∧
    (∀ op : CountOp, op.InBounds →
      (counts.perform op).value.pass = op.passAfter config counts.pass) ∧
    (∀ pass : Int,
      (0 ≤ pass ∧ pass < config.passes ∧
          counts.startPass pass = .ok { counts with pass := pass.toNat }) ∨
        (¬(0 ≤ pass ∧ pass < config.passes) ∧
          counts.startPass pass = .error ⟨pass, config.passes⟩ ∧
          counts.perform (.startPass pass) = pure counts)) ∧
    counts.phrases.CountsAll (finalPairs config 0 ops) ∧
    counts.phrases.InBounds ∧
    (∀ pair : PhrasePair, pair.ids.InBounds →
      ((counts.countPhrase pair).value.2 = true ↔ counts.pass + 1 = config.passes)) ∧
    ∀ (config' : Config) (ops' : List CountOp), (∀ op ∈ ops', op.InBounds) →
      ops'.filter CountOp.countsWords = ops.filter CountOp.countsWords →
        wordsAfter config' ops' = counts.words := by
  intro counts
  have hconfig : counts.config = config := config_performAll (empty config) ops
  have hstart : (empty config).pass < (empty config).config.passes := by
    show 0 < config.passes
    unfold Config.passes
    split <;> omega
  refine ⟨pass_performAll_lt hstart ops, ?_, ?_, countsAll_phrasesAfter config ops, ?_, ?_, ?_⟩
  · intro op _
    rw [value_perform, hconfig]
  · intro pass
    rw [← hconfig]
    by_cases hpass : 0 ≤ pass ∧ pass < counts.config.passes
    · exact Or.inl ⟨hpass.1, hpass.2, startPass_of_exists hpass⟩
    · refine Or.inr ⟨hpass, startPass_of_not_exists hpass, ?_⟩
      dsimp only [perform]
      rw [startPass_of_not_exists hpass]
  · have hphrases : counts.phrases = PhraseCounts.empty.addAll (finalPairs config 0 ops) :=
      phrasesAfter_eq config ops
    rw [hphrases]
    apply PhraseCounts.inBounds_addAll
    intro pair hpair
    obtain ⟨op, hop, hhanded⟩ := exists_of_mem_finalPairs hpair
    exact h op hop pair hhanded
  · intro pair _
    rw [snd_countPhrase, isFinalPass_iff, hconfig]
  · intro config' ops' _ hops
    have hwords : ∀ (config : Config) (ops : List CountOp), wordsAfter config ops =
        WordCounts.empty.addAll ((ops.filter CountOp.countsWords).flatMap CountOp.wordPairs) := by
      intro config ops
      rw [CountOp.flatMap_wordPairs_filter]
      exact words_performAll (empty config) ops
    rw [hwords, hops]
    exact (hwords config ops).symm

/-- A pair with the numbers two, none and one is handed over on the first pass, which is not the
final one, then on the final pass, and then once more after an attempt to begin a third pass. -/
def passedTwice : List CountOp :=
  [ .countPhrase (PhrasePair.empty.withIds ⟨2, -1, 1⟩), .startPass 1
  , .countPhrases [PhrasePair.empty.withIds ⟨2, -1, 1⟩], .startPass 2
  , .countPhrase (PhrasePair.empty.withIds ⟨2, -1, 1⟩) ]

/-- The pair is counted on the final pass alone, twice, and not at all among the source phrases,
where its number is negative. The third pass is refused. -/
theorem performAll_passes_twice :
    (∀ op ∈ passedTwice, op.InBounds) ∧
      (phrasesAfter { exact := true } passedTwice).pairs.get 2 = 2 ∧
      (phrasesAfter { exact := true } passedTwice).sources.get (-1) = 0 ∧
      ((empty { exact := true }).performAll passedTwice).value.startPass 2 = .error ⟨2, 2⟩ := by
  have hbounds : ∀ op ∈ passedTwice, op.InBounds := by
    intro op hop pair hpair
    have hids : ∀ op ∈ passedTwice, ∀ pair ∈ op.phrasePairs, pair.ids = ⟨2, -1, 1⟩ := by
      simp [passedTwice, CountOp.phrasePairs, PhrasePair.withIds]
    rw [hids op hop pair hpair]
    exact ⟨by decide, by decide, by decide⟩
  obtain ⟨-, -, hstart, hcounts, -, -, -⟩ := performAll_passes { exact := true } hbounds
  refine ⟨hbounds, hcounts.pairs.get_eq 2 (by decide), hcounts.sources.get_neg (-1) (by decide), ?_⟩
  obtain ⟨-, hlt, -⟩ | ⟨-, herror, -⟩ := hstart 2
  · exact absurd hlt (by decide)
  · exact herror

end Counts

end PhraseTable
