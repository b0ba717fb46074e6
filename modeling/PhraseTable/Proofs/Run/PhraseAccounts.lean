import PhraseTable.Proofs.Number.Double
import PhraseTable.Proofs.PhraseIndex
import PhraseTable.Proofs.PhraseReader
import PhraseTable.Proofs.Run.Program

/-!
# The phrase counts of a run

After the last pass a phrase pair carries the numbers that it has in the index
(`numbered_finalState`), and it was counted once under each of them. Numbers tell phrases apart by
their symbols, so a count is the number of lines with the same symbols: `PhraseAccounts` says so of
the joint counts and of both marginals, and that the joint counts of a phrase add up to its
marginal. No pair that is scored is ever found uncounted (`judge_ne_uncounted`), and its relative
frequencies are above zero and at most one (`phi_mem`).
-/

set_option autoImplicit false

namespace PhraseTable

/-! ## Counting by number -/

section Keys

variable {α κ : Type} [DecidableEq κ]

/-- Where a number stands for a key, the count of the number is the number of times that the key
occurs. -/
theorem get_incrementAll_keys {index : DenseIndex κ} {key : α → κ} {id : α → Int} {xs : List α}
    (hkey : ∀ x ∈ xs, key x ∈ index.toList)
    (hid : ∀ x ∈ xs, id x = idOrUnassigned (index.find? (key x))) {x : α} (hx : x ∈ xs) :
    (CountVector.empty.incrementAll ((xs.map id).map fun id => (id, 1))).get (id x) =
      xs.countP fun y => key y = key x := by
  obtain ⟨n, -, hn⟩ := DenseIndex.exists_find? (hkey x hx)
  have hidx : id x = n := (hid x hx).trans (idOrUnassigned_of_find? hn)
  have hcount : (xs.map id).countP (· = (n : Int)) = xs.countP fun y => key y = key x := by
    rw [List.countP_map]
    apply List.countP_congr
    intro y hy
    have hsame := idOrUnassigned_eq_iff (hkey y hy) (hkey x hx)
    rw [← hid y hy, ← hid x hx, hidx] at hsame
    simp [hsame]
  rw [hidx, CountVector.get_incrementAll_ones, CountVector.get_empty, Int.zero_add, hcount]

/-- The occurrences of the different keys with a property add up to the members that have it. -/
theorem sum_countP_firstsBy (key : α → κ) (p : κ → Bool) (xs : List α) :
    (((firstsBy key [] xs).filter fun x => p (key x)).map fun x =>
      xs.countP fun y => key y = key x).sum = xs.countP fun x => p (key x) := by
  -- `dedup` keeps the last occurrence of a key, so its order is another one
  have hperm : ((firstsBy key [] xs).map key).Perm (xs.map key).dedup := by
    apply (List.perm_ext_iff_of_nodup (nodup_map_firstsBy key [] xs) (List.nodup_dedup _)).2
    intro k
    rw [mem_map_firstsBy, List.mem_dedup]
    simp
  have hcount : ∀ k : κ, (xs.countP fun y => key y = k) = (xs.map key).count k := by
    intro k
    rw [List.count, List.countP_map]
    rfl
  calc (((firstsBy key [] xs).filter fun x => p (key x)).map fun x =>
        xs.countP fun y => key y = key x).sum
      = ((((firstsBy key [] xs).map key).filter p).map fun k => (xs.map key).count k).sum := by
        rw [List.filter_map, List.map_map]
        simp only [hcount]
        rfl
    _ = (((xs.map key).dedup.filter p).map fun k => (xs.map key).count k).sum :=
        ((hperm.filter p).map _).sum_eq
    _ = (xs.map key).countP p := List.sum_map_count_dedup_filter_eq_countP p _
    _ = xs.countP fun x => p (key x) := by
        rw [List.countP_map]
        rfl

end Keys

namespace Run

/-! ## Numbered pairs -/

namespace PassState

/-- All pairs carry the numbers that they have in the index. -/
structure Numbered (state : PassState) : Prop where
  has : ∀ pair ∈ state.pairs, state.index.Has pair
  ids_eq : ∀ pair ∈ state.pairs, pair.ids = state.index.idsOf pair
  /-- The index has no pairs but these. -/
  keys_subset : ∀ key ∈ state.index.pairs.toList, key ∈ state.pairs.map fun pair => pair.pairKey

/-- The separator is no source symbol of any pair. -/
def Separated (state : PassState) : Prop :=
  ∀ pair ∈ state.pairs, pairSeparator ∉ pair.source

/-- The number of times that the pair was counted. -/
def jointCount (state : PassState) (pair : PhrasePair) : Int :=
  state.counts.phrases.pairs.get pair.ids.pair

/-- The number of times that the source phrase of the pair was counted. -/
def sourceCount (state : PassState) (pair : PhrasePair) : Int :=
  state.counts.phrases.sources.get pair.ids.source

/-- The number of times that the target phrase of the pair was counted. -/
def targetCount (state : PassState) (pair : PhrasePair) : Int :=
  state.counts.phrases.targets.get pair.ids.target

/-- The counts of a pair as its features read them. -/
def occurrences (state : PassState) (pair : PhrasePair) : Occurrences where
  pair := Float.ofInt (state.jointCount pair)
  source := Float.ofInt (state.sourceCount pair)
  target := Float.ofInt (state.targetCount pair)

/-- The different pairs, each where it occurs first. -/
def distinct (state : PassState) : List PhrasePair :=
  firstsBy (fun pair => pair.symbols) [] state.pairs

/-- The accounts of the phrase counts. Counts are occurrences in the phrase file, and the joint
counts of a phrase add up to its own count. -/
structure PhraseAccounts (state : PassState) : Prop where
  joint_eq : ∀ pair ∈ state.pairs,
    state.jointCount pair = state.pairs.countP fun other => other.symbols = pair.symbols
  source_eq : ∀ pair ∈ state.pairs,
    state.sourceCount pair = state.pairs.countP fun other => other.source = pair.source
  target_eq : ∀ pair ∈ state.pairs,
    state.targetCount pair = state.pairs.countP fun other => other.target = pair.target
  sum_source : ∀ pair ∈ state.pairs,
    ((state.distinct.filter fun other => other.source = pair.source).map
      state.jointCount).sum = state.sourceCount pair
  sum_target : ∀ pair ∈ state.pairs,
    ((state.distinct.filter fun other => other.target = pair.target).map
      state.jointCount).sum = state.targetCount pair
  one_le : ∀ pair ∈ state.pairs, 1 ≤ state.jointCount pair
  le_source : ∀ pair ∈ state.pairs, state.jointCount pair ≤ state.sourceCount pair
  le_target : ∀ pair ∈ state.pairs, state.jointCount pair ≤ state.targetCount pair

variable {state : PassState}

/-- A numbered pair has three naturals as its numbers. -/
theorem Numbered.exists_ids (h : state.Numbered) {pair : PhrasePair} (hpair : pair ∈ state.pairs) :
    ∃ i j k : Nat, pair.ids = ⟨i, j, k⟩ := by
  have hhas := h.has pair hpair
  obtain ⟨i, -, hi⟩ := DenseIndex.exists_find? hhas.key_mem
  obtain ⟨j, -, hj⟩ := DenseIndex.exists_find? hhas.source_mem
  obtain ⟨k, -, hk⟩ := DenseIndex.exists_find? hhas.target_mem
  refine ⟨i, j, k, ?_⟩
  rw [h.ids_eq pair hpair]
  unfold PhraseIndex.idsOf
  rw [hi, hj, hk]
  rfl

/-- The joint count of a pair is the number of pairs with its key. -/
theorem Numbered.jointCount_eq_keys (h : state.Numbered)
    (hcounts : state.counts.phrases = PhraseCounts.empty.addAll state.pairs) {pair : PhrasePair}
    (hpair : pair ∈ state.pairs) :
    state.jointCount pair = state.pairs.countP fun other => other.pairKey = pair.pairKey := by
  unfold jointCount
  rw [hcounts, PhraseCounts.pairs_addAll]
  apply get_incrementAll_keys (fun other hother => (h.has other hother).key_mem) _ hpair
  intro other hother
  rw [h.ids_eq other hother]
  rfl

/-- Where keys tell symbols apart, it is the number of pairs with its symbols. -/
theorem Numbered.jointCount_eq (h : state.Numbered) (hsep : state.Separated)
    (hcounts : state.counts.phrases = PhraseCounts.empty.addAll state.pairs) {pair : PhrasePair}
    (hpair : pair ∈ state.pairs) :
    state.jointCount pair = state.pairs.countP fun other => other.symbols = pair.symbols := by
  rw [h.jointCount_eq_keys hcounts hpair, Int.ofNat_inj]
  apply List.countP_congr
  intro other hother
  simp [AlignedPair.pairKey_eq_iff (hsep other hother) (hsep pair hpair)]

/-- The count of a source phrase is the number of pairs that have it. -/
theorem Numbered.sourceCount_eq (h : state.Numbered)
    (hcounts : state.counts.phrases = PhraseCounts.empty.addAll state.pairs) {pair : PhrasePair}
    (hpair : pair ∈ state.pairs) :
    state.sourceCount pair = state.pairs.countP fun other => other.source = pair.source := by
  unfold sourceCount
  rw [hcounts, PhraseCounts.sources_addAll]
  apply get_incrementAll_keys (fun other hother => (h.has other hother).source_mem) _ hpair
  intro other hother
  rw [h.ids_eq other hother]
  rfl

/-- The count of a target phrase is the number of pairs that have it. -/
theorem Numbered.targetCount_eq (h : state.Numbered)
    (hcounts : state.counts.phrases = PhraseCounts.empty.addAll state.pairs) {pair : PhrasePair}
    (hpair : pair ∈ state.pairs) :
    state.targetCount pair = state.pairs.countP fun other => other.target = pair.target := by
  unfold targetCount
  rw [hcounts, PhraseCounts.targets_addAll]
  apply get_incrementAll_keys (fun other hother => (h.has other hother).target_mem) _ hpair
  intro other hother
  rw [h.ids_eq other hother]
  rfl

/-- All three counts of a pair are found. -/
theorem Numbered.occurrences?_eq (h : state.Numbered)
    (hcounts : state.counts.phrases = PhraseCounts.empty.addAll state.pairs) {pair : PhrasePair}
    (hpair : pair ∈ state.pairs) :
    state.counts.phrases.occurrences? pair.ids = some (state.occurrences pair) := by
  have hfound : ∀ (vector : CountVector) (id : Nat) (p : PhrasePair → Bool), p pair = true →
      vector.get id = state.pairs.countP p →
      PhraseCounts.positive? vector id = some (Float.ofInt (vector.get id)) := by
    intro vector id p hp hcount
    have hpos : 0 < state.pairs.countP p := List.countP_pos_iff.2 ⟨pair, hpair, hp⟩
    have hne : vector.get id ≠ 0 := by omega
    exact if_pos ⟨CountVector.contains_of_get_ne_zero hne, hne⟩
  obtain ⟨i, j, k, hids⟩ := h.exists_ids hpair
  have hjoint := h.jointCount_eq_keys hcounts hpair
  have hsource := h.sourceCount_eq hcounts hpair
  have htarget := h.targetCount_eq hcounts hpair
  unfold occurrences
  unfold jointCount sourceCount targetCount at *
  rw [hids] at *
  unfold PhraseCounts.occurrences?
  rw [hfound _ i _ (decide_eq_true rfl) hjoint, hfound _ j _ (decide_eq_true rfl) hsource,
    hfound _ k _ (decide_eq_true rfl) htarget]
  rfl

/-- A different pair is one of the pairs. -/
theorem mem_of_mem_distinct {pair : PhrasePair} (h : pair ∈ state.distinct) :
    pair ∈ state.pairs :=
  (firstsBy_sublist _ _ _).subset h

/-- The joint counts of the different pairs with a property add up to the lines with it. -/
theorem sum_jointCount
    (hjoint : ∀ pair ∈ state.pairs,
      state.jointCount pair = state.pairs.countP fun other => other.symbols = pair.symbols)
    (p : List Int × List Int → Bool) :
    ((state.distinct.filter fun other => p other.symbols).map state.jointCount).sum =
      (state.pairs.countP fun other => p other.symbols : Int) := by
  have hcounts : (state.distinct.filter fun other => p other.symbols).map state.jointCount =
      ((state.distinct.filter fun other => p other.symbols).map fun pair =>
        state.pairs.countP fun other => other.symbols = pair.symbols).map Nat.cast := by
    rw [List.map_map]
    apply List.map_congr_left
    intro pair hpair
    exact hjoint pair (mem_of_mem_distinct (List.mem_filter.1 hpair).1)
  have hsum := sum_countP_firstsBy (fun pair : PhrasePair => pair.symbols) p state.pairs
  rw [hcounts, ← Nat.cast_list_sum]
  exact congrArg Nat.cast hsum

/-- The accounts hold when the pairs are numbered and each of them was counted. -/
theorem Numbered.phraseAccounts (h : state.Numbered) (hsep : state.Separated)
    (hcounts : state.counts.phrases = PhraseCounts.empty.addAll state.pairs) :
    state.PhraseAccounts where
  joint_eq pair hpair := h.jointCount_eq hsep hcounts hpair
  source_eq pair hpair := h.sourceCount_eq hcounts hpair
  target_eq pair hpair := h.targetCount_eq hcounts hpair
  sum_source pair hpair := by
    rw [h.sourceCount_eq hcounts hpair]
    exact sum_jointCount (fun other hother => h.jointCount_eq hsep hcounts hother)
      fun symbols => symbols.1 = pair.source
  sum_target pair hpair := by
    rw [h.targetCount_eq hcounts hpair]
    exact sum_jointCount (fun other hother => h.jointCount_eq hsep hcounts hother)
      fun symbols => symbols.2 = pair.target
  one_le pair hpair := by
    rw [h.jointCount_eq hsep hcounts hpair]
    have hpos : 0 < state.pairs.countP fun other => other.symbols = pair.symbols :=
      List.countP_pos_iff.2 ⟨pair, hpair, by simp⟩
    omega
  le_source pair hpair := by
    rw [h.jointCount_eq hsep hcounts hpair, h.sourceCount_eq hcounts hpair, Int.ofNat_le]
    apply List.countP_mono_left
    intro other _ hsame
    rw [decide_eq_true_iff] at hsame ⊢
    exact congrArg Prod.fst hsame
  le_target pair hpair := by
    rw [h.jointCount_eq hsep hcounts hpair, h.targetCount_eq hcounts hpair, Int.ofNat_le]
    apply List.countP_mono_left
    intro other _ hsame
    rw [decide_eq_true_iff] at hsame ⊢
    exact congrArg Prod.snd hsame

/-- A relative frequency is a double above zero that is at most one, as long as doubles tell the
counts apart. -/
theorem PhraseAccounts.phi_mem (h : state.PhraseAccounts) (hlines : state.pairs.length < 2 ^ 53)
    {pair : PhrasePair} (hpair : pair ∈ state.pairs) :
    (0 < (state.occurrences pair).phiSourceGivenTarget.value ∧
      (state.occurrences pair).phiSourceGivenTarget.value ≤ 1) ∧
    0 < (state.occurrences pair).phiTargetGivenSource.value ∧
      (state.occurrences pair).phiTargetGivenSource.value ≤ 1 := by
  have hjoint : 0 < state.jointCount pair := h.one_le pair hpair
  have hsource : state.sourceCount pair < 2 ^ 53 := by
    rw [h.source_eq pair hpair]
    exact_mod_cast List.countP_le_length.trans_lt hlines
  have htarget : state.targetCount pair < 2 ^ 53 := by
    rw [h.target_eq pair hpair]
    exact_mod_cast List.countP_le_length.trans_lt hlines
  exact ⟨Binary64.quotient_mem hjoint (h.le_target pair hpair) htarget,
    Binary64.quotient_mem hjoint (h.le_source pair hpair) hsource⟩

end PassState

end Run

/-- A pair with occurrences is not turned away as one that was never counted. -/
theorem LexicalModel.judge_ne_uncounted (model : LexicalModel Logged) (config : Config)
    {phrases : PhraseCounts} {pair : PhrasePair} {occurrences : Occurrences}
    (h : phrases.occurrences? pair.ids = some occurrences) :
    (model.judge config phrases pair).value ≠ .uncounted := by
  unfold judge
  rw [h]
  dsimp only
  split
  · exact nofun
  · rw [Logged.value_bind, Logged.value_bind]
    split <;> exact nofun

namespace Run

/-! ## The counts of a run -/

/-- After the last pass all pairs are numbered, in whatever order they came to the index. -/
theorem numbered_finalState (config : Config) (schedule : Schedule)
    (sentences : List SentencePair) (pairs : List PhrasePair) :
    (finalState config schedule sentences pairs).Numbered := by
  have hindex := index_finalState config schedule sentences pairs
  have hpairs := pairs_finalState config schedule sentences pairs
  have hread : ∀ pair ∈ (finalState config schedule sentences pairs).pairs, ∃ read ∈ pairs,
      pair = read.withIds ((finalState config schedule sentences pairs).index.idsOf read) := by
    intro pair hpair
    rw [hpairs] at hpair
    obtain ⟨read, hread, rfl⟩ := List.mem_map.1 hpair
    exact ⟨read, hread, rfl⟩
  constructor
  · intro pair hpair
    obtain ⟨read, hmem, rfl⟩ := hread pair hpair
    have harrives : read ∈ schedule.arrivals pairs := Schedule.mem_arrivals.2 hmem
    have hhas := PhraseIndex.empty.has_insertAll read harrives
    rw [← hindex] at hhas
    exact ⟨hhas.key_mem, hhas.source_mem, hhas.target_mem⟩
  · intro pair hpair
    obtain ⟨read, -, rfl⟩ := hread pair hpair
    rfl
  · intro key hkey
    rw [hindex, PhraseIndex.fst_insertAll] at hkey
    obtain hnone | harrived := DenseIndex.mem_insertKeys.1 hkey
    · cases hnone
    · obtain ⟨read, hmem, rfl⟩ := List.mem_map.1 harrived
      rw [hpairs, List.map_map]
      exact List.mem_map.2 ⟨read, Schedule.mem_arrivals.1 hmem, rfl⟩

/-- But for their numbers, the pairs that were counted are those that were read. -/
theorem ReadAs.pairs_finalState {symbolOf : String → Int} {lines : List String}
    {pairs : List PhrasePair} (h : ReadAs symbolOf lines pairs) (config : Config)
    (schedule : Schedule) (sentences : List SentencePair) :
    ReadAs symbolOf lines ((finalState config schedule sentences pairs).pairs.map fun pair =>
      pair.withIds .unassigned) := by
  have hsame : pairs.map (fun pair =>
      (pair.withIds ((finalState config schedule sentences pairs).index.idsOf pair)).withIds
        .unassigned) = pairs := by
    refine (List.map_congr_left ?_).trans (List.map_id pairs)
    intro pair hpair
    unfold PhrasePair.withIds
    rw [← h.ids_eq hpair]
    rfl
  rw [Run.pairs_finalState, List.map_map]
  rw [← hsame] at h
  exact h

/-- With few gap tokens, the separator is a symbol of no source phrase that was counted. -/
theorem ReadAs.separated_finalState {vocabulary : Vocabulary} {lines : List String}
    {pairs : List PhrasePair} (h : ReadAs vocabulary.symbolOf lines pairs) (hgaps : FewGaps lines)
    (config : Config) (schedule : Schedule) (sentences : List SentencePair) :
    (finalState config schedule sentences pairs).Separated := by
  intro pair hpair
  have hread := (h.pairs_finalState config schedule sentences).separator_not_mem hgaps
    (List.mem_map_of_mem hpair)
  exact hread

/-- **The phrase counts of a run.** Every line that is not empty is an occurrence, and every
occurrence has the counts of the lines with its symbols. So no occurrence is scored as one that was
never counted, and its relative frequencies are above zero and at most one. -/
theorem makeTable_phraseAccounts {files : String → Option FileEntry} {seconds : String}
    {schedule : Schedule} {options : Options} {corpusFiles : CorpusFiles}
    {before after : Transcript} {table : Table} {text : String}
    (htable : ((Environment.recorded files seconds schedule).makeTable options
      corpusFiles).run.run before = (.ok table, after))
    (htext : files options.phrases = some (.text text))
    (hgaps : FewGaps (phraseLines (Text.lines text))) :
    ReadAs table.vocabulary.symbolOf (phraseLines (Text.lines text))
        (table.state.pairs.map fun pair => pair.withIds .unassigned) ∧
      table.state.PhraseAccounts ∧
      (∀ pair ∈ table.state.pairs,
        table.state.counts.phrases.occurrences? pair.ids = some (table.state.occurrences pair) ∧
        ∀ model : LexicalModel Logged,
          (model.judge options.config table.state.counts.phrases pair).value ≠ .uncounted) ∧
      (table.state.pairs.length < 2 ^ 53 → ∀ pair ∈ table.state.pairs,
        (0 < (table.state.occurrences pair).phiSourceGivenTarget.value ∧
          (table.state.occurrences pair).phiSourceGivenTarget.value ≤ 1) ∧
        0 < (table.state.occurrences pair).phiTargetGivenSource.value ∧
          (table.state.occurrences pair).phiTargetGivenSource.value ≤ 1) := by
  obtain ⟨⟨readings, hreadings, rfl⟩, -, -⟩ := Environment.makeTable_eq_ok seconds schedule htable
  have hread := readAs_of_readingsOf hreadings htext
  have hnumbered : (tableOf options schedule readings).state.Numbered := numbered_finalState _ _ _ _
  have haccounts : (tableOf options schedule readings).state.PhraseAccounts :=
    hnumbered.phraseAccounts (hread.separated_finalState hgaps _ _ _) (phrases_finalState _ _ _ _)
  refine ⟨hread.pairs_finalState _ _ _, haccounts, ?_, fun hlines pair => haccounts.phi_mem hlines⟩
  intro pair hpair
  have hoccurrences := hnumbered.occurrences?_eq (phrases_finalState _ _ _ _) hpair
  refine ⟨hoccurrences, ?_⟩
  intro model
  exact model.judge_ne_uncounted options.config hoccurrences

/-- Two of the pairs have the same source phrase and two the same target phrase, and one of them
occurs twice. -/
theorem makeTable_phraseAccounts_four_lines :
    ∃ (table : Table) (after : Transcript),
      ((Environment.recorded twoSentences "0" .inTurn).makeTable (smallOptions {})
        (.bitext "bitext")).run.run ⟨[], []⟩ = (.ok table, after) ∧
      table.state.PhraseAccounts ∧
      table.state.pairs.map table.state.jointCount = [2, 1, 1, 2] ∧
      table.state.pairs.map table.state.sourceCount = [3, 1, 3, 3] ∧
      table.state.pairs.map table.state.targetCount = [2, 2, 2, 2] ∧
      ∀ pair ∈ table.state.pairs,
        0 < (table.state.occurrences pair).phiTargetGivenSource.value ∧
          (table.state.occurrences pair).phiTargetGivenSource.value ≤ 1 := by
  have hstatus : (runRecorded twoSentences "0" (smallOptions {})).1 = 0 := by decide +kernel
  obtain ⟨readings, after, hread, htable⟩ := exists_makeTable_of_runRecorded rfl hstatus
  obtain ⟨-, haccounts, -, hphi⟩ := makeTable_phraseAccounts htable rfl (by decide +kernel)
  have hcounts :
      ((readingsOf twoSentences (smallOptions {}) (.bitext "bitext")).toOption.map fun readings =>
        let state := (tableOf (smallOptions {}) .inTurn readings).state
        (state.pairs.map state.jointCount, state.pairs.map state.sourceCount,
          state.pairs.map state.targetCount)) =
      some ([2, 1, 1, 2], [3, 1, 3, 3], [2, 2, 2, 2]) := by decide +kernel
  rw [hread] at hcounts
  simp only [Except.toOption, Option.map_some, Option.some.injEq, Prod.mk.injEq] at hcounts
  obtain ⟨hjoint, hsource, htarget⟩ := hcounts
  have hlength := congrArg List.length hjoint
  rw [List.length_map] at hlength
  refine ⟨_, after, htable, haccounts, hjoint, hsource, htarget, ?_⟩
  intro pair hpair
  exact (hphi (hlength.trans_lt (by decide)) pair hpair).2

end Run

end PhraseTable
