import PhraseTable.Proofs.Counts.Interleaving
import PhraseTable.Proofs.Run.Passes

/-!
# Every interleaving is a schedule

A pass is given the order in which its threads come to the indexes, and not the steps of the
threads. Nothing is lost by that. The calls of a pass that count word pairs take six steps each, in
any order. `takers` reads off who takes one of the steps, and when; the takers of the first three
steps are a schedule under which a pass leaves the same words, slot by slot
(`countTogether_eq_addAll`). One schedule serves for all passes of a run, since on later passes all
slots are there already (`exists_schedule`).

A phrase pair is numbered in one step, so the order in which the pairs come to the index is the
whole interleaving: `numbers_of_perm`.
-/

set_option autoImplicit false

namespace PhraseTable

/-! ## Words that entered their keys in the same order -/

/-- Tallies that gave away the same slots and counted the same keys in full are equal. -/
theorem Tally.Tracks.eq_of_index {α : Type} [DecidableEq α] {tally tally' : Tally α}
    {keys : List α} (h : tally.Tracks keys keys) (h' : tally'.Tracks keys keys)
    (hindex : tally.index = tally'.index) : tally = tally' := by
  obtain ⟨index, counts⟩ := tally
  obtain ⟨index', counts'⟩ := tally'
  obtain rfl : index = index' := hindex
  have hsize : counts.size = counts'.size := h.filled.size_eq.symm.trans h'.filled.size_eq
  have hget (id : Int) : counts.get id = counts'.get id := by
    rcases lt_or_ge id 0 with hneg | hpos
    · unfold CountVector.get
      rw [if_pos hneg, if_pos hneg]
    · obtain ⟨slot, rfl⟩ := Int.eq_ofNat_of_zero_le hpos
      cases hkey : index.get? slot with
      | some key => exact (h.get_counts slot key hkey).trans (h'.get_counts slot key hkey).symm
      | none =>
        -- Behind the keys there are no counts.
        rw [← DenseIndex.getElem?_toList, List.getElem?_eq_none_iff,
          DenseIndex.length_toList] at hkey
        rw [CountVector.get_of_size_le (h.size_counts.trans hkey),
          CountVector.get_of_size_le (h'.size_counts.trans hkey)]
  rw [CountVector.eq_iff.2 ⟨hget, hsize⟩]

namespace WordCounts

/-- Between two states, the word pairs that took one of the first three steps have entered their
keys in the index of this step, one after the other. -/
structure Entered (words later : WordCounts) (takers : Nat → List (Int × Int)) : Prop where
  pairs : later.pairs.index = words.pairs.index.insertKeys (takers 0)
  sources : later.sources.index = words.sources.index.insertKeys ((takers 1).map Prod.fst)
  targets : later.targets.index = words.targets.index.insertKeys ((takers 2).map Prod.snd)

/-- Nobody has entered anything. -/
theorem Entered.refl (words : WordCounts) : words.Entered words fun _ => [] :=
  ⟨rfl, rfl, rfl⟩

/-- Those who come later are entered behind the others. -/
theorem Entered.trans {words later last : WordCounts} {takers takers' : Nat → List (Int × Int)}
    (h : words.Entered later takers) (h' : later.Entered last takers') :
    words.Entered last fun n => takers n ++ takers' n where
  pairs := by rw [h'.pairs, h.pairs, DenseIndex.insertKeys_append]
  sources := by rw [h'.sources, h.sources, List.map_append, DenseIndex.insertKeys_append]
  targets := by rw [h'.targets, h.targets, List.map_append, DenseIndex.insertKeys_append]

/-- Word pairs that are counted one after the other take all steps in this order. -/
theorem entered_addAll (words : WordCounts) (pairs : List (Int × Int)) :
    words.Entered (words.addAll pairs) fun _ => pairs := by
  induction pairs generalizing words with
  | nil => exact .refl words
  | cons pair rest ih =>
    have hfirst : words.Entered (words.add pair.1 pair.2).1 fun _ => [pair] := ⟨rfl, rfl, rfl⟩
    exact hfirst.trans (ih (words.add pair.1 pair.2).1)

/-- Word pairs that were counted before enter nothing new. -/
theorem Counted.entered_self {words : WordCounts} {before pairs : List (Int × Int)}
    (h : words.Counted before) (hknown : ∀ pair ∈ pairs, pair ∈ before) :
    words.Entered words fun _ => pairs where
  pairs := by
    refine (DenseIndex.insertKeys_of_subset fun pair hpair => ?_).symm
    exact (h.pairs.mem_index pair).2 (hknown pair hpair)
  sources := by
    refine (DenseIndex.insertKeys_of_subset fun word hword => ?_).symm
    exact (h.sources.mem_index word).2 (List.map_subset Prod.fst hknown hword)
  targets := by
    refine (DenseIndex.insertKeys_of_subset fun word hword => ?_).symm
    exact (h.targets.mem_index word).2 (List.map_subset Prod.snd hknown hword)

/-- Words that come from the same state, entered their keys in the same order and counted the same
pairs in full are equal. -/
theorem Entered.unique {words later later' : WordCounts} {takers : Nat → List (Int × Int)}
    {counted : List (Int × Int)} (h : words.Entered later takers)
    (h' : words.Entered later' takers) (hcounted : later.Counted counted)
    (hcounted' : later'.Counted counted) : later = later' := by
  have hpairs : later.pairs = later'.pairs :=
    hcounted.pairs.eq_of_index hcounted'.pairs (h.pairs.trans h'.pairs.symm)
  have hsources : later.sources = later'.sources :=
    hcounted.sources.eq_of_index hcounted'.sources (h.sources.trans h'.sources.symm)
  have htargets : later.targets = later'.targets :=
    hcounted.targets.eq_of_index hcounted'.targets (h.targets.trans h'.targets.symm)
  calc later = ⟨later.pairs, later.sources, later.targets⟩ := rfl
    _ = ⟨later'.pairs, later'.sources, later'.targets⟩ := by rw [hpairs, hsources, htargets]
    _ = later' := rfl

end WordCounts

/-! ## Who takes a step, and when -/

/-- A step of a call enters the keys of its word pair in the index of this step. -/
theorem WordCall.entered_advance (call : WordCall) (words : WordCounts) :
    words.Entered (call.advance words).1 fun n =>
      if call.stage.steps = n then [(call.source, call.target)] else [] := by
  obtain ⟨source, target, stage⟩ := call
  cases stage <;> exact ⟨rfl, rfl, rfl⟩

namespace SharedCounts

/-- The places of the calls that take the step behind `n` others, in the order in which they take
it. -/
def takers (shared : SharedCounts) (n : Nat) : List Nat → List Nat
  | [] => []
  | i :: steps =>
    let rest := (shared.step i).takers n steps
    if (shared.calls[i]?.map fun call => call.stage.steps) = some n then i :: rest else rest

/-- The word pairs of the calls, by their places. -/
def wordPairs (shared : SharedCounts) : List (Int × Int) :=
  shared.calls.map fun call => (call.source, call.target)

/-- While calls take their steps, they enter the keys of the takers in the order in which these
take their steps. -/
theorem entered_run (shared : SharedCounts) (steps : List Nat) :
    shared.words.Entered (shared.run steps).words fun n =>
      Run.reorder (shared.takers n steps) shared.wordPairs := by
  induction steps generalizing shared with
  | nil => exact .refl shared.words
  | cons i steps ih =>
    have hkeys : (shared.step i).wordPairs = shared.wordPairs := shared.keys_run [i]
    have hfirst : shared.words.Entered (shared.step i).words fun n =>
        if (shared.calls[i]?.map fun call => call.stage.steps) = some n
          then shared.wordPairs[i]?.toList else [] := by
      unfold step wordPairs
      rw [List.getElem?_map]
      cases shared.calls[i]? with
      | none => exact .refl shared.words
      | some call =>
        simpa only [Option.map_some, Option.some.injEq, Option.toList_some] using
          call.entered_advance shared.words
    have hrest := ih (shared.step i)
    rw [hkeys] at hrest
    have htakers : (fun n => Run.reorder (shared.takers n (i :: steps)) shared.wordPairs) =
        fun n =>
          (if (shared.calls[i]?.map fun call => call.stage.steps) = some n
            then shared.wordPairs[i]?.toList else []) ++
          Run.reorder ((shared.step i).takers n steps) shared.wordPairs := by
      funext n
      rw [takers]
      split
      · exact Run.reorder_cons i _ _
      · rfl
    rw [htakers]
    exact hfirst.trans hrest

/-- Before any step the calls have the word pairs that they are about to count. -/
theorem wordPairs_start (words : WordCounts) (pairs : List (Int × Int)) :
    (start words pairs).wordPairs = pairs := by
  unfold wordPairs start
  rw [List.map_map]
  exact List.map_id pairs

end SharedCounts

namespace Run

/-- The words after calls that count word pairs at the same time, with these steps. -/
def countTogether (pairs : List (Int × Int)) (words : WordCounts) (steps : List Nat) :
    WordCounts :=
  ((SharedCounts.start words pairs).run steps).words

/-- The schedule that the steps of a pass amount to, with an order of the phrase pairs. -/
def Schedule.observed (phrases : List Nat) (pairs : List (Int × Int)) (words : WordCounts)
    (steps : List Nat) : Schedule where
  phrases := phrases
  pairs := (SharedCounts.start words pairs).takers 0 steps
  sources := (SharedCounts.start words pairs).takers 1 steps
  targets := (SharedCounts.start words pairs).takers 2 steps

/-- Those that come before their turn enter their keys in the order of the schedule. -/
theorem Schedule.entered_reserve (schedule : Schedule) (wordPairs : List (Int × Int))
    (words : WordCounts) :
    words.Entered (schedule.reserve wordPairs words) (schedule.early wordPairs) where
  pairs := congrArg Tally.index (Tally.reserveAll_eq _ _)
  sources := congrArg Tally.index (Tally.reserveAll_eq _ _)
  targets := congrArg Tally.index (Tally.reserveAll_eq _ _)

/-- Word pairs that are counted at the same time leave the words that they leave when they are
counted one after the other, under the schedule that their steps amount to. -/
theorem countTogether_eq_addAll (phrases : List Nat) {words : WordCounts}
    {before pairs : List (Int × Int)} {steps : List Nat} (h : words.Counted before)
    (hsteps : ∀ i < pairs.length, steps.count i = 6) :
    countTogether pairs words steps =
      ((Schedule.observed phrases pairs words steps).reserve pairs words).addAll pairs := by
  have hcounted : (countTogether pairs words steps).Counted (before ++ pairs) :=
    SharedCounts.counted_run h hsteps
  have hrun := (SharedCounts.start words pairs).entered_run steps
  rw [SharedCounts.wordPairs_start] at hrun
  have htogether : words.Entered (countTogether pairs words steps)
      ((Schedule.observed phrases pairs words steps).early pairs) :=
    ⟨hrun.pairs, hrun.sources, hrun.targets⟩
  -- When all are counted, it adds nothing that they come once more in turn.
  have hagain := htogether.trans
    (hcounted.entered_self fun pair hpair => List.mem_append_right before hpair)
  have hreserved := (Schedule.observed phrases pairs words steps).entered_reserve pairs words
  exact hagain.unique (hreserved.trans (WordCounts.entered_addAll _ pairs)) hcounted
    (Schedule.counted_pass _ h pairs)

/-- Of two calls that cross each other, the second one is the first that comes to the word pairs and
to the source words, and the first one is the first that comes to the target words. -/
example :
    Schedule.observed [] [(1, 7), (1, 8)] .empty [1, 1, 0, 0, 0, 0, 1, 1, 1, 0, 0, 1] =
      ⟨[], [1, 0], [1, 0], [0, 1]⟩ := by
  decide

/-! ## All passes of a run -/

/-- On later passes all word pairs have their slots, and the steps of the calls leave the same
words as any schedule. -/
theorem foldl_countTogether (schedule : Schedule) (sentences : List SentencePair) {number : Nat}
    (hnumber : 0 < number) {passes : List (List Nat)}
    (hpasses : ∀ steps ∈ passes,
      ∀ i < (sentences.flatMap AlignedPair.wordPairs).length, steps.count i = 6) :
    passes.foldl (countTogether (sentences.flatMap AlignedPair.wordPairs))
        (passedCounts schedule sentences number) =
      passedCounts schedule sentences (number + passes.length) := by
  induction passes generalizing number with
  | nil => rfl
  | cons steps rest ih =>
    have hcounted := counted_passedCounts schedule sentences number
    have hknown : ∀ pair ∈ sentences.flatMap AlignedPair.wordPairs,
        pair ∈ passedWords sentences number := by
      intro pair hpair
      obtain ⟨earlier, rfl⟩ := Nat.exists_eq_succ_of_ne_zero (Nat.ne_of_gt hnumber)
      rw [passedWords_succ]
      exact List.mem_append_right _ hpair
    have hstep : countTogether (sentences.flatMap AlignedPair.wordPairs)
        (passedCounts schedule sentences number) steps =
        passedCounts schedule sentences (number + 1) := by
      rw [countTogether_eq_addAll schedule.phrases hcounted (hpasses steps List.mem_cons_self),
        Schedule.reserve_of_counted _ hcounted hknown, passedCounts,
        schedule.reserve_of_counted hcounted hknown]
    rw [List.foldl_cons, hstep,
      ih (Nat.succ_pos number) fun steps hsteps => hpasses steps (List.mem_cons_of_mem _ hsteps),
      List.length_cons, Nat.succ_add_eq_add_succ]

/-- **Every interleaving is a schedule.** On every pass the word pairs of all sentences are counted
at the same time, with steps in any order in which each call takes its six. Then there is a
schedule, with any order of the phrase pairs, under which the run ends with the same words. -/
theorem exists_schedule (config : Config) (sentences : List SentencePair)
    (pairs : List PhrasePair) (phrases : List Nat) {passes : List (List Nat)}
    (hlength : passes.length = config.passes)
    (hpasses : ∀ steps ∈ passes,
      ∀ i < (sentences.flatMap AlignedPair.wordPairs).length, steps.count i = 6) :
    ∃ schedule : Schedule, schedule.phrases = phrases ∧
      (finalState config schedule sentences pairs).counts.words =
        passes.foldl (countTogether (sentences.flatMap AlignedPair.wordPairs)) .empty := by
  cases passes with
  | nil =>
    have hpos := one_le_passes config
    rw [List.length_nil] at hlength
    omega
  | cons steps rest =>
    obtain ⟨hsteps, hrest⟩ := List.forall_mem_cons.1 hpasses
    let schedule :=
      Schedule.observed phrases (sentences.flatMap AlignedPair.wordPairs) .empty steps
    have hfirst : countTogether (sentences.flatMap AlignedPair.wordPairs) .empty steps =
        passedCounts schedule sentences 1 :=
      countTogether_eq_addAll phrases WordCounts.counted_empty hsteps
    refine ⟨schedule, rfl, ?_⟩
    rw [(passed_finalState config schedule sentences pairs).words_eq, List.foldl_cons, hfirst,
      foldl_countTogether schedule sentences Nat.one_pos hrest, ← hlength, List.length_cons,
      Nat.add_comm]

/-- When every phrase pair has its place in the schedule, the run ends with the index that the
pairs make in this order, and with the numbers that they were given on the way. -/
theorem numbers_of_perm (config : Config) {schedule : Schedule} (sentences : List SentencePair)
    {pairs : List PhrasePair} (h : schedule.phrases.Perm (List.range pairs.length)) :
    let final := finalState config schedule sentences pairs
    (final.index, reorder schedule.phrases final.pairs) =
      PhraseIndex.empty.insertAll (reorder schedule.phrases pairs) := by
  intro final
  have hall : ∀ pair ∈ pairs,
      (PhraseIndex.empty.insertAll (reorder schedule.phrases pairs)).1.Has pair := fun pair hpair =>
    PhraseIndex.has_insertAll _ pair ((perm_reorder h).mem_iff.2 hpair)
  have hindex : final.index =
      (PhraseIndex.empty.insertAll (reorder schedule.phrases pairs)).1 := by
    rw [index_finalState, Schedule.arrivals, PhraseIndex.fst_insertAll_append,
      PhraseIndex.fst_insertAll_of_has hall]
  have hpairs : reorder schedule.phrases final.pairs =
      (PhraseIndex.empty.insertAll (reorder schedule.phrases pairs)).2 := by
    rw [pairs_finalState, ← map_reorder, PhraseIndex.snd_insertAll, ← hindex]
  exact Prod.ext hindex hpairs

end Run

end PhraseTable
