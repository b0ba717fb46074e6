import PhraseTable.Proofs.Counts.Accounting

/-!
# Counting word pairs at the same time

Several calls may count word pairs at the same time. Each takes six steps, and nothing can come
between the parts of one step: it asks for a slot in each of the three tallies, and then its slots
are counted. A schedule says which call takes the next step. While calls are under way a tally has
slots without counts, so the accounts are not balanced; what holds at any time is `Tracked`, which
says of every call how many of its steps the tallies have seen. `tracked_step` carries it through
one step and `tracked_run` through a schedule. When all calls are done, the order of the steps is
no longer seen in any count: `interleaving_eq_sequential`.
-/

set_option autoImplicit false

namespace PhraseTable

/-- How far a call has come, with the slots that it was given. -/
inductive WordStage where
  | begun
  | pairReserved (pair : Nat)
  | sourceReserved (pair source : Nat)
  | reserved (slots : WordSlots)
  | pairCounted (slots : WordSlots)
  | sourceCounted (slots : WordSlots)
  | done (slots : WordSlots)
deriving DecidableEq

namespace WordStage

/-- The number of steps that were taken. -/
def steps : WordStage → Nat
  | begun => 0
  | pairReserved _ => 1
  | sourceReserved _ _ => 2
  | reserved _ => 3
  | pairCounted _ => 4
  | sourceCounted _ => 5
  | done _ => 6

/-- The slot that the call was given for its word pair. -/
def pairSlot? : WordStage → Option Nat
  | begun => none
  | pairReserved pair => some pair
  | sourceReserved pair _ => some pair
  | reserved slots | pairCounted slots | sourceCounted slots | done slots => some slots.pair

/-- The slot that the call was given for its source word. -/
def sourceSlot? : WordStage → Option Nat
  | begun | pairReserved _ => none
  | sourceReserved _ source => some source
  | reserved slots | pairCounted slots | sourceCounted slots | done slots => some slots.source

/-- The slot that the call was given for its target word. -/
def targetSlot? : WordStage → Option Nat
  | begun | pairReserved _ | sourceReserved _ _ => none
  | reserved slots | pairCounted slots | sourceCounted slots | done slots => some slots.target

/-- A call takes six steps and no more. -/
theorem steps_le (stage : WordStage) : stage.steps ≤ 6 := by
  cases stage <;> simp [steps]

end WordStage

/-- A call that counts a word pair. -/
structure WordCall where
  source : Int
  target : Int
  stage : WordStage
deriving DecidableEq

namespace WordCall

/-- The next step of a call. A call that is done takes no more steps. -/
def advance (call : WordCall) (words : WordCounts) : WordCounts × WordCall :=
  match call.stage with
  | .begun =>
    let (pairs, pair) := words.pairs.reserve (call.source, call.target)
    ({ words with pairs }, { call with stage := .pairReserved pair })
  | .pairReserved pair =>
    let (sources, source) := words.sources.reserve call.source
    ({ words with sources }, { call with stage := .sourceReserved pair source })
  | .sourceReserved pair source =>
    let (targets, target) := words.targets.reserve call.target
    ({ words with targets }, { call with stage := .reserved ⟨pair, source, target⟩ })
  | .reserved slots =>
    ({ words with pairs := words.pairs.bump slots.pair },
      { call with stage := .pairCounted slots })
  | .pairCounted slots =>
    ({ words with sources := words.sources.bump slots.source },
      { call with stage := .sourceCounted slots })
  | .sourceCounted slots =>
    ({ words with targets := words.targets.bump slots.target }, { call with stage := .done slots })
  | .done _ => (words, call)

/-- Six steps without a break count the word pair as it is counted by one call alone. -/
theorem advance_six (words : WordCounts) (source target : Int) :
    (fun state : WordCounts × WordCall => state.2.advance state.1)^[6]
        (words, ⟨source, target, .begun⟩) =
      ((words.add source target).1, ⟨source, target, .done (words.add source target).2⟩) :=
  rfl

/-- The word pair, if the call has taken this step. -/
def took (call : WordCall) (n : Nat) : List (Int × Int) :=
  if n < call.stage.steps then [(call.source, call.target)] else []

/-- The slots that the call was given are those of its word pair and of its words. -/
structure Owns (call : WordCall) (words : WordCounts) : Prop where
  pair : ∀ slot ∈ call.stage.pairSlot?,
    words.pairs.index.get? slot = some (call.source, call.target)
  source : ∀ slot ∈ call.stage.sourceSlot?, words.sources.index.get? slot = some call.source
  target : ∀ slot ∈ call.stage.targetSlot?, words.targets.index.get? slot = some call.target

/-- One step more is taken, until the call is done. -/
theorem steps_advance (call : WordCall) (words : WordCounts) :
    (call.advance words).2.stage.steps = min 6 (call.stage.steps + 1) := by
  obtain ⟨source, target, stage⟩ := call
  cases stage <;> rfl

/-- A step does not change what the call counts. -/
theorem key_advance (call : WordCall) (words : WordCounts) :
    ((call.advance words).2.source, (call.advance words).2.target) =
      (call.source, call.target) := by
  obtain ⟨source, target, stage⟩ := call
  cases stage <;> rfl

/-- One step of a call, seen from the tallies: whatever the others have done, the tallies have seen
one step more of this call. -/
theorem tracks_advance {call : WordCall} {words : WordCounts} {others : Nat → List (Int × Int)}
    (h : words.Tracks fun n => call.took n ++ others n) (howns : call.Owns words) :
    (call.advance words).1.Tracks fun n => (call.advance words).2.took n ++ others n := by
  obtain ⟨source, target, stage⟩ := call
  obtain ⟨hpairs, hsources, htargets⟩ := h
  cases stage with
  | begun => exact ⟨hpairs.reserve (source, target), hsources, htargets⟩
  | pairReserved pair => exact ⟨hpairs, hsources.reserve source, htargets⟩
  | sourceReserved pair sourceSlot => exact ⟨hpairs, hsources, htargets.reserve target⟩
  | reserved slots => exact ⟨hpairs.bump (howns.pair _ rfl), hsources, htargets⟩
  | pairCounted slots => exact ⟨hpairs, hsources.bump (howns.source _ rfl), htargets⟩
  | sourceCounted slots => exact ⟨hpairs, hsources, htargets.bump (howns.target _ rfl)⟩
  | done slots => exact ⟨hpairs, hsources, htargets⟩

/-- A call owns the slots that its own step has given it. -/
theorem owns_advance {call : WordCall} {words : WordCounts} (howns : call.Owns words) :
    (call.advance words).2.Owns (call.advance words).1 := by
  obtain ⟨source, target, stage⟩ := call
  obtain ⟨hpair, hsource, htarget⟩ := howns
  cases stage with
  | begun =>
    refine ⟨?_, hsource, htarget⟩
    rintro slot ⟨⟩
    exact words.pairs.get?_reserve (source, target)
  | pairReserved pair =>
    refine ⟨hpair, ?_, htarget⟩
    rintro slot ⟨⟩
    exact words.sources.get?_reserve source
  | sourceReserved pair sourceSlot =>
    refine ⟨hpair, hsource, ?_⟩
    rintro slot ⟨⟩
    exact words.targets.get?_reserve target
  | reserved slots => exact ⟨hpair, hsource, htarget⟩
  | pairCounted slots => exact ⟨hpair, hsource, htarget⟩
  | sourceCounted slots => exact ⟨hpair, hsource, htarget⟩
  | done slots => exact ⟨hpair, hsource, htarget⟩

/-- A call keeps its slots while other calls take their steps. -/
theorem Owns.advance {call : WordCall} {words : WordCounts} (howns : call.Owns words)
    (other : WordCall) : call.Owns (other.advance words).1 := by
  obtain ⟨source, target, stage⟩ := other
  obtain ⟨hpair, hsource, htarget⟩ := howns
  cases stage with
  | begun =>
    exact ⟨fun slot hslot => Tally.get?_reserve_of_get? (hpair slot hslot) _, hsource, htarget⟩
  | pairReserved pair =>
    exact ⟨hpair, fun slot hslot => Tally.get?_reserve_of_get? (hsource slot hslot) _, htarget⟩
  | sourceReserved pair sourceSlot =>
    exact ⟨hpair, hsource, fun slot hslot => Tally.get?_reserve_of_get? (htarget slot hslot) _⟩
  | reserved slots => exact ⟨hpair, hsource, htarget⟩
  | pairCounted slots => exact ⟨hpair, hsource, htarget⟩
  | sourceCounted slots => exact ⟨hpair, hsource, htarget⟩
  | done slots => exact ⟨hpair, hsource, htarget⟩

end WordCall

/-- Word counts, and the calls that count in them at the same time. -/
structure SharedCounts where
  words : WordCounts
  calls : List WordCall

namespace SharedCounts

/-- All calls are about to begin. -/
def start (words : WordCounts) (pairs : List (Int × Int)) : SharedCounts :=
  ⟨words, pairs.map fun pair => ⟨pair.1, pair.2, .begun⟩⟩

/-- The call at a place takes its next step. -/
def step (shared : SharedCounts) (i : Nat) : SharedCounts :=
  match shared.calls[i]? with
  | none => shared
  | some call =>
    ⟨(call.advance shared.words).1, shared.calls.set i (call.advance shared.words).2⟩

/-- The calls take steps in the order of a schedule. -/
def run (shared : SharedCounts) (schedule : List Nat) : SharedCounts :=
  schedule.foldl step shared

/-- The word pairs that have taken a step, those that were counted before included. -/
def past (shared : SharedCounts) (before : List (Int × Int)) (n : Nat) : List (Int × Int) :=
  before ++ shared.calls.flatMap fun call => call.took n

/-- What holds at any time: the tallies have seen just the steps that were taken, and every call
owns its slots. -/
structure Tracked (shared : SharedCounts) (before : List (Int × Int)) : Prop where
  tracks : shared.words.Tracks (shared.past before)
  owns : ∀ call ∈ shared.calls, call.Owns shared.words

/-- Before any step, the tallies have seen what was counted before. -/
theorem tracked_start {words : WordCounts} {before : List (Int × Int)} (h : words.Counted before)
    (pairs : List (Int × Int)) : (start words pairs).Tracked before where
  tracks := by
    have hpast : (start words pairs).past before = fun _ => before := by
      funext n
      have hnone : (start words pairs).calls.flatMap (fun call => call.took n) = [] := by
        refine List.flatMap_eq_nil_iff.2 fun call hcall => ?_
        obtain ⟨pair, -, rfl⟩ := List.mem_map.1 hcall
        exact if_neg (Nat.not_lt_zero n)
      unfold past
      rw [hnone, List.append_nil]
    rw [hpast]
    exact h
  owns := by
    intro call hcall
    obtain ⟨pair, -, rfl⟩ := List.mem_map.1 hcall
    exact ⟨nofun, nofun, nofun⟩

/-- One step preserves what holds at any time. -/
theorem tracked_step {shared : SharedCounts} {before : List (Int × Int)}
    (h : shared.Tracked before) (i : Nat) : (shared.step i).Tracked before := by
  unfold step
  cases hcall : shared.calls[i]? with
  | none => exact h
  | some call =>
    obtain ⟨hi, rfl⟩ := List.getElem?_eq_some_iff.1 hcall
    have howns := h.owns _ (List.getElem_mem hi)
    -- The call that takes the step is brought to the front, before all that is past.
    have hfront (calls : List WordCall) (call : WordCall)
        (hperm : calls.Perm (call :: shared.calls.eraseIdx i)) (words : WordCounts) (n : Nat) :
        (past ⟨words, calls⟩ before n).Perm
          (call.took n ++ past ⟨words, shared.calls.eraseIdx i⟩ before n) := by
      have hcalls := hperm.flatMap_right fun call => call.took n
      exact (hcalls.append_left before).trans (List.perm_append_comm_assoc _ _ _)
    constructor
    · have hbefore := h.tracks.perm fun n _ => hfront shared.calls _
        (List.getElem_cons_eraseIdx_perm hi).symm shared.words n
      exact (WordCall.tracks_advance hbefore howns).perm fun n _ =>
        (hfront _ _ (List.set_perm_cons_eraseIdx hi _) _ n).symm
    · intro other hother
      rcases List.mem_or_eq_of_mem_set hother with hother | rfl
      · exact (h.owns other hother).advance _
      · exact WordCall.owns_advance howns

/-- A whole schedule preserves what holds at any time. -/
theorem tracked_run {shared : SharedCounts} {before : List (Int × Int)}
    (h : shared.Tracked before) (schedule : List Nat) : (shared.run schedule).Tracked before := by
  induction schedule generalizing shared with
  | nil => exact h
  | cons i rest ih => exact ih (tracked_step h i)

/-! ## When all calls are done -/

/-- Only the call whose turn it is moves on. -/
theorem getElem?_calls_step (shared : SharedCounts) (i j : Nat) :
    (shared.step i).calls[j]? =
      if i = j then shared.calls[j]?.map fun call => (call.advance shared.words).2
      else shared.calls[j]? := by
  unfold step
  cases hcall : shared.calls[i]? with
  | none =>
    by_cases hij : i = j
    · subst hij
      rw [if_pos rfl, hcall]
      rfl
    · rw [if_neg hij]
  | some call =>
    by_cases hij : i = j
    · subst hij
      rw [if_pos rfl, hcall]
      exact List.getElem?_set_self (List.getElem?_eq_some_iff.1 hcall).1
    · rw [if_neg hij]
      exact List.getElem?_set_ne hij

/-- The calls stay in their places and have their word pairs. -/
theorem keys_run (shared : SharedCounts) (schedule : List Nat) :
    (shared.run schedule).calls.map (fun call => (call.source, call.target)) =
      shared.calls.map fun call => (call.source, call.target) := by
  induction schedule generalizing shared with
  | nil => rfl
  | cons i rest ih =>
    refine (ih (shared.step i)).trans (List.ext_getElem? fun j => ?_)
    rw [List.getElem?_map, List.getElem?_map, getElem?_calls_step]
    split
    · rw [Option.map_map]
      exact congrArg (fun f => Option.map f shared.calls[j]?)
        (funext fun call => call.key_advance shared.words)
    · rfl

/-- A call has taken as many steps as the schedule gives it, up to six. -/
theorem steps_run (shared : SharedCounts) (schedule : List Nat) (j : Nat) :
    (shared.run schedule).calls[j]?.map (fun call => call.stage.steps) =
      shared.calls[j]?.map fun call => min 6 (call.stage.steps + schedule.count j) := by
  induction schedule generalizing shared with
  | nil =>
    refine Option.map_congr fun call _ => ?_
    rw [List.count_nil, Nat.add_zero, Nat.min_eq_right call.stage.steps_le]
  | cons i rest ih =>
    refine (ih (shared.step i)).trans ?_
    rw [getElem?_calls_step]
    by_cases hij : i = j
    · subst hij
      rw [if_pos rfl, Option.map_map, List.count_cons_self]
      refine Option.map_congr fun call _ => ?_
      have hsteps := call.steps_advance shared.words
      dsimp only [Function.comp_apply]
      omega
    · rw [if_neg hij, List.count_cons_of_ne hij]

/-- Every call is done when it was given six steps. -/
theorem done_run {words : WordCounts} {pairs : List (Int × Int)} {schedule : List Nat}
    (hschedule : ∀ i < pairs.length, schedule.count i = 6) :
    ∀ call ∈ ((start words pairs).run schedule).calls, ∃ slots, call.stage = .done slots := by
  intro call hcall
  obtain ⟨j, hj⟩ := List.getElem?_of_mem hcall
  have hsteps := steps_run (start words pairs) schedule j
  rw [hj, start, List.getElem?_map] at hsteps
  have hsix : call.stage.steps = 6 := by
    cases hpair : pairs[j]? with
    | none =>
      rw [hpair] at hsteps
      cases hsteps
    | some pair =>
      rw [hpair] at hsteps
      have hcount := hschedule j (List.getElem?_eq_some_iff.1 hpair).1
      have hmin := Option.some.inj hsteps
      dsimp only at hmin
      omega
  revert hsix
  cases call.stage with
  | done slots => exact fun _ => ⟨slots, rfl⟩
  | _ => exact nofun

/-- When every call was given six steps, all word pairs were counted in full. -/
theorem counted_run {words : WordCounts} {before pairs : List (Int × Int)} {schedule : List Nat}
    (h : words.Counted before) (hschedule : ∀ i < pairs.length, schedule.count i = 6) :
    ((start words pairs).run schedule).words.Counted (before ++ pairs) := by
  refine (tracked_run (tracked_start h pairs) schedule).tracks.perm fun n hn => ?_
  have htook : ((start words pairs).run schedule).calls.flatMap (fun call => call.took n) =
      ((start words pairs).run schedule).calls.map fun call => (call.source, call.target) := by
    rw [List.map_eq_flatMap]
    refine List.flatMap_congr fun call hcall => ?_
    obtain ⟨slots, hdone⟩ := done_run hschedule call hcall
    unfold WordCall.took
    rw [hdone]
    exact if_pos hn
  have hpairs : (start words pairs).calls.map (fun call => (call.source, call.target)) = pairs := by
    unfold start
    rw [List.map_map]
    exact List.map_id pairs
  unfold past
  rw [htook, keys_run, hpairs]

end SharedCounts

namespace Counts

/-- **The order of the steps is not seen in the counts.** Word pairs are counted at the same time,
and the steps of their calls are taken in any order in which each call takes its six. Then every
count is what it is when the same word pairs are counted one after the other, in whatever order,
and the accounts are balanced again. -/
theorem interleaving_eq_sequential (config : Config) (before : List CountOp)
    (pairs : List (Int × Int)) (schedule : List Nat)
    (hschedule : ∀ i < pairs.length, schedule.count i = 6) :
    let final := (SharedCounts.start (wordsAfter config before) pairs).run schedule
    (∀ call ∈ final.calls, ∃ slots, call.stage = .done slots) ∧ final.words.Balanced ∧
      ∀ order : List (Int × Int), order.Perm pairs →
        let sequential :=
          wordsAfter config (before ++ order.map fun pair => .addWordPair pair.1 pair.2)
        (∀ source target : Int,
          final.words.pairCount? source target = sequential.pairCount? source target) ∧
        (∀ source : Int, final.words.sourceCount? source = sequential.sourceCount? source) ∧
        ∀ target : Int, final.words.targetCount? target = sequential.targetCount? target := by
  intro final
  have hfinal := SharedCounts.counted_run (counted_wordsAfter config before) hschedule
  refine ⟨SharedCounts.done_run hschedule, hfinal.balanced, ?_⟩
  intro order horder sequential
  have hsequential : sequential.Counted (before.flatMap CountOp.wordPairs ++ pairs) := by
    have hpairs : (order.map fun pair => CountOp.addWordPair pair.1 pair.2).flatMap
        CountOp.wordPairs = order := by
      rw [List.flatMap_map]
      exact List.flatMap_singleton' order
    have hcounted := counted_wordsAfter config
      (before ++ order.map fun pair => .addWordPair pair.1 pair.2)
    rw [List.flatMap_append, hpairs] at hcounted
    exact hcounted.perm (horder.append_left _)
  refine ⟨?_, ?_, ?_⟩
  · intro source target
    exact Tally.Tracks.count?_congr hfinal.pairs hsequential.pairs (source, target)
  · intro source
    exact Tally.Tracks.count?_congr hfinal.sources hsequential.sources source
  · intro target
    exact Tally.Tracks.count?_congr hfinal.targets hsequential.targets target

/-- Two calls that cross each other: the second one is given the first slot of the pairs and the
first one the first slot of the target words. The slots are others than when the calls come one
after the other, and the counts are the same. -/
theorem interleaving_eq_sequential_crossed :
    (∀ i < 2, [1, 1, 0, 0, 0, 0, 1, 1, 1, 0, 0, 1].count i = 6) ∧
      let final := (SharedCounts.start (wordsAfter default []) [(1, 7), (1, 8)]).run
        [1, 1, 0, 0, 0, 0, 1, 1, 1, 0, 0, 1]
      let sequential := wordsAfter default [.addWordPair 1 7, .addWordPair 1 8]
      final.calls = [⟨1, 7, .done ⟨1, 0, 0⟩⟩, ⟨1, 8, .done ⟨0, 0, 1⟩⟩] ∧
        sequential.pairs.index.toList = [(1, 7), (1, 8)] ∧ final.words.Balanced ∧
        final.words.pairCount? 1 8 = sequential.pairCount? 1 8 ∧
        final.words.sourceCount? 1 = sequential.sourceCount? 1 ∧
        sequential.sourceCount? 1 = some 2 := by
  have hschedule : ∀ i < 2, [1, 1, 0, 0, 0, 0, 1, 1, 1, 0, 0, 1].count i = 6 := by decide
  obtain ⟨-, hbalanced, hsame⟩ :=
    interleaving_eq_sequential default [] [(1, 7), (1, 8)] _ hschedule
  obtain ⟨hpairs, hsources, -⟩ := hsame [(1, 7), (1, 8)] (.refl _)
  exact ⟨hschedule, rfl, rfl, hbalanced, hpairs 1 8, hsources 1, rfl⟩

end Counts

end PhraseTable
