import Mathlib.Data.Finset.Card
import Mathlib.Data.Finset.Dedup
import PhraseTable.Proofs.PhraseIndex

/-!
# Numbers stand for phrases

A phrase index is filled by additions, and look-ups may come at any time between them. Each of its
three parts numbers one kind of key: `DenseIndex.insertKeys` says how a part grows, and
`NumbersBy` what its numbers say about the pairs that were added. A number is told by how many
different keys were added before, so it does not depend on what comes later
(`DenseIndex.find?_insertKeys_of_not_mem`).

`PhraseIndex.numbersPhrases_performAll` ties the answers of any history of calls to these numbers.
As in `AlignedPair.pairKey_eq_iff`, pairs are told apart only if the separator is no source symbol.
-/

set_option autoImplicit false

namespace PhraseTable

/-! ## Keys that are entered one after the other -/

namespace DenseIndex

variable {α : Type} [DecidableEq α] {start : DenseIndex α}

/-- There are as many numbers as different keys. -/
theorem size_insertKeys (hstart : start.toList = []) (keys : List α) :
    (start.insertKeys keys).size = keys.toFinset.card := by
  have hkeys : (start.insertKeys keys).toList.toFinset = keys.toFinset := by
    ext key
    rw [List.mem_toFinset, List.mem_toFinset, mem_insertKeys, hstart]
    simp
  rw [← length_toList, ← hkeys, List.toFinset_card_of_nodup (nodup_toList _)]

/-- A key that was never entered has no number. -/
theorem find?_insertKeys_eq_none_iff (hstart : start.toList = []) {keys : List α} {key : α} :
    (start.insertKeys keys).find? key = none ↔ key ∉ keys := by
  rw [find?_eq_none_iff, mem_insertKeys, hstart]
  simp

/-- The number of a key is how many different keys were entered before it. -/
theorem find?_insertKeys_of_not_mem (hstart : start.toList = []) {front : List α} {key : α}
    (hkey : key ∉ front) (back : List α) :
    (start.insertKeys (front ++ key :: back)).find? key = some front.toFinset.card := by
  have hnew : key ∉ (start.insertKeys front).toList := by
    rw [mem_insertKeys, hstart]
    simpa using hkey
  have hentered := (start.insertKeys front).find?_insert_self key
  rw [snd_insert_eq_size_iff.2 hnew, size_insertKeys hstart] at hentered
  rw [insertKeys_append]
  exact (extends_insertKeys _ back).find? hentered

/-- Keys that come later do not change a number. -/
theorem find?_insertKeys_append {front : List α} {key : α} (hkey : key ∈ front) (back : List α) :
    (start.insertKeys (front ++ back)).find? key = (start.insertKeys front).find? key := by
  have hmem : key ∈ (start.insertKeys front).toList := mem_insertKeys.2 (Or.inr hkey)
  obtain ⟨id, -, hid⟩ := exists_find? hmem
  rw [insertKeys_append, (extends_insertKeys _ back).find? hid, hid]

/-- What is found after some of the keys is what is found after all of them, if the key is one of
the first. -/
theorem idOrUnassigned_insertKeys (hstart : start.toList = []) (front back : List α) (key : α)
    [Decidable (key ∈ front)] :
    idOrUnassigned ((start.insertKeys front).find? key) =
      if key ∈ front then idOrUnassigned ((start.insertKeys (front ++ back)).find? key)
      else unassignedId := by
  split
  · rename_i hmem
    rw [find?_insertKeys_append hmem]
  · rename_i hnew
    rw [(find?_insertKeys_eq_none_iff hstart).2 hnew]
    rfl

/-- A number is no less than zero just for a key that is there. -/
theorem idOrUnassigned_nonneg_iff {index : DenseIndex α} {key : α} :
    0 ≤ idOrUnassigned (index.find? key) ↔ key ∈ index.toList := by
  constructor
  · intro h
    by_contra hnew
    rw [find?_eq_none_iff.2 hnew] at h
    exact absurd h (by decide)
  · intro hmem
    obtain ⟨id, -, hid⟩ := exists_find? hmem
    rw [idOrUnassigned_of_find? hid]
    exact Int.natCast_nonneg id

end DenseIndex

/-! ## What numbers say about pairs -/

/-- The pairs that were added are numbered by their keys: 0, 1, 2, … in the order in which the keys
were first added. -/
structure NumbersBy {κ : Type} [DecidableEq κ] (key : PhrasePair → κ) (number : PhrasePair → Int)
    (size : Nat) (added : List PhrasePair) : Prop where
  eq_iff : ∀ p ∈ added, ∀ q ∈ added, number p = number q ↔ key p = key q
  /-- Where a key is first added, its number is how many different keys stand before it. -/
  eq_card : ∀ (front back : List PhrasePair) (pair : PhrasePair), added = front ++ pair :: back →
    key pair ∉ front.map key → number pair = (front.map key).toFinset.card
  size_eq : size = (added.map key).toFinset.card

section Keys

variable {α κ κ' : Type} [DecidableEq κ] [DecidableEq κ']

/-- There are as many keys as first members. -/
theorem card_map_eq_length_firstsBy (key : α → κ) (xs : List α) :
    (xs.map key).toFinset.card = (firstsBy key [] xs).length := by
  have hkeys : ((firstsBy key [] xs).map key).toFinset = (xs.map key).toFinset := by
    ext k
    rw [List.mem_toFinset, List.mem_toFinset, mem_map_firstsBy]
    simp
  rw [← hkeys, List.toFinset_card_of_nodup (nodup_map_firstsBy key [] xs), List.length_map]

/-- Keys that tell the members of a list apart in the same way are equally many. -/
theorem card_map_congr {key : α → κ} {key' : α → κ'} {xs : List α}
    (hkeys : ∀ x ∈ xs, ∀ y ∈ xs, key x = key y ↔ key' x = key' y) :
    (xs.map key).toFinset.card = (xs.map key').toFinset.card := by
  have hnone : ∀ x ∈ xs, key x ∈ [] ↔ key' x ∈ [] := fun x _ => iff_of_false nofun nofun
  rw [card_map_eq_length_firstsBy, card_map_eq_length_firstsBy, firstsBy_congr hnone hkeys]

/-- Pairs are numbered by any other key that tells the same pairs apart. -/
theorem NumbersBy.congr {key : PhrasePair → κ} {key' : PhrasePair → κ'}
    {number : PhrasePair → Int} {size : Nat} {added : List PhrasePair}
    (h : NumbersBy key number size added)
    (hkeys : ∀ p ∈ added, ∀ q ∈ added, key p = key q ↔ key' p = key' q) :
    NumbersBy key' number size added where
  eq_iff p hp q hq := (h.eq_iff p hp q hq).trans (hkeys p hp q hq)
  eq_card := by
    rintro front back pair rfl hnew
    have hfront : ∀ p ∈ front, p ∈ front ++ pair :: back := fun p hp => List.mem_append_left _ hp
    have hpair : pair ∈ front ++ pair :: back := List.mem_append_right _ List.mem_cons_self
    rw [← card_map_congr fun p hp q hq => hkeys p (hfront p hp) q (hfront q hq)]
    refine h.eq_card front back pair rfl fun hold => hnew ?_
    obtain ⟨p, hp, heq⟩ := List.mem_map.1 hold
    exact List.mem_map.2 ⟨p, hp, (hkeys p (hfront p hp) pair hpair).1 heq⟩
  size_eq := h.size_eq.trans (card_map_congr hkeys)

/-- An index into which the keys of pairs were entered numbers the pairs by their keys. -/
theorem DenseIndex.numbersBy_insertKeys {start : DenseIndex κ} (hstart : start.toList = [])
    (key : PhrasePair → κ) (added : List PhrasePair) :
    NumbersBy key (fun pair => idOrUnassigned ((start.insertKeys (added.map key)).find? (key pair)))
      (start.insertKeys (added.map key)).size added where
  eq_iff p hp q hq :=
    idOrUnassigned_eq_iff (mem_insertKeys.2 (Or.inr (List.mem_map_of_mem hp)))
      (mem_insertKeys.2 (Or.inr (List.mem_map_of_mem hq)))
  eq_card := by
    rintro front back pair rfl hnew
    rw [List.map_append, List.map_cons]
    exact idOrUnassigned_of_find? (find?_insertKeys_of_not_mem hstart hnew _)
  size_eq := size_insertKeys hstart _

end Keys

namespace PhraseIndex

/-- What the numbers of an index say about the pairs that were added to it. Words and links play no
part in it. -/
structure NumbersPhrases (index : PhraseIndex) (added : List PhrasePair) : Prop where
  pairs : NumbersBy (fun pair => pair.symbols) (fun pair => (index.idsOf pair).pair)
    index.pairs.size added
  sources : NumbersBy (fun pair => pair.source) (fun pair => (index.idsOf pair).source)
    index.sources.size added
  targets : NumbersBy (fun pair => pair.target) (fun pair => (index.idsOf pair).target)
    index.targets.size added

/-- Pairs that are entered one after the other are numbered by their symbols. -/
theorem numbersPhrases_insertAll {added : List PhrasePair}
    (hsep : ∀ pair ∈ added, pairSeparator ∉ pair.source) :
    (empty.insertAll added).1.NumbersPhrases added := by
  rw [fst_insertAll]
  have hstart : empty.pairs.toList = [] := rfl
  have hkeys := DenseIndex.numbersBy_insertKeys hstart (fun pair => pair.pairKey) added
  exact
    { pairs := hkeys.congr fun p hp q hq => AlignedPair.pairKey_eq_iff (hsep p hp) (hsep q hq)
      sources := DenseIndex.numbersBy_insertKeys rfl (fun pair => pair.source) added
      targets := DenseIndex.numbersBy_insertKeys rfl (fun pair => pair.target) added }

end PhraseIndex

/-- The pair with these symbols and source words, and without links. -/
def PhrasePair.unlinked (source target : List Int) (sourceWords : List String) : PhrasePair :=
  { source, target, sourceWords, links := [], within := nofun, nodup := List.nodup_nil
    targetWords := [], ids := .unassigned }

/-! ## Histories of calls -/

/-- A call on a phrase index. -/
inductive IndexCall where
  | add (pair : PhrasePair)
  | lookUp (pair : PhrasePair)

/-- What a call gives back. -/
structure IndexAnswer where
  /-- The pair with its numbers. -/
  pair : PhrasePair
  /-- Whether a pair that was looked up has all its numbers. -/
  known : Option Bool

namespace IndexCall

/-- The pair that a call is about. -/
def pair : IndexCall → PhrasePair
  | .add pair => pair
  | .lookUp pair => pair

/-- The pair that a call adds, if it adds one. -/
def added? : IndexCall → Option PhrasePair
  | .add pair => some pair
  | .lookUp _ => none

/-- The pairs that calls add. -/
def added (calls : List IndexCall) : List PhrasePair :=
  calls.filterMap added?

/-- The pairs of later calls stand behind those of the first ones. -/
theorem added_append (front back : List IndexCall) :
    added (front ++ back) = added front ++ added back :=
  List.filterMap_append

/-- The pair of the first call stands in front. -/
theorem added_cons (call : IndexCall) (rest : List IndexCall) :
    added (call :: rest) = call.added?.toList ++ added rest := by
  cases call <;> rfl

/-- The separator is no source symbol of an added pair, if it is none of any call. -/
theorem separator_not_mem_added {calls : List IndexCall}
    (h : ∀ call ∈ calls, pairSeparator ∉ call.pair.source) :
    ∀ pair ∈ added calls, pairSeparator ∉ pair.source := by
  intro pair hpair
  obtain ⟨call, hcall, hadded⟩ := List.mem_filterMap.1 hpair
  have hsource := h call hcall
  cases call with
  | add other =>
    cases hadded
    exact hsource
  | lookUp other => cases hadded

/-- The index after a call, and the answer. -/
def perform (index : PhraseIndex) : IndexCall → PhraseIndex × IndexAnswer
  | .add pair =>
    let (index, pair) := index.insert pair
    (index, ⟨pair, none⟩)
  | .lookUp pair =>
    let (known, pair) := index.lookup pair
    (index, ⟨pair, some known⟩)

/-- The number of a key that was added, or the place of a missing number. -/
def numberIfAdded {κ : Type} [DecidableEq κ] (added : List κ) (key : κ) (number : Int) : Int :=
  if key ∈ added then number else unassignedId

/-- The answer to a call, told by the numbers that pairs have at the end of all calls and by the
pairs that were added before the call. -/
def answer (ids : PhrasePair → PhraseIds) (before : List PhrasePair) : IndexCall → IndexAnswer
  | .add pair => ⟨pair.withIds (ids pair), none⟩
  | .lookUp pair =>
    { pair := pair.withIds
        { pair := numberIfAdded (before.map fun other => other.symbols) pair.symbols (ids pair).pair
          source :=
            numberIfAdded (before.map fun other => other.source) pair.source (ids pair).source
          target :=
            numberIfAdded (before.map fun other => other.target) pair.target (ids pair).target }
      known := some (decide (pair.symbols ∈ before.map fun other => other.symbols)) }

end IndexCall

namespace PhraseIndex

/-- The index after some calls, and their answers. -/
def performAll (index : PhraseIndex) : List IndexCall → PhraseIndex × List IndexAnswer
  | [] => (index, [])
  | call :: rest =>
    let (index, answer) := call.perform index
    let (index, answers) := index.performAll rest
    (index, answer :: answers)

/-- Every call is answered. -/
theorem length_performAll (index : PhraseIndex) (calls : List IndexCall) :
    (index.performAll calls).2.length = calls.length := by
  induction calls generalizing index with
  | nil => rfl
  | cons call rest ih => exact congrArg (· + 1) (ih (call.perform index).1)

/-- Later calls find the index that the first ones have left. -/
theorem performAll_append (index : PhraseIndex) (front back : List IndexCall) :
    index.performAll (front ++ back) =
      (((index.performAll front).1.performAll back).1,
        (index.performAll front).2 ++ ((index.performAll front).1.performAll back).2) := by
  induction front generalizing index with
  | nil => rfl
  | cons call rest ih =>
    have hrest := ih (call.perform index).1
    show (((call.perform index).1.performAll (rest ++ back)).1,
      (call.perform index).2 :: ((call.perform index).1.performAll (rest ++ back)).2) = _
    rw [hrest]
    rfl

/-- Look-ups add nothing. -/
theorem fst_performAll (index : PhraseIndex) (calls : List IndexCall) :
    (index.performAll calls).1 = (index.insertAll (IndexCall.added calls)).1 := by
  induction calls generalizing index with
  | nil => rfl
  | cons call rest ih =>
    cases call with
    | add pair => exact ih (index.insert pair).1
    | lookUp pair => exact ih index

/-! ## Answers -/

section Answers

variable {before : List PhrasePair} {pair : PhrasePair}

/-- Whether a pair was entered before is seen in its symbols. -/
theorem pairKey_mem_map_iff (hsep : ∀ p ∈ pair :: before, pairSeparator ∉ p.source) :
    pair.pairKey ∈ before.map (fun other => other.pairKey) ↔
      pair.symbols ∈ before.map fun other => other.symbols := by
  obtain ⟨hpair, hbefore⟩ := List.forall_mem_cons.1 hsep
  rw [List.mem_map, List.mem_map]
  apply exists_congr
  intro other
  apply and_congr_right
  intro hother
  exact AlignedPair.pairKey_eq_iff (hbefore other hother) hpair

/-- A pair that was added is added with the number that it has at the end. -/
theorem perform_add (pair : PhrasePair) (before after : List PhrasePair) :
    ((IndexCall.add pair).perform (empty.insertAll before).1).2 =
      (IndexCall.add pair).answer (empty.insertAll (before ++ pair :: after)).1.idsOf before := by
  have hids : (empty.insertAll (before ++ pair :: after)).1.idsOf pair =
      ((empty.insertAll before).1.insert pair).1.idsOf pair := by
    rw [fst_insertAll_append]
    exact (extends_insertAll _ after).idsOf (has_insert _ pair)
  have hsnd := (empty.insertAll before).1.snd_insert pair
  rw [← hids] at hsnd
  exact congrArg (IndexAnswer.mk · none) hsnd

/-- A pair and its phrases have numbers just when they were entered before. -/
theorem nonneg_idsOf_iff (hsep : ∀ p ∈ pair :: before, pairSeparator ∉ p.source) :
    (0 ≤ ((empty.insertAll before).1.idsOf pair).pair ↔
        pair.symbols ∈ before.map fun other => other.symbols) ∧
      (0 ≤ ((empty.insertAll before).1.idsOf pair).source ↔
        pair.source ∈ before.map fun other => other.source) ∧
      (0 ≤ ((empty.insertAll before).1.idsOf pair).target ↔
        pair.target ∈ before.map fun other => other.target) := by
  rw [fst_insertAll, ← pairKey_mem_map_iff hsep]
  have hpart (keys : List (List Int)) (key : List Int) :
      0 ≤ idOrUnassigned (((DenseIndex.empty Hash.ints 16).insertKeys keys).find? key) ↔
        key ∈ keys := by
    rw [DenseIndex.idOrUnassigned_nonneg_iff, DenseIndex.mem_insertKeys, DenseIndex.toList_empty]
    simp
  exact ⟨hpart _ _, hpart _ _, hpart _ _⟩

/-- A pair with a number of its own has numbers for both of its phrases. -/
theorem nonneg_ids_of_pair (hsep : ∀ p ∈ pair :: before, pairSeparator ∉ p.source)
    (h : 0 ≤ ((empty.insertAll before).1.idsOf pair).pair) :
    0 ≤ ((empty.insertAll before).1.idsOf pair).source ∧
      0 ≤ ((empty.insertAll before).1.idsOf pair).target := by
  obtain ⟨hpair, hsource, htarget⟩ := nonneg_idsOf_iff hsep
  obtain ⟨other, hother, heq⟩ := List.mem_map.1 (hpair.1 h)
  exact ⟨hsource.2 (List.mem_map.2 ⟨other, hother, congrArg Prod.fst heq⟩),
    htarget.2 (List.mem_map.2 ⟨other, hother, congrArg Prod.snd heq⟩)⟩

/-- Of a pair that is looked up, those numbers are found that were given before. -/
theorem perform_lookUp (hsep : ∀ p ∈ pair :: before, pairSeparator ∉ p.source)
    (after : List PhrasePair) :
    ((IndexCall.lookUp pair).perform (empty.insertAll before).1).2 =
      (IndexCall.lookUp pair).answer (empty.insertAll (before ++ after)).1.idsOf before := by
  have hids : (empty.insertAll before).1.idsOf pair =
      ((IndexCall.lookUp pair).answer (empty.insertAll (before ++ after)).1.idsOf
        before).pair.ids := by
    have hstart : (DenseIndex.empty Hash.ints 16).toList = [] := rfl
    have hpart := DenseIndex.idOrUnassigned_insertKeys hstart
    unfold IndexCall.answer IndexCall.numberIfAdded idsOf PhrasePair.withIds
    rw [fst_insertAll, fst_insertAll]
    simp only [List.map_append, ← pairKey_mem_map_iff hsep]
    exact congr (congr (congrArg PhraseIds.mk (hpart _ _ _)) (hpart _ _ _)) (hpart _ _ _)
  have hknown : decide (0 ≤ ((empty.insertAll before).1.idsOf pair).pair ∧
      0 ≤ ((empty.insertAll before).1.idsOf pair).source ∧
      0 ≤ ((empty.insertAll before).1.idsOf pair).target) =
      decide (pair.symbols ∈ before.map fun other => other.symbols) := by
    rw [decide_eq_decide, ← (nonneg_idsOf_iff hsep).1]
    exact ⟨And.left, fun h => ⟨h, nonneg_ids_of_pair hsep h⟩⟩
  unfold IndexCall.perform lookup
  dsimp only
  rw [hknown, hids]
  rfl

/-- A call is answered by the numbers of the end and by what was added before it. -/
theorem perform_eq_answer {call : IndexCall}
    (hsep : ∀ p ∈ call.pair :: before, pairSeparator ∉ p.source) (after : List PhrasePair) :
    (call.perform (empty.insertAll before).1).2 =
      call.answer (empty.insertAll (before ++ (call.added?.toList ++ after))).1.idsOf before := by
  cases call with
  | add pair => exact perform_add pair before after
  | lookUp pair => exact perform_lookUp hsep after

/-- A call that gives a pair a number gives numbers to both of its phrases. -/
theorem nonneg_ids_perform {call : IndexCall}
    (hsep : ∀ p ∈ call.pair :: before, pairSeparator ∉ p.source)
    (h : 0 ≤ (call.perform (empty.insertAll before).1).2.pair.ids.pair) :
    0 ≤ (call.perform (empty.insertAll before).1).2.pair.ids.source ∧
      0 ≤ (call.perform (empty.insertAll before).1).2.pair.ids.target := by
  cases call with
  | add pair =>
    obtain ⟨hpair, hbefore⟩ := List.forall_mem_cons.1 hsep
    have hall : ∀ p ∈ pair :: (before ++ [pair]), pairSeparator ∉ p.source :=
      List.forall_mem_cons.2
        ⟨hpair, List.forall_mem_append.2 ⟨hbefore, List.forall_mem_singleton.2 hpair⟩⟩
    have hsnd := (empty.insertAll before).1.snd_insert pair
    have hinsert : ((empty.insertAll before).1.insert pair).1 =
        (empty.insertAll (before ++ [pair])).1 := (fst_insertAll_append empty before [pair]).symm
    rw [hinsert] at hsnd
    unfold IndexCall.perform at h ⊢
    dsimp only at h ⊢
    rw [hsnd] at h ⊢
    exact nonneg_ids_of_pair hall h
  | lookUp pair => exact nonneg_ids_of_pair hsep h

end Answers

/-- **Numbers stand for phrases.** In every history of additions and look-ups, pairs are numbered 0,
1, 2, … in the order in which their symbols were first added, and so are their source and their
target phrases. An addition gives a pair the numbers that it has at the end. A look-up adds nothing;
it gives a pair those numbers of phrases that were added before, finds the pair just if it was added
itself, and never without its phrases. -/
theorem numbersPhrases_performAll {calls : List IndexCall}
    (hsep : ∀ call ∈ calls, pairSeparator ∉ call.pair.source) :
    (empty.performAll calls).1 = (empty.insertAll (IndexCall.added calls)).1 ∧
      (empty.performAll calls).1.NumbersPhrases (IndexCall.added calls) ∧
      (empty.performAll calls).2.length = calls.length ∧
      ∀ (front back : List IndexCall) (call : IndexCall), calls = front ++ call :: back →
        ∃ answer : IndexAnswer, (empty.performAll calls).2[front.length]? = some answer ∧
          answer = call.answer (empty.performAll calls).1.idsOf (IndexCall.added front) ∧
          (0 ≤ answer.pair.ids.pair →
            0 ≤ answer.pair.ids.source ∧ 0 ≤ answer.pair.ids.target) := by
  refine ⟨fst_performAll empty calls, ?_, length_performAll empty calls, ?_⟩
  · rw [fst_performAll]
    exact numbersPhrases_insertAll (IndexCall.separator_not_mem_added hsep)
  · rintro front back call rfl
    obtain ⟨hfront, hrest⟩ := List.forall_mem_append.1 hsep
    have hbefore : ∀ p ∈ call.pair :: IndexCall.added front, pairSeparator ∉ p.source :=
      List.forall_mem_cons.2
        ⟨(List.forall_mem_cons.1 hrest).1, IndexCall.separator_not_mem_added hfront⟩
    have hlength := length_performAll empty front
    refine ⟨(call.perform (empty.insertAll (IndexCall.added front)).1).2, ?_, ?_,
      nonneg_ids_perform hbefore⟩
    · rw [performAll_append, List.getElem?_append_right (by omega), hlength, Nat.sub_self,
        ← fst_performAll]
      rfl
    · rw [perform_eq_answer hbefore (IndexCall.added back), fst_performAll, IndexCall.added_append,
        IndexCall.added_cons]

/-- A word that moves from one phrase to the other makes another pair, and other words do not. -/
theorem numbersPhrases_performAll_moved_word :
    ∃ calls : List IndexCall,
      calls = [.lookUp (.unlinked [1] [2, -1] []), .add (.unlinked [1] [2, -1] ["a"]),
        .add (.unlinked [1, 2] [-1] []), .add (.unlinked [1] [2, -1] ["b"]),
        .lookUp (.unlinked [1] [-1] []), .lookUp (.unlinked [] [] [])] ∧
      (∀ call ∈ calls, pairSeparator ∉ call.pair.source) ∧
      (empty.performAll calls).2.map (fun answer => (answer.pair.ids, answer.known)) =
        [(⟨-1, -1, -1⟩, some false), (⟨0, 0, 0⟩, none), (⟨1, 1, 1⟩, none), (⟨0, 0, 0⟩, none),
          (⟨-1, 0, 1⟩, some false), (⟨-1, -1, -1⟩, some false)] ∧
      (empty.performAll calls).1.NumbersPhrases (IndexCall.added calls) := by
  refine ⟨_, rfl, ?_⟩
  have hsep : ∀ call ∈ [IndexCall.lookUp (.unlinked [1] [2, -1] []),
      .add (.unlinked [1] [2, -1] ["a"]), .add (.unlinked [1, 2] [-1] []),
      .add (.unlinked [1] [2, -1] ["b"]), .lookUp (.unlinked [1] [-1] []),
      .lookUp (.unlinked [] [] [])], pairSeparator ∉ call.pair.source := by decide
  exact ⟨hsep, by decide, (numbersPhrases_performAll hsep).2.1⟩

end PhraseIndex

end PhraseTable
