import PhraseTable.Proofs.Run.PhraseAccounts

/-!
# First occurrences, number by number

A run finds the first occurrence of every pair by its number. The keys of the index stand in the
order of their numbers, and each of them belongs to some pair, so the first occurrences are what a
search for each of these keys finds (`Numbered.firstOccurrences_eq_keys`). Up to their order they
are the first occurrences by key (`Numbered.perm_firstOccurrences`), and their own order is the one
in which keys came to the index (`map_pairKey_firstOccurrences`). If all pairs came in turn, it is
the order of the file (`firstOccurrences_inTurn`).
-/

set_option autoImplicit false

namespace PhraseTable.Run

namespace PassState

variable {state : PassState}

/-- The pairs with the number of a key are those that have the key. -/
theorem Numbered.toNat_id_eq_iff (h : state.Numbered) {id : Nat} {key : List Int}
    (hkey : state.index.pairs.toList[id]? = some key) {pair : PhrasePair}
    (hpair : pair ∈ state.pairs) : pair.ids.pair.toNat = id ↔ pair.pairKey = key := by
  obtain ⟨i, -, hi⟩ := DenseIndex.exists_find? (h.has pair hpair).key_mem
  have hid : pair.ids.pair = i := by
    rw [h.ids_eq pair hpair]
    exact idOrUnassigned_of_find? hi
  rw [hid, Int.toNat_natCast]
  constructor
  · rintro rfl
    rw [DenseIndex.find?_eq_some_iff, hkey] at hi
    exact (Option.some.inj hi).symm
  · rintro rfl
    rw [← DenseIndex.find?_eq_some_iff, hi] at hkey
    exact Option.some.inj hkey

/-- The first occurrences are what a search for each key of the index finds. -/
theorem Numbered.firstOccurrences_eq_keys (h : state.Numbered) :
    state.firstOccurrences = state.index.pairs.toList.filterMap fun key =>
      state.pairs.find? fun pair => pair.pairKey = key := by
  rw [firstOccurrences_eq, filterMap_eq_range _ state.index.pairs.toList,
    DenseIndex.length_toList]
  apply List.filterMap_congr
  intro id hid
  have hlt : id < state.index.pairs.toList.length := by
    rw [DenseIndex.length_toList]
    exact List.mem_range.1 hid
  have hkey := List.getElem?_eq_getElem hlt
  rw [hkey, Option.bind_some]
  apply List.find?_congr
  intro pair hpair
  rw [decide_eq_decide]
  exact h.toNat_id_eq_iff hkey hpair

/-- The first occurrences have the keys of the index, in the order of their numbers. -/
theorem Numbered.map_pairKey_firstOccurrences (h : state.Numbered) :
    (state.firstOccurrences.map fun pair => pair.pairKey) = state.index.pairs.toList := by
  rw [h.firstOccurrences_eq_keys, List.map_filterMap]
  refine (List.filterMap_congr fun key hkey => ?_).trans List.filterMap_some
  obtain ⟨pair, hpair, hsame⟩ := List.mem_map.1 (h.keys_subset key hkey)
  cases hfind : state.pairs.find? fun pair => pair.pairKey = key with
  | none =>
    have hnone := List.find?_eq_none.1 hfind pair hpair
    exact absurd (decide_eq_true hsame) hnone
  | some found =>
    have hfound := List.find?_some hfind
    exact congrArg some (of_decide_eq_true hfound)

/-- The number of a first occurrence is how many of them stand before it. -/
theorem Numbered.ids_firstOccurrences (h : state.Numbered) {i : Nat} {pair : PhrasePair}
    (hi : state.firstOccurrences[i]? = some pair) : pair.ids.pair = i := by
  have hpair : pair ∈ state.pairs := mem_of_mem_firstOccurrences (List.mem_of_getElem? hi)
  have hkey : state.index.pairs.toList[i]? = some pair.pairKey := by
    rw [← h.map_pairKey_firstOccurrences, List.getElem?_map, hi]
    rfl
  rw [h.ids_eq pair hpair]
  exact idOrUnassigned_of_find? (DenseIndex.find?_eq_some_iff.2 hkey)

/-- The index has the keys of the pairs and no others. -/
theorem Numbered.mem_keys_iff (h : state.Numbered) {key : List Int} :
    key ∈ state.index.pairs.toList ↔ key ∈ state.pairs.map fun pair => pair.pairKey := by
  constructor
  · exact h.keys_subset key
  · intro hkey
    obtain ⟨pair, hpair, rfl⟩ := List.mem_map.1 hkey
    exact (h.has pair hpair).key_mem

/-- Up to their order, the pairs that are found by number are the first ones with their keys. -/
theorem Numbered.perm_firstOccurrences (h : state.Numbered) :
    state.firstOccurrences.Perm (firstsBy (fun pair => pair.pairKey) [] state.pairs) := by
  rw [h.firstOccurrences_eq_keys, firstsBy_eq_filterMap]
  apply List.Perm.filterMap
  apply (List.perm_ext_iff_of_nodup (DenseIndex.nodup_toList _) (nodup_map_firstsBy _ _ _)).2
  intro key
  rw [mem_map_firstsBy, and_iff_left List.not_mem_nil]
  exact h.mem_keys_iff

/-- Where the keys stand in the order of the file, so do the pairs that are found by number. -/
theorem Numbered.firstOccurrences_eq_firstsBy (h : state.Numbered)
    (hkeys : state.index.pairs.toList =
      (firstsBy (fun pair => pair.pairKey) [] state.pairs).map fun pair => pair.pairKey) :
    state.firstOccurrences = firstsBy (fun pair => pair.pairKey) [] state.pairs := by
  rw [h.firstOccurrences_eq_keys, hkeys]
  exact (firstsBy_eq_filterMap _ _).symm

end PassState

/-! ## After the last pass -/

/-- The keys of the pairs that come to the index are told by the pairs that were numbered. -/
theorem map_pairKey_arrivals (config : Config) (schedule : Schedule)
    (sentences : List SentencePair) (pairs : List PhrasePair) :
    ((schedule.arrivals (finalState config schedule sentences pairs).pairs).map fun pair =>
      pair.pairKey) = (schedule.arrivals pairs).map fun pair => pair.pairKey := by
  rw [pairs_finalState, Schedule.arrivals_map, List.map_map]
  rfl

/-- The index has the keys in the order in which they first came to it. -/
theorem toList_index_finalState (config : Config) (schedule : Schedule)
    (sentences : List SentencePair) (pairs : List PhrasePair) :
    (finalState config schedule sentences pairs).index.pairs.toList =
      firstsBy id [] ((schedule.arrivals pairs).map fun pair => pair.pairKey) := by
  rw [index_finalState, PhraseIndex.fst_insertAll]
  exact DenseIndex.toList_insertKeys _ _

/-- They are the keys of the pairs that were the first ones to come with them. -/
theorem keys_finalState (config : Config) (schedule : Schedule) (sentences : List SentencePair)
    (pairs : List PhrasePair) :
    (finalState config schedule sentences pairs).index.pairs.toList =
      (firstsBy (fun pair => pair.pairKey) []
        (schedule.arrivals (finalState config schedule sentences pairs).pairs)).map
          fun pair => pair.pairKey := by
  rw [map_firstsBy, map_pairKey_arrivals, toList_index_finalState]

/-- Pairs that come in turn are found in the order of the file. -/
theorem firstOccurrences_inTurn {schedule : Schedule} (h : schedule.phrases = [])
    (config : Config) (sentences : List SentencePair) (pairs : List PhrasePair) :
    (finalState config schedule sentences pairs).firstOccurrences =
      firstsBy (fun pair => pair.pairKey) []
        (finalState config schedule sentences pairs).pairs := by
  apply (numbered_finalState config schedule sentences pairs).firstOccurrences_eq_firstsBy
  have hkeys := keys_finalState config schedule sentences pairs
  unfold Schedule.arrivals at hkeys
  rwa [h] at hkeys

end PhraseTable.Run
