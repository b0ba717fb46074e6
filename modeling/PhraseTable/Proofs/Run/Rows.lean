import PhraseTable.Proofs.Run.FirstOccurrences

/-!
# The rows of a table

A table has one row for every accepted pair of phrases, and the rows stand in the order in which
the pairs came to the index: with one thread, in the order in which they first occur in the phrase
file. The run finds the first occurrences by number. `FirstFound` says that it finds the right ones:
each number belongs to the first of the pairs with its symbols, and the table of places that is
filled number by number has no gap.
-/

set_option autoImplicit false

namespace PhraseTable.Run

/-- Scoring keeps the pairs that have scores, in their order. -/
theorem value_scorePairs (counts : Counts) (config : Config) (pairs : List PhrasePair) :
    (scorePairs counts config pairs).value =
      pairs.filterMap fun pair => (counts.score config pair).value.map (Row.mk pair) := by
  induction pairs with
  | nil => rfl
  | cons pair rest ih =>
    have hcons : (scorePairs counts config (pair :: rest)).value =
        addRow pair (counts.score config pair).value (scorePairs counts config rest).value := rfl
    rw [hcons, ih, List.filterMap_cons]
    cases (counts.score config pair).value <;> rfl

/-- Where every member is mapped to something, nothing is left out. -/
theorem map_some_filterMap {α β : Type} {f : α → Option β} {xs : List α}
    (h : ∀ x ∈ xs, (f x).isSome) : (xs.filterMap f).map some = xs.map f := by
  induction xs with
  | nil => rfl
  | cons x rest ih =>
    obtain ⟨y, hy⟩ := Option.isSome_iff_exists.1 (h x List.mem_cons_self)
    rw [List.filterMap_cons_some hy, List.map_cons, List.map_cons, hy,
      ih fun other hother => h other (List.mem_cons_of_mem x hother)]

namespace PassState

/-- The different pairs are found by their numbers. -/
structure FirstFound (state : PassState) : Prop where
  in_range : ∀ pair ∈ state.pairs,
    0 ≤ pair.ids.pair ∧ pair.ids.pair < (state.index.pairs.size : Int)
  /-- The table has a place for every number, and the first occurrences stand at these places. -/
  places : ∃ places : List Nat,
    places.length = state.index.pairs.size ∧ state.firstPlaces.toList = places.map some ∧
      places.map (fun place => state.pairs[place]?) = state.firstOccurrences.map some
  /-- Every number is that of a first occurrence. -/
  ids_eq : ∀ (i : Nat) (pair : PhrasePair), state.firstOccurrences[i]? = some pair →
    pair.ids.pair = (i : Int)
  same_ids : ∀ p ∈ state.pairs, ∀ q ∈ state.pairs, p.ids.pair = q.ids.pair ↔ p.symbols = q.symbols
  /-- Up to their order these are the different pairs, each where it occurs first. -/
  perm_distinct : state.firstOccurrences.Perm state.distinct
  nodup : (state.distinct.map fun pair => pair.symbols).Nodup
  mem_distinct : ∀ pair ∈ state.pairs, pair.symbols ∈ state.distinct.map fun pair => pair.symbols

variable {state : PassState}

/-- Numbers tell pairs apart as their symbols do. -/
theorem Numbered.same_ids_iff (h : state.Numbered) (hsep : state.Separated)
    {p q : PhrasePair} (hp : p ∈ state.pairs) (hq : q ∈ state.pairs) :
    p.ids.pair = q.ids.pair ↔ p.symbols = q.symbols := by
  have hkeys := idOrUnassigned_eq_iff (h.has p hp).key_mem (h.has q hq).key_mem
  rw [AlignedPair.pairKey_eq_iff (hsep p hp) (hsep q hq)] at hkeys
  rw [h.ids_eq p hp, h.ids_eq q hq]
  exact hkeys

/-- The numbers of pairs are those that the index has given. -/
theorem Numbered.in_range (h : state.Numbered) {pair : PhrasePair} (hpair : pair ∈ state.pairs) :
    0 ≤ pair.ids.pair ∧ pair.ids.pair < (state.index.pairs.size : Int) := by
  obtain ⟨i, hlt, hi⟩ := DenseIndex.exists_find? (h.has pair hpair).key_mem
  have hid : pair.ids.pair = i := by
    rw [h.ids_eq pair hpair]
    exact idOrUnassigned_of_find? hi
  omega

/-- Keys and symbols have the same first occurrences. -/
theorem Separated.firstsBy_pairKey {pairs : List PhrasePair}
    (hsep : ∀ pair ∈ pairs, pairSeparator ∉ pair.source) :
    firstsBy (fun pair => pair.pairKey) [] pairs =
      firstsBy (fun pair => pair.symbols) [] pairs := by
  apply firstsBy_congr
  · intro pair _
    exact iff_of_false nofun nofun
  · intro p hp q hq
    exact AlignedPair.pairKey_eq_iff (hsep p hp) (hsep q hq)

/-- The table of places has no gap, and at its places stand the first occurrences. -/
theorem Numbered.exists_places (h : state.Numbered) : ∃ places : List Nat,
    places.length = state.index.pairs.size ∧ state.firstPlaces.toList = places.map some ∧
      places.map (fun place => state.pairs[place]?) = state.firstOccurrences.map some := by
  have hplaces : ∀ place ∈ state.firstPlaces.toList,
      (place.bind fun place => state.pairs[place]?).isSome := by
    intro place hplace
    obtain ⟨id, hid⟩ := List.getElem?_of_mem hplace
    have hlt : id < state.index.pairs.size := by
      rw [← size_firstPlaces, ← Array.length_toList]
      exact (List.getElem?_eq_some_iff.1 hid).1
    have hread := state.bind_firstPlaces hlt
    rw [← Array.getElem?_toList, hid, Option.bind_some] at hread
    rw [hread, List.find?_isSome]
    -- the key with this number is the key of some pair
    have hkey := List.getElem?_eq_getElem (l := state.index.pairs.toList) (i := id)
      (by rwa [DenseIndex.length_toList])
    obtain ⟨pair, hpair, hsame⟩ := List.mem_map.1 (h.keys_subset _ (List.mem_of_getElem? hkey))
    exact ⟨pair, hpair, decide_eq_true ((h.toNat_id_eq_iff hkey hpair).2 hsame)⟩
  have hfilled : ∀ place ∈ state.firstPlaces.toList, (id place).isSome := by
    intro place hplace
    exact Option.isSome_of_isSome_bind (hplaces place hplace)
  have hsome : (state.firstPlaces.toList.filterMap id).map some = state.firstPlaces.toList :=
    (map_some_filterMap hfilled).trans (List.map_id _)
  have hfirst : state.firstOccurrences = state.firstPlaces.toList.filterMap fun place =>
      place.bind fun place => state.pairs[place]? := by
    unfold firstOccurrences
    simp only [List.getElem?_toArray]
  refine ⟨state.firstPlaces.toList.filterMap id, ?_, hsome.symm, ?_⟩
  · rw [← size_firstPlaces, ← Array.length_toList, ← congrArg List.length hsome, List.length_map]
  · rw [hfirst, map_some_filterMap hplaces]
    conv_rhs => rw [← hsome, List.map_map]
    rfl

end PassState

variable {config : Config} {schedule : Schedule} {sentences : List SentencePair}
  {pairs : List PhrasePair}

/-- After the last pass, the different pairs are found by their numbers. -/
theorem firstFound_finalState
    (hsep : (finalState config schedule sentences pairs).Separated) :
    (finalState config schedule sentences pairs).FirstFound := by
  have hnumbered := numbered_finalState config schedule sentences pairs
  have hperm := hnumbered.perm_firstOccurrences
  rw [PassState.Separated.firstsBy_pairKey hsep] at hperm
  refine
    { in_range := fun pair hpair => hnumbered.in_range hpair
      places := hnumbered.exists_places
      ids_eq := fun i pair hpair => hnumbered.ids_firstOccurrences hpair
      same_ids := fun p hp q hq => hnumbered.same_ids_iff hsep hp hq
      perm_distinct := hperm
      nodup := nodup_map_firstsBy _ _ _
      mem_distinct := ?_ }
  intro pair hpair
  exact mem_map_firstsBy.2 ⟨List.mem_map_of_mem hpair, nofun⟩

end PhraseTable.Run
