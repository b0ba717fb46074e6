import PhraseTable.Phrase.Index
import PhraseTable.Proofs.DenseIndex
import PhraseTable.Proofs.Reorder

/-!
# Numbers and first occurrences

`insertAll` gives every pair the numbers that it has in the index at the end (`snd_insertAll`), and
numbers the keys of pairs in the order in which they first come to it (`toList_insertKeys`).

A run finds the first occurrence of every pair by its number: it fills a table of places
(`getElem?_firstPlaces`), and the pairs at these places are those that a search for each number
finds first (`firstOccurrences_eq`). `firstsBy` are the first occurrences by key, and a search for
each key finds the same (`firstsBy_eq_filterMap`).

Two pairs have the same key just if they have the same symbols, as long as the separator is no
symbol of their source phrases: `pairKey_eq_iff`.
-/

set_option autoImplicit false

namespace PhraseTable

/-! ## Keys of pairs -/

namespace AlignedPair

/-- The symbols of both phrases. -/
def symbols (pair : AlignedPair) : List Int × List Int :=
  (pair.source, pair.target)

/-- The source symbols are the part of the key before its first separator. -/
theorem takeWhile_pairKey {pair : AlignedPair} (h : pairSeparator ∉ pair.source) :
    pair.pairKey.takeWhile (· ≠ pairSeparator) = pair.source := by
  have hall : ∀ symbol ∈ pair.source, decide (symbol ≠ pairSeparator) = true := by
    intro symbol hmem
    exact decide_eq_true fun heq => h (heq ▸ hmem)
  unfold pairKey
  rw [List.takeWhile_append_of_pos hall]
  simp

/-- Pairs have one key just when they have the same symbols, if the separator is no source
symbol. -/
theorem pairKey_eq_iff {p q : AlignedPair} (hp : pairSeparator ∉ p.source)
    (hq : pairSeparator ∉ q.source) : p.pairKey = q.pairKey ↔ p.symbols = q.symbols := by
  constructor
  · intro h
    have hsource : p.source = q.source := by
      rw [← takeWhile_pairKey hp, h, takeWhile_pairKey hq]
    unfold pairKey at h
    rw [hsource, List.append_cancel_left_eq, List.cons.injEq] at h
    exact Prod.ext hsource h.2
  · intro h
    have hsource : p.source = q.source := congrArg Prod.fst h
    have htarget : p.target = q.target := congrArg Prod.snd h
    unfold pairKey
    rw [hsource, htarget]

end AlignedPair

/-! ## First occurrences by key -/

section FirstsBy

variable {α κ κ' : Type} [DecidableEq κ] [DecidableEq κ']

/-- The members of a list whose key has not been seen before them. -/
def firstsBy (key : α → κ) (seen : List κ) : List α → List α
  | [] => []
  | x :: rest =>
    if key x ∈ seen then firstsBy key seen rest else x :: firstsBy key (key x :: seen) rest

/-- The first members are taken from the list as they stand. -/
theorem firstsBy_sublist (key : α → κ) (seen : List κ) (xs : List α) :
    (firstsBy key seen xs).Sublist xs := by
  induction xs generalizing seen with
  | nil => exact List.Sublist.refl _
  | cons x rest ih =>
    unfold firstsBy
    split
    · exact (ih seen).cons x
    · exact (ih (key x :: seen)).cons_cons x

/-- The keys that are left are those that were not seen at first. -/
theorem mem_map_firstsBy {key : α → κ} {seen : List κ} {xs : List α} {k : κ} :
    k ∈ (firstsBy key seen xs).map key ↔ k ∈ xs.map key ∧ k ∉ seen := by
  induction xs generalizing seen with
  | nil => simp [firstsBy]
  | cons x rest ih =>
    unfold firstsBy
    split
    · rename_i hseen
      rw [ih, List.map_cons, List.mem_cons]
      constructor
      · rintro ⟨hmem, hnot⟩
        exact ⟨Or.inr hmem, hnot⟩
      · rintro ⟨rfl | hmem, hnot⟩
        · exact absurd hseen hnot
        · exact ⟨hmem, hnot⟩
    · rename_i hnew
      rw [List.map_cons, List.mem_cons, ih, List.map_cons, List.mem_cons, List.mem_cons, not_or]
      constructor
      · rintro (rfl | ⟨hmem, -, hnot⟩)
        · exact ⟨Or.inl rfl, hnew⟩
        · exact ⟨Or.inr hmem, hnot⟩
      · rintro ⟨rfl | hmem, hnot⟩
        · exact Or.inl rfl
        · by_cases hx : k = key x
          · exact Or.inl hx
          · exact Or.inr ⟨hmem, hx, hnot⟩

/-- No key occurs twice among the first members. -/
theorem nodup_map_firstsBy (key : α → κ) (seen : List κ) (xs : List α) :
    ((firstsBy key seen xs).map key).Nodup := by
  induction xs generalizing seen with
  | nil => exact List.nodup_nil
  | cons x rest ih =>
    unfold firstsBy
    split
    · exact ih seen
    · rw [List.map_cons, List.nodup_cons, mem_map_firstsBy]
      exact ⟨fun h => h.2 List.mem_cons_self, ih _⟩

/-- Keys that tell the members of a list apart in the same way have the same first occurrences. -/
theorem firstsBy_congr {key : α → κ} {key' : α → κ'} {seen : List κ} {seen' : List κ'}
    {xs : List α} (hseen : ∀ x ∈ xs, key x ∈ seen ↔ key' x ∈ seen')
    (hkeys : ∀ x ∈ xs, ∀ y ∈ xs, key x = key y ↔ key' x = key' y) :
    firstsBy key seen xs = firstsBy key' seen' xs := by
  induction xs generalizing seen seen' with
  | nil => rfl
  | cons x rest ih =>
    have hrest : ∀ y ∈ rest, ∀ z ∈ rest, key y = key z ↔ key' y = key' z := by
      intro y hy z hz
      exact hkeys y (List.mem_cons_of_mem x hy) z (List.mem_cons_of_mem x hz)
    unfold firstsBy
    by_cases hx : key x ∈ seen
    · rw [if_pos hx, if_pos ((hseen x List.mem_cons_self).1 hx)]
      exact ih (fun y hy => hseen y (List.mem_cons_of_mem x hy)) hrest
    · rw [if_neg hx, if_neg fun h => hx ((hseen x List.mem_cons_self).2 h)]
      congr 1
      apply ih _ hrest
      intro y hy
      rw [List.mem_cons, List.mem_cons, hseen y (List.mem_cons_of_mem x hy),
        hkeys y (List.mem_cons_of_mem x hy) x List.mem_cons_self]

/-- A first occurrence is found by its key. -/
theorem find?_of_mem_firstsBy {key : α → κ} {seen : List κ} {xs : List α} {x : α}
    (h : x ∈ firstsBy key seen xs) : xs.find? (fun y => key y = key x) = some x := by
  induction xs generalizing seen with
  | nil => cases h
  | cons y rest ih =>
    have hskip (seen : List κ) (hmem : x ∈ firstsBy key seen rest) (hy : key y ∈ seen) :
        key y ≠ key x := by
      intro heq
      rw [heq] at hy
      exact (mem_map_firstsBy.1 (List.mem_map_of_mem hmem)).2 hy
    unfold firstsBy at h
    split at h
    · rename_i hseen
      rw [List.find?_cons_of_neg (by simpa using hskip seen h hseen)]
      exact ih h
    · rcases List.mem_cons.1 h with rfl | hrest
      · exact List.find?_cons_of_pos (by simp)
      · have hne := hskip _ hrest List.mem_cons_self
        rw [List.find?_cons_of_neg (by simpa using hne)]
        exact ih hrest

/-- The first occurrences are what a search for each of their keys finds. -/
theorem firstsBy_eq_filterMap (key : α → κ) (xs : List α) :
    firstsBy key [] xs =
      ((firstsBy key [] xs).map key).filterMap fun k => xs.find? fun x => key x = k := by
  rw [List.filterMap_map]
  conv_lhs => rw [← List.filterMap_some (l := firstsBy key [] xs)]
  exact List.filterMap_congr fun x hx => (find?_of_mem_firstsBy hx).symm

/-- The keys of the first occurrences are the first occurrences of the keys. -/
theorem map_firstsBy (key : α → κ) (seen : List κ) (xs : List α) :
    (firstsBy key seen xs).map key = firstsBy id seen (xs.map key) := by
  induction xs generalizing seen with
  | nil => rfl
  | cons x rest ih =>
    rw [List.map_cons]
    unfold firstsBy
    rw [id_eq]
    split
    · exact ih seen
    · rw [List.map_cons, ih]

end FirstsBy

/-- Keys that are entered are numbered in the order in which they first come. -/
theorem DenseIndex.toList_insertKeys {κ : Type} [DecidableEq κ] (index : DenseIndex κ)
    (keys : List κ) :
    (index.insertKeys keys).toList = index.toList ++ firstsBy id index.toList keys := by
  induction keys generalizing index with
  | nil => exact (List.append_nil _).symm
  | cons key rest ih =>
    have hcons : index.insertKeys (key :: rest) = (index.insert key).1.insertKeys rest := rfl
    rw [hcons, ih, toList_insert, firstsBy, id_eq]
    split
    · rfl
    · rw [List.append_assoc]
      have hsame : firstsBy id (index.toList ++ [key]) rest =
          firstsBy id (key :: index.toList) rest := by
        apply firstsBy_congr
        · intro other _
          rw [List.mem_append, List.mem_singleton, List.mem_cons, or_comm]
        · intro p _ q _
          exact Iff.rfl
      rw [hsame]
      rfl

/-! ## Numbers from an index -/

/-- What was found has its own number. -/
theorem idOrUnassigned_of_find? {α : Type} [DecidableEq α] {index : DenseIndex α} {key : α}
    {id : Nat} (h : index.find? key = some id) : idOrUnassigned (index.find? key) = id := by
  rw [h]
  rfl

/-- Keys that are in an index have the same number just if they are equal. -/
theorem idOrUnassigned_eq_iff {α : Type} [DecidableEq α] {index : DenseIndex α} {key key' : α}
    (h : key ∈ index.toList) (h' : key' ∈ index.toList) :
    idOrUnassigned (index.find? key) = idOrUnassigned (index.find? key') ↔ key = key' := by
  obtain ⟨id, -, hid⟩ := DenseIndex.exists_find? h
  obtain ⟨id', -, hid'⟩ := DenseIndex.exists_find? h'
  constructor
  · intro heq
    rw [idOrUnassigned_of_find? hid, idOrUnassigned_of_find? hid', Int.ofNat_inj] at heq
    rw [heq] at hid
    exact DenseIndex.eq_of_find? hid hid'
  · rintro rfl
    rfl

namespace PhraseIndex

/-- The larger index has all numbers of the index. -/
structure Extends (larger index : PhraseIndex) : Prop where
  pairs : larger.pairs.Extends index.pairs
  sources : larger.sources.Extends index.sources
  targets : larger.targets.Extends index.targets

/-- An index extends itself. -/
theorem Extends.refl (index : PhraseIndex) : index.Extends index :=
  ⟨.refl _, .refl _, .refl _⟩

/-- What extends an extension extends the index. -/
theorem Extends.trans {index larger largest : PhraseIndex} (h : largest.Extends larger)
    (h' : larger.Extends index) : largest.Extends index :=
  ⟨h.pairs.trans h'.pairs, h.sources.trans h'.sources, h.targets.trans h'.targets⟩

/-- The index has numbers for a pair and both of its phrases. -/
structure Has (index : PhraseIndex) (pair : PhrasePair) : Prop where
  key_mem : pair.pairKey ∈ index.pairs.toList
  source_mem : pair.source ∈ index.sources.toList
  target_mem : pair.target ∈ index.targets.toList

/-- A larger index has numbers for the pairs of the index. -/
theorem Extends.has {larger index : PhraseIndex} (h : larger.Extends index) {pair : PhrasePair}
    (hhas : index.Has pair) : larger.Has pair :=
  ⟨h.pairs.mem hhas.key_mem, h.sources.mem hhas.source_mem, h.targets.mem hhas.target_mem⟩

/-- A pair has the same numbers in a larger index. -/
theorem Extends.idsOf {larger index : PhraseIndex} (h : larger.Extends index) {pair : PhrasePair}
    (hhas : index.Has pair) : larger.idsOf pair = index.idsOf pair := by
  obtain ⟨i, -, hi⟩ := DenseIndex.exists_find? hhas.key_mem
  obtain ⟨j, -, hj⟩ := DenseIndex.exists_find? hhas.source_mem
  obtain ⟨k, -, hk⟩ := DenseIndex.exists_find? hhas.target_mem
  unfold PhraseIndex.idsOf
  rw [hi, hj, hk, h.pairs.find? hi, h.sources.find? hj, h.targets.find? hk]

/-- A pair that is entered takes no number away. -/
theorem extends_insert (index : PhraseIndex) (pair : PhrasePair) :
    (index.insert pair).1.Extends index :=
  ⟨DenseIndex.extends_insert _ _, DenseIndex.extends_insert _ _, DenseIndex.extends_insert _ _⟩

/-- A pair that was entered has its numbers. -/
theorem has_insert (index : PhraseIndex) (pair : PhrasePair) :
    (index.insert pair).1.Has pair :=
  ⟨DenseIndex.mem_insert.2 (Or.inr rfl), DenseIndex.mem_insert.2 (Or.inr rfl),
    DenseIndex.mem_insert.2 (Or.inr rfl)⟩

/-- A pair that is entered is given the numbers that it has afterwards. -/
theorem snd_insert (index : PhraseIndex) (pair : PhrasePair) :
    (index.insert pair).2 = pair.withIds ((index.insert pair).1.idsOf pair) := by
  have hpair := index.pairs.find?_insert_self pair.pairKey
  have hsource := index.sources.find?_insert_self pair.source
  have htarget := index.targets.find?_insert_self pair.target
  unfold insert idsOf
  dsimp only
  rw [hpair, hsource, htarget]
  rfl

/-- A pair that has numbers is given them, and nothing changes. -/
theorem insert_of_has {index : PhraseIndex} {pair : PhrasePair} (h : index.Has pair) :
    index.insert pair = (index, pair.withIds (index.idsOf pair)) := by
  obtain ⟨i, -, hi⟩ := DenseIndex.exists_find? h.key_mem
  obtain ⟨j, -, hj⟩ := DenseIndex.exists_find? h.source_mem
  obtain ⟨k, -, hk⟩ := DenseIndex.exists_find? h.target_mem
  unfold insert idsOf
  rw [DenseIndex.insert_of_find? hi, DenseIndex.insert_of_find? hj, DenseIndex.insert_of_find? hk,
    hi, hj, hk]
  rfl

/-- Pairs that are entered take no number away. -/
theorem extends_insertAll (index : PhraseIndex) (pairs : List PhrasePair) :
    (index.insertAll pairs).1.Extends index := by
  induction pairs generalizing index with
  | nil => exact .refl index
  | cons pair rest ih => exact (ih (index.insert pair).1).trans (index.extends_insert pair)

/-- All pairs that were entered have their numbers. -/
theorem has_insertAll (index : PhraseIndex) {pairs : List PhrasePair} :
    ∀ pair ∈ pairs, (index.insertAll pairs).1.Has pair := by
  induction pairs generalizing index with
  | nil => exact nofun
  | cons first rest ih =>
    intro pair hpair
    rcases List.mem_cons.1 hpair with rfl | hpair
    · exact (extends_insertAll _ rest).has (index.has_insert pair)
    · exact ih (index.insert first).1 pair hpair

/-- Pairs that have numbers already leave the index as it is. -/
theorem fst_insertAll_of_has {index : PhraseIndex} {pairs : List PhrasePair}
    (h : ∀ pair ∈ pairs, index.Has pair) : (index.insertAll pairs).1 = index := by
  induction pairs with
  | nil => rfl
  | cons first rest ih =>
    show ((index.insert first).1.insertAll rest).1 = index
    rw [insert_of_has (h first List.mem_cons_self)]
    exact ih fun pair hpair => h pair (List.mem_cons_of_mem first hpair)

/-- Every pair is given the numbers that it has in the index at the end. -/
theorem snd_insertAll (index : PhraseIndex) (pairs : List PhrasePair) :
    (index.insertAll pairs).2 =
      pairs.map fun pair => pair.withIds ((index.insertAll pairs).1.idsOf pair) := by
  induction pairs generalizing index with
  | nil => rfl
  | cons pair rest ih =>
    have hids : ((index.insert pair).1.insertAll rest).1.idsOf pair =
        (index.insert pair).1.idsOf pair :=
      (extends_insertAll _ rest).idsOf (index.has_insert pair)
    show (index.insert pair).2 :: ((index.insert pair).1.insertAll rest).2 =
      pair.withIds (((index.insert pair).1.insertAll rest).1.idsOf pair) :: _
    rw [hids, ← snd_insert, ih (index.insert pair).1]
    rfl

/-- The three parts of an index grow each by its own keys. -/
theorem fst_insertAll (index : PhraseIndex) (pairs : List PhrasePair) :
    (index.insertAll pairs).1 =
      ⟨index.pairs.insertKeys (pairs.map fun pair => pair.pairKey),
        index.sources.insertKeys (pairs.map fun pair => pair.source),
        index.targets.insertKeys (pairs.map fun pair => pair.target)⟩ := by
  induction pairs generalizing index with
  | nil => rfl
  | cons pair rest ih => exact ih (index.insert pair).1

/-- Pairs may be entered in two parts. -/
theorem fst_insertAll_append (index : PhraseIndex) (front back : List PhrasePair) :
    (index.insertAll (front ++ back)).1 = ((index.insertAll front).1.insertAll back).1 := by
  induction front generalizing index with
  | nil => rfl
  | cons pair rest ih => exact ih (index.insert pair).1

end PhraseIndex

/-! ## The table of first occurrences -/

namespace Run

/-- A number has the place that was noted for it, or else that of its first pair. -/
theorem getElem?_foldl_notePlace (entries : List (PhrasePair × Nat)) (places : Array (Option Nat))
    (id : Nat) :
    (entries.foldl notePlace places)[id]? = places[id]?.map fun place =>
      place.or ((entries.find? fun entry => entry.1.ids.pair.toNat = id).map Prod.snd) := by
  induction entries generalizing places with
  | nil => simp
  | cons entry rest ih =>
    rw [List.foldl_cons, ih, notePlace, Array.getElem?_modify]
    by_cases hid : entry.1.ids.pair.toNat = id
    · rw [if_pos hid, List.find?_cons_of_pos (by simpa using hid), Option.map_map]
      refine Option.map_congr fun place _ => ?_
      rw [Function.comp_apply, Option.or_assoc, Option.map_some, Option.some_or]
    · rw [if_neg hid, List.find?_cons_of_neg (by simpa using hid)]

/-- What is found in a list is found beside its place. -/
theorem find?_zipIdx {α : Type} (p : α → Bool) (xs : List α) :
    ((xs.zipIdx.find? fun entry => p entry.1).map Prod.snd).bind (fun i => xs[i]?) =
      xs.find? p := by
  have hfst : (xs.zipIdx.find? fun entry => p entry.1).map Prod.fst = xs.find? p := by
    have hmap := List.find?_map (f := Prod.fst) (p := p) (l := xs.zipIdx)
    rw [List.zipIdx_map_fst] at hmap
    exact hmap.symm
  rw [← hfst]
  cases hfind : xs.zipIdx.find? fun entry => p entry.1 with
  | none => rfl
  | some entry =>
    obtain ⟨x, i⟩ := entry
    exact List.mk_mem_zipIdx_iff_getElem?.1 (List.mem_of_find?_eq_some hfind)

namespace PassState

/-- There is one place for every number. -/
theorem size_firstPlaces (state : PassState) :
    state.firstPlaces.size = state.index.pairs.size := by
  have hfold (entries : List (PhrasePair × Nat)) (places : Array (Option Nat)) :
      (entries.foldl notePlace places).size = places.size := by
    induction entries generalizing places with
    | nil => rfl
    | cons entry rest ih => rw [List.foldl_cons, ih, notePlace, Array.size_modify]
  unfold firstPlaces
  rw [hfold, Array.size_replicate]

/-- The place of a number is that of the first pair with this number. -/
theorem getElem?_firstPlaces (state : PassState) {id : Nat} (hid : id < state.index.pairs.size) :
    state.firstPlaces[id]? = some ((state.pairs.zipIdx.find? fun entry =>
      entry.1.ids.pair.toNat = id).map Prod.snd) := by
  unfold firstPlaces
  rw [getElem?_foldl_notePlace, Array.getElem?_replicate, if_pos hid]
  rfl

/-- Read at the place of a number, the pairs show the first one with this number. -/
theorem bind_firstPlaces (state : PassState) {id : Nat} (hid : id < state.index.pairs.size) :
    (state.firstPlaces[id]?.bind fun place => place.bind fun place => state.pairs[place]?) =
      state.pairs.find? fun pair => pair.ids.pair.toNat = id := by
  rw [state.getElem?_firstPlaces hid]
  exact find?_zipIdx (fun pair : PhrasePair => pair.ids.pair.toNat = id) state.pairs

/-- The first occurrences are what a search for each number finds. -/
theorem firstOccurrences_eq (state : PassState) :
    state.firstOccurrences = (List.range state.index.pairs.size).filterMap fun id =>
      state.pairs.find? fun pair => pair.ids.pair.toNat = id := by
  unfold firstOccurrences
  simp only [List.getElem?_toArray]
  rw [filterMap_eq_range, Array.length_toList, size_firstPlaces]
  apply List.filterMap_congr
  intro id hid
  rw [← state.bind_firstPlaces (List.mem_range.1 hid), Array.getElem?_toList]

/-- A first occurrence is one of the pairs. -/
theorem mem_of_mem_firstOccurrences {state : PassState} {pair : PhrasePair}
    (h : pair ∈ state.firstOccurrences) : pair ∈ state.pairs := by
  rw [firstOccurrences_eq] at h
  obtain ⟨id, -, hfind⟩ := List.mem_filterMap.1 h
  exact List.mem_of_find?_eq_some hfind

end PassState

end Run

end PhraseTable
