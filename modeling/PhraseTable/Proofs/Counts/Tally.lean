import Mathlib.Algebra.BigOperators.Ring.Finset
import PhraseTable.Counts.Words
import PhraseTable.Proofs.CountVector
import PhraseTable.Proofs.DenseIndex

/-!
# What a tally has counted

A tally counts a key in two steps: the key gets a slot, and later the slot is counted. `Tracks`
follows a tally through any order of such steps. It names the keys that asked for a slot and those
whose slot was counted, and holds at any time, also while slots wait for their first count, so
that it can be carried through steps of different keys that are mixed with each other. When all
keys that asked for a slot are counted, index and counts fit together again: `Tracks.filled`.
-/

set_option autoImplicit false

namespace PhraseTable.Tally

variable {α : Type} [DecidableEq α]

/-- The keys `reserved` have asked for slots, and the slots of the keys `counted` were counted. -/
structure Tracks (tally : Tally α) (reserved counted : List α) : Prop where
  mem_index : ∀ key, key ∈ tally.index.toList ↔ key ∈ reserved
  counted_subset : ∀ key ∈ counted, key ∈ reserved
  get_counts : ∀ (slot : Nat) (key : α), tally.index.get? slot = some key →
    tally.counts.get slot = counted.count key
  /-- No slot is counted before it is given away. -/
  size_counts : tally.counts.size ≤ tally.index.size
  total_counts : tally.counts.total = counted.length

/-- The empty tally has seen no key. -/
theorem tracks_empty (hash : α → Nat) : (empty hash).Tracks [] [] where
  mem_index key := by simp [empty]
  counted_subset key h := by cases h
  get_counts slot key h := by simp [empty]
  size_counts := by simp [empty]
  total_counts := by simp [empty]

/-- The order in which keys came plays no part. -/
theorem Tracks.perm {tally : Tally α} {reserved counted reserved' counted' : List α}
    (h : tally.Tracks reserved counted) (hr : reserved.Perm reserved')
    (hc : counted.Perm counted') : tally.Tracks reserved' counted' where
  mem_index key := (h.mem_index key).trans hr.mem_iff
  counted_subset key hkey := hr.mem_iff.1 (h.counted_subset key (hc.mem_iff.2 hkey))
  get_counts slot key hslot := by rw [h.get_counts slot key hslot, hc.count_eq]
  size_counts := h.size_counts
  total_counts := by rw [h.total_counts, hc.length_eq]

/-- The slot that a key is given is the slot of this key. -/
theorem get?_reserve (tally : Tally α) (key : α) :
    (tally.reserve key).1.index.get? (tally.reserve key).2 = some key := by
  rw [← DenseIndex.getElem?_toList]
  exact tally.index.getElem?_insert key

/-- A slot stays with its key when other keys get theirs. -/
theorem get?_reserve_of_get? {tally : Tally α} {slot : Nat} {old : α}
    (h : tally.index.get? slot = some old) (key : α) :
    (tally.reserve key).1.index.get? slot = some old :=
  DenseIndex.get?_insert h key

/-- One more key asks for a slot. -/
theorem Tracks.reserve {tally : Tally α} {reserved counted : List α}
    (h : tally.Tracks reserved counted) (key : α) :
    (tally.reserve key).1.Tracks (key :: reserved) counted where
  mem_index k := by
    have hlist : (tally.reserve key).1.index.toList =
        if key ∈ tally.index.toList then tally.index.toList else tally.index.toList ++ [key] :=
      tally.index.toList_insert key
    rw [hlist, List.mem_cons, ← h.mem_index]
    split
    · rename_i hmem
      constructor
      · exact Or.inr
      · rintro (rfl | hk)
        · exact hmem
        · exact hk
    · rw [List.mem_append, List.mem_singleton, or_comm]
  counted_subset k hk := List.mem_cons_of_mem key (h.counted_subset k hk)
  get_counts slot k hslot := by
    show tally.counts.get slot = counted.count k
    cases hold : tally.index.get? slot with
    | some old =>
      have hsame := get?_reserve_of_get? hold key
      rw [hslot] at hsame
      obtain rfl := Option.some.inj hsame
      exact h.get_counts slot k hold
    | none =>
      -- The slot is new, so its key is new as well and was never counted.
      have hout : tally.index.size ≤ slot := by
        rw [← DenseIndex.getElem?_toList, List.getElem?_eq_none_iff,
          DenseIndex.length_toList] at hold
        exact hold
      have hnew : k ∉ tally.index.toList := by
        intro hmem
        obtain ⟨place, hplace⟩ := List.getElem?_of_mem hmem
        have hlt := (List.getElem?_eq_some_iff.1 hplace).1
        rw [DenseIndex.length_toList] at hlt
        rw [DenseIndex.getElem?_toList] at hplace
        have hfound := DenseIndex.find?_of_getElem? (get?_reserve_of_get? hplace key)
        rw [DenseIndex.find?_of_getElem? hslot] at hfound
        have := Option.some.inj hfound
        omega
      have hzero : counted.count k = 0 := List.count_eq_zero.2 fun hmem =>
        hnew ((h.mem_index k).2 (h.counted_subset k hmem))
      rw [hzero, CountVector.get_of_size_le (h.size_counts.trans hout)]
      rfl
  size_counts := by
    have hsize := tally.index.size_insert key
    show tally.counts.size ≤ (tally.index.insert key).1.size
    have := h.size_counts
    split at hsize <;> omega
  total_counts := h.total_counts

/-- Keys that ask for slots one after the other only enter the index. -/
theorem reserveAll_eq (tally : Tally α) (keys : List α) :
    tally.reserveAll keys = { tally with index := tally.index.insertKeys keys } := by
  induction keys generalizing tally with
  | nil => rfl
  | cons key rest ih => exact ih (tally.reserve key).1

/-- Keys that have their slots already change nothing. -/
theorem reserveAll_of_subset {tally : Tally α} {keys : List α}
    (h : ∀ key ∈ keys, key ∈ tally.index.toList) : tally.reserveAll keys = tally := by
  rw [reserveAll_eq, DenseIndex.insertKeys_of_subset h]

/-- Keys that ask for slots are followed one after the other. -/
theorem Tracks.reserveAll {tally : Tally α} {reserved counted : List α}
    (h : tally.Tracks reserved counted) (keys : List α) :
    (tally.reserveAll keys).Tracks (keys ++ reserved) counted := by
  induction keys generalizing tally reserved with
  | nil => exact h
  | cons key rest ih => exact (ih (h.reserve key)).perm List.perm_middle (.refl _)

/-- It plays no part how often a key has asked for its slot. -/
theorem Tracks.of_mem_iff {tally : Tally α} {reserved reserved' counted : List α}
    (h : tally.Tracks reserved counted) (hr : ∀ key, key ∈ reserved ↔ key ∈ reserved') :
    tally.Tracks reserved' counted where
  mem_index key := (h.mem_index key).trans (hr key)
  counted_subset key hkey := (hr key).1 (h.counted_subset key hkey)
  get_counts := h.get_counts
  size_counts := h.size_counts
  total_counts := h.total_counts

/-- One more key is counted, in the slot that it was given. -/
theorem Tracks.bump {tally : Tally α} {reserved counted : List α}
    (h : tally.Tracks reserved counted) {slot : Nat} {key : α}
    (hslot : tally.index.get? slot = some key) :
    (tally.bump slot).Tracks reserved (key :: counted) where
  mem_index := h.mem_index
  counted_subset k hk := by
    rcases List.mem_cons.1 hk with rfl | hk
    · rw [← h.mem_index]
      rw [← DenseIndex.getElem?_toList] at hslot
      exact List.mem_of_getElem? hslot
    · exact h.counted_subset k hk
  get_counts s k hs := by
    show (tally.counts.increment slot 1).get s = (key :: counted).count k
    change tally.index.get? s = some k at hs
    rw [CountVector.get_increment, h.get_counts s k hs]
    by_cases hsame : s = slot
    · subst hsame
      obtain rfl := Option.some.inj (hslot.symm.trans hs)
      rw [if_pos ⟨rfl, by omega⟩, List.count_cons_self]
      omega
    · have hother : key ≠ k := by
        rintro rfl
        have hfound := DenseIndex.find?_of_getElem? hs
        rw [DenseIndex.find?_of_getElem? hslot] at hfound
        exact hsame (Option.some.inj hfound).symm
      rw [if_neg (by omega), List.count_cons_of_ne hother]
  size_counts := by
    show (tally.counts.increment slot 1).size ≤ tally.index.size
    have hlt : slot < tally.index.size := by
      rw [← DenseIndex.getElem?_toList] at hslot
      rw [← DenseIndex.length_toList]
      exact (List.getElem?_eq_some_iff.1 hslot).1
    have := h.size_counts
    rw [CountVector.size_increment, if_neg (by omega)]
    omega
  total_counts := by
    show (tally.counts.increment slot 1).total = _
    rw [CountVector.total_increment, if_neg (by omega), h.total_counts, List.length_cons]
    omega

/-- A key that is counted has asked for a slot and has got its count. -/
theorem Tracks.add {tally : Tally α} {reserved counted : List α}
    (h : tally.Tracks reserved counted) (key : α) :
    (tally.add key).1.Tracks (key :: reserved) (key :: counted) :=
  (h.reserve key).bump (tally.get?_reserve key)

/-! ## Reading a tally -/

/-- A count is missing just for a key that never asked for a slot. -/
theorem Tracks.count?_eq_none_iff {tally : Tally α} {reserved counted : List α}
    (h : tally.Tracks reserved counted) {key : α} : tally.count? key = none ↔ key ∉ reserved := by
  rw [← h.mem_index, ← DenseIndex.find?_eq_none_iff]
  unfold count?
  cases tally.index.find? key with
  | none => exact iff_of_true rfl rfl
  | some slot => exact iff_of_false nofun nofun

/-- The count of a key that asked for a slot is the number of times that it was counted. -/
theorem Tracks.count?_of_mem {tally : Tally α} {reserved counted : List α}
    (h : tally.Tracks reserved counted) {key : α} (hkey : key ∈ reserved) :
    tally.count? key = some (counted.countP (· = key) : Int) := by
  obtain ⟨slot, hfind⟩ := Option.ne_none_iff_exists'.1 fun hnone =>
    DenseIndex.find?_eq_none_iff.1 hnone ((h.mem_index key).2 hkey)
  have hcount := h.get_counts slot key (DenseIndex.getElem?_of_find? hfind)
  unfold count?
  rw [hfind]
  exact congrArg some hcount

/-- The count of a key when no key waits for its count. -/
theorem Tracks.count?_eq {tally : Tally α} {keys : List α} (h : tally.Tracks keys keys)
    (key : α) : tally.count? key =
      if keys.countP (· = key) = 0 then none else some (keys.countP (· = key) : Int) := by
  split
  · rename_i hzero
    exact h.count?_eq_none_iff.2 (List.count_eq_zero.1 hzero)
  · rename_i hpos
    exact h.count?_of_mem (List.count_pos_iff.1 (Nat.pos_of_ne_zero hpos))

/-- With zero for a missing count, the count of a key is the number of times that it was counted. -/
theorem Tracks.getD_count? {tally : Tally α} {keys : List α} (h : tally.Tracks keys keys)
    (key : α) : (tally.count? key).getD 0 = (keys.countP (· = key) : Int) := by
  rw [h.count?_eq]
  split
  · rename_i hzero
    rw [hzero]
    rfl
  · rfl

/-- Two tallies that counted the same keys have the same counts, whatever slots they gave them. -/
theorem Tracks.count?_congr {tally tally' : Tally α} {keys : List α} (h : tally.Tracks keys keys)
    (h' : tally'.Tracks keys keys) (key : α) : tally.count? key = tally'.count? key := by
  rw [h.count?_eq, h'.count?_eq]

/-- Keys may be replaced by others, as long as different keys stay different. -/
theorem Tracks.count?_map {β : Type} [DecidableEq β] {tally : Tally α} {tally' : Tally β}
    {keys : List α} {f : α → β} (hf : Function.Injective f) (h : tally.Tracks keys keys)
    (h' : tally'.Tracks (keys.map f) (keys.map f)) (key : α) :
    tally'.count? (f key) = tally.count? key := by
  have hcount : (keys.map f).countP (· = f key) = keys.countP (· = key) := by
    rw [List.countP_map]
    exact List.countP_congr fun k _ => by simp [hf.eq_iff]
  rw [h.count?_eq, h'.count?_eq, hcount]

/-- The index has a number for every slot of the counts and for no other, and no slot is empty. -/
structure Filled (tally : Tally α) : Prop where
  size_eq : tally.index.size = tally.counts.size
  one_le : ∀ slot < tally.counts.size, 1 ≤ tally.counts.get slot

/-- A tally all of whose keys were counted is filled. -/
theorem Tracks.filled {tally : Tally α} {keys : List α} (h : tally.Tracks keys keys) :
    tally.Filled := by
  have positive : ∀ slot < tally.index.size, 1 ≤ tally.counts.get slot := by
    intro slot hlt
    rw [← DenseIndex.length_toList] at hlt
    have hkey : tally.index.toList[slot]? = some tally.index.toList[slot] :=
      List.getElem?_eq_getElem hlt
    have hmem := (h.mem_index _).1 (List.mem_of_getElem? hkey)
    rw [DenseIndex.getElem?_toList] at hkey
    rw [h.get_counts slot _ hkey]
    have := List.count_pos_iff.2 hmem
    omega
  have hsize : tally.index.size = tally.counts.size := by
    refine Nat.le_antisymm (Nat.le_of_not_lt fun hlt => ?_) h.size_counts
    have hone := positive tally.counts.size hlt
    rw [CountVector.get_of_size_le (Nat.le_refl _)] at hone
    omega
  exact ⟨hsize, fun slot hlt => positive slot (by omega)⟩

/-- The counts of the keys with a property add up to the number of keys with it, repetitions
included. -/
theorem Tracks.sum_count? {tally : Tally α} {keys : List α} (h : tally.Tracks keys keys)
    (p : α → Bool) (missing : Int) :
    ((tally.index.toList.filter p).map fun key => (tally.count? key).getD missing).sum =
      (keys.countP p : Int) := by
  have hperm : tally.index.toList.Perm keys.dedup :=
    (List.perm_ext_iff_of_nodup tally.index.nodup_toList keys.nodup_dedup).2 fun key =>
      (h.mem_index key).trans List.mem_dedup.symm
  have hcounts : (tally.index.toList.filter p).map (fun key => (tally.count? key).getD missing) =
      ((tally.index.toList.filter p).map fun key => keys.count key).map Nat.cast := by
    rw [List.map_map]
    refine List.map_congr_left fun key hkey => ?_
    rw [h.count?_of_mem ((h.mem_index key).1 (List.mem_filter.1 hkey).1)]
    rfl
  rw [hcounts, ← Nat.cast_list_sum, ((hperm.filter p).map _).sum_eq,
    List.sum_map_count_dedup_filter_eq_countP]

end PhraseTable.Tally
