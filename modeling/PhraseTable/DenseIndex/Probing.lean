/-!
# Probing a table of slots

Keys are numbered by their places in an array. A table of slots, each free or naming the number of
one key, makes the number of a key quick to find: the search starts at the slot that the hash of
the key selects, goes on from slot to slot, around the end of the table, and stops at the slot that
names the key or at a free one.

`Placed` says that the first keys of the array are entered in the table, each where its own search
finds it. `Placed.place` says that entering the next key keeps this, and `Placed.search_ne_none`
that a search ends while the table has a free slot.
-/

set_option autoImplicit false

namespace PhraseTable.Probing

variable {α : Type} [DecidableEq α]

/-- What a search comes to. -/
inductive Spot where
  /-- The key has this number. -/
  | found (id : Nat)
  /-- The key is not entered, and this is the free slot that tells so. -/
  | free (slot : Nat)
deriving DecidableEq, Repr

/-- Searches for a key from a slot on, over at most the given number of slots. -/
def searchFrom (keys : Array α) (slots : Array (Option Nat)) (key : α) : Nat → Nat → Option Spot
  | _, 0 => none
  | slot, fuel + 1 =>
    match slots[slot]? with
    | none => none
    | some none => some (.free slot)
    | some (some id) =>
      if keys[id]? = some key then some (.found id)
      else searchFrom keys slots key ((slot + 1) % slots.size) fuel

/-- Searches for a key from the slot that its hash selects, over all slots. -/
def search (hash : α → Nat) (keys : Array α) (slots : Array (Option Nat)) (key : α) : Option Spot :=
  searchFrom keys slots key (hash key % slots.size) slots.size

/-- Enters a key's number at the free slot where the search for the key stops. -/
def place (hash : α → Nat) (keys : Array α) (slots : Array (Option Nat)) (id : Nat) :
    Array (Option Nat) :=
  match keys[id]? with
  | none => slots
  | some key =>
    match search hash keys slots key with
    | some (.free slot) => slots.setIfInBounds slot (some id)
    | _ => slots

/-- A table of the given size with all keys entered in the order of their numbers. -/
def rebuild (hash : α → Nat) (keys : Array α) (size : Nat) : Array (Option Nat) :=
  (List.range keys.size).foldl (place hash keys) (Array.replicate size none)

/-- The keys with one more behind them, and a table with all of them. The table doubles when it
would be more than half full. -/
def enter (hash : α → Nat) (keys : Array α) (slots : Array (Option Nat)) (key : α) :
    Array α × Array (Option Nat) :=
  let keys := keys.push key
  if 2 * keys.size ≤ slots.size then (keys, place hash keys slots (keys.size - 1))
  else (keys, rebuild hash keys (2 * slots.size))

variable {hash : α → Nat} {keys : Array α} {slots : Array (Option Nat)}

/-- Whether or not the table grows, the new key goes behind the others. -/
@[simp] theorem fst_enter (key : α) : (enter hash keys slots key).1 = keys.push key := by
  simp only [enter]
  split <;> rfl

/-- What a search finds is entered in the table under the key. -/
theorem searchFrom_eq_found {key : α} {slot fuel id : Nat}
    (h : searchFrom keys slots key slot fuel = some (.found id)) :
    keys[id]? = some key ∧ ∃ s : Nat, slots[s]? = some (some id) := by
  induction fuel generalizing slot with
  | zero => simp [searchFrom] at h
  | succ fuel ih =>
    unfold searchFrom at h
    split at h
    · simp at h
    · simp at h
    · rename_i content hcontent
      split at h
      · rename_i hkey
        simp only [Option.some.injEq, Spot.found.injEq] at h
        exact ⟨h ▸ hkey, slot, h ▸ hcontent⟩
      · exact ih h

/-- A search stops without a find only at a free slot. -/
theorem searchFrom_eq_free {key : α} {slot fuel s : Nat}
    (h : searchFrom keys slots key slot fuel = some (.free s)) : slots[s]? = some none := by
  induction fuel generalizing slot with
  | zero => simp [searchFrom] at h
  | succ fuel ih =>
    unfold searchFrom at h
    split at h
    · simp at h
    · rename_i hfree
      simp only [Option.some.injEq, Spot.free.injEq] at h
      exact h ▸ hfree
    · split at h
      · simp at h
      · exact ih h

/-- A search reads only the keys whose numbers are entered. -/
theorem searchFrom_congr {keys' : Array α} {key : α} {slot fuel : Nat}
    (h : ∀ s id : Nat, slots[s]? = some (some id) → keys'[id]? = keys[id]?) :
    searchFrom keys' slots key slot fuel = searchFrom keys slots key slot fuel := by
  induction fuel generalizing slot with
  | zero => rfl
  | succ fuel ih =>
    unfold searchFrom
    split
    · rfl
    · rfl
    · rename_i id hid
      rw [h slot id hid, ih]

/-- Filling a free slot does not disturb a search that finds its key. -/
theorem searchFrom_set_of_found {key : α} {slot fuel id s new : Nat} (hs : slots[s]? = some none)
    (h : searchFrom keys slots key slot fuel = some (.found id)) :
    searchFrom keys (slots.setIfInBounds s (some new)) key slot fuel = some (.found id) := by
  induction fuel generalizing slot with
  | zero => simp [searchFrom] at h
  | succ fuel ih =>
    unfold searchFrom at h ⊢
    split at h
    · simp at h
    · simp at h
    · rename_i content hcontent
      have hne : s ≠ slot := by
        rintro rfl
        simp [hs] at hcontent
      rw [Array.getElem?_setIfInBounds, if_neg hne, hcontent]
      simp only [Array.size_setIfInBounds]
      split at h
      · rename_i hkey
        rw [if_pos hkey, h]
      · rename_i hkey
        rw [if_neg hkey]
        exact ih h

/-- A key that is entered at the free slot where its search stops is found there. -/
theorem searchFrom_set_of_free {key : α} {slot fuel s new : Nat} (hkey : keys[new]? = some key)
    (h : searchFrom keys slots key slot fuel = some (.free s)) :
    searchFrom keys (slots.setIfInBounds s (some new)) key slot fuel = some (.found new) := by
  have hs := searchFrom_eq_free h
  have hlt : s < slots.size := (Array.getElem?_eq_some_iff.1 hs).1
  induction fuel generalizing slot with
  | zero => simp [searchFrom] at h
  | succ fuel ih =>
    unfold searchFrom at h ⊢
    split at h
    · simp at h
    · simp only [Option.some.injEq, Spot.free.injEq] at h
      subst h
      rw [Array.getElem?_setIfInBounds, if_pos rfl, if_pos hlt]
      simp [hkey]
    · rename_i content hcontent
      have hne : s ≠ slot := by
        rintro rfl
        simp [hs] at hcontent
      rw [Array.getElem?_setIfInBounds, if_neg hne, hcontent]
      simp only [Array.size_setIfInBounds]
      split at h
      · simp at h
      · rename_i hother
        rw [if_neg hother]
        exact ih h

/-- A search that runs out of slots has passed over a full slot at every step. -/
theorem full_of_searchFrom_eq_none {key : α} {slot fuel : Nat} (hslot : slot < slots.size)
    (h : searchFrom keys slots key slot fuel = none) (d : Nat) (hd : d < fuel) :
    ∃ id, slots[(slot + d) % slots.size]? = some (some id) := by
  induction fuel generalizing slot d with
  | zero => omega
  | succ fuel ih =>
    have hpos : 0 < slots.size := by omega
    unfold searchFrom at h
    split at h
    · rename_i hout
      have := Array.getElem?_eq_none_iff.1 hout
      omega
    · simp at h
    · rename_i content hcontent
      split at h
      · simp at h
      · cases d with
        | zero => exact ⟨content, by simpa [Nat.mod_eq_of_lt hslot] using hcontent⟩
        | succ d =>
          obtain ⟨id, hid⟩ := ih (Nat.mod_lt _ hpos) h d (by omega)
          refine ⟨id, ?_⟩
          rw [Nat.mod_add_mod] at hid
          rw [show slot + (d + 1) = slot + 1 + d by omega]
          exact hid

/-- A search of the whole table ends if the table has a free slot. -/
theorem search_ne_none {key : α} (h : slots.countP Option.isSome < slots.size) :
    search hash keys slots key ≠ none := by
  intro hnone
  have hpos : 0 < slots.size := by omega
  have hhome : hash key % slots.size < slots.size := Nat.mod_lt _ hpos
  have hfull : slots.countP Option.isSome = slots.size := by
    refine Array.countP_eq_size.2 fun content hcontent => ?_
    obtain ⟨x, hx, rfl⟩ := Array.mem_iff_getElem.1 hcontent
    obtain ⟨id, hid⟩ := full_of_searchFrom_eq_none hhome hnone
      ((x + slots.size - hash key % slots.size) % slots.size) (Nat.mod_lt _ hpos)
    rw [Nat.add_mod_mod,
      show hash key % slots.size + (x + slots.size - hash key % slots.size) = x + slots.size by
        omega,
      Nat.add_mod_right, Nat.mod_eq_of_lt hx, Array.getElem?_eq_getElem hx] at hid
    simp only [Option.some.injEq] at hid
    simp [hid]
  omega

/-- The first `count` keys, and no others, are entered, each where its search finds it. -/
structure Placed (hash : α → Nat) (keys : Array α) (slots : Array (Option Nat)) (count : Nat) :
    Prop where
  /-- Only the first keys are entered. -/
  lt_count : ∀ s id : Nat, slots[s]? = some (some id) → id < count
  /-- As many slots are full as keys are entered. -/
  full : slots.countP Option.isSome = count
  /-- Each of the first keys is found. -/
  found : ∀ (id : Nat) (key : α), id < count → keys[id]? = some key →
    search hash keys slots key = some (.found id)

/-- In an empty table no key is entered. -/
theorem Placed.empty (hash : α → Nat) (keys : Array α) (size : Nat) :
    Placed hash keys (Array.replicate size none) 0 where
  lt_count s id h := by simp [Array.getElem?_replicate] at h
  full := by simp
  found id _ h := by omega

/-- Keys may be added behind those that are entered. -/
theorem Placed.push {count : Nat} (h : Placed hash keys slots count) (hcount : count ≤ keys.size)
    (key : α) : Placed hash (keys.push key) slots count where
  lt_count := h.lt_count
  full := h.full
  found id k hid hk := by
    have hne : id ≠ keys.size := by omega
    rw [Array.getElem?_push, if_neg hne] at hk
    rw [search, searchFrom_congr, ← search]
    · exact h.found id k hid hk
    · intro s id' hs
      have := h.lt_count s id' hs
      rw [Array.getElem?_push, if_neg (by omega)]

/-- Entering the next key, one that differs from all those before it, keeps the table in order. -/
theorem Placed.place {count : Nat} {key : α} (h : Placed hash keys slots count)
    (hroom : count < slots.size) (hkey : keys[count]? = some key)
    (hnew : ∀ id < count, keys[id]? ≠ some key) :
    Placed hash keys (place hash keys slots count) (count + 1) ∧
      (Probing.place hash keys slots count).size = slots.size := by
  have hsearch : ∃ s, search hash keys slots key = some (.free s) := by
    cases hspot : search hash keys slots key with
    | none => exact absurd hspot (search_ne_none (by rw [h.full]; exact hroom))
    | some spot =>
      cases spot with
      | free s => exact ⟨s, rfl⟩
      | found id =>
        obtain ⟨hid, s, hs⟩ := searchFrom_eq_found hspot
        exact absurd hid (hnew id (h.lt_count s id hs))
  obtain ⟨s, hs⟩ := hsearch
  have hfree : slots[s]? = some none := searchFrom_eq_free hs
  have hlt : s < slots.size := (Array.getElem?_eq_some_iff.1 hfree).1
  have hplace : Probing.place hash keys slots count = slots.setIfInBounds s (some count) := by
    simp [Probing.place, hkey, hs]
  rw [hplace]
  refine ⟨⟨fun s' id hid => ?_, ?_, fun id k hid hk => ?_⟩, by simp⟩
  · simp only [Array.getElem?_setIfInBounds, hlt, if_true] at hid
    split at hid
    · simp only [Option.some.injEq] at hid
      omega
    · have := h.lt_count s' id hid
      omega
  · rw [Array.setIfInBounds_def, dif_pos hlt, Array.countP_set hlt]
    have hnone : slots[s] = none := by
      rw [Array.getElem?_eq_getElem hlt] at hfree
      simpa using hfree
    simp [hnone, h.full]
  · rw [search, Array.size_setIfInBounds]
    by_cases hid' : id < count
    · exact searchFrom_set_of_found hfree (h.found id k hid' hk)
    · have hcount : id = count := by omega
      subst hcount
      rw [hkey] at hk
      obtain rfl := Option.some.inj hk
      exact searchFrom_set_of_free hkey hs

/-- A table with room for all keys, built from distinct keys, has all of them entered. -/
theorem Placed.rebuild {size : Nat} (hroom : keys.size ≤ size)
    (hdistinct : ∀ i j : Nat, i < j → j < keys.size → keys[i]? ≠ keys[j]?) :
    Placed hash keys (rebuild hash keys size) keys.size ∧
      (Probing.rebuild hash keys size).size = size := by
  have upTo : ∀ count ≤ keys.size,
      Placed hash keys ((List.range count).foldl (Probing.place hash keys)
        (Array.replicate size none)) count ∧
      ((List.range count).foldl (Probing.place hash keys)
        (Array.replicate size none)).size = size := by
    intro count
    induction count with
    | zero => exact fun _ => ⟨Placed.empty hash keys size, by simp⟩
    | succ count ih =>
      intro hcount
      obtain ⟨hplaced, hsize⟩ := ih (by omega)
      have hkey : keys[count]? = some keys[count] := Array.getElem?_eq_getElem (by omega)
      obtain ⟨hplaced', hsize'⟩ := hplaced.place (by omega) hkey fun id hid heq =>
        hdistinct id count hid (by omega) (heq.trans hkey.symm)
      rw [List.range_succ, List.foldl_append]
      exact ⟨hplaced', hsize'.trans hsize⟩
  exact upTo keys.size (Nat.le_refl _)

/-- Entering a new key leaves a table that is at most half full. -/
theorem Placed.enter {key : α} (h : Placed hash keys slots keys.size)
    (hhalf : 2 * keys.size ≤ slots.size) (htwo : 2 ≤ slots.size)
    (hdistinct : ∀ i j : Nat, i < j → j < (keys.push key).size →
      (keys.push key)[i]? ≠ (keys.push key)[j]?) :
    Placed hash (keys.push key) (enter hash keys slots key).2 (keys.size + 1) ∧
      2 * (keys.size + 1) ≤ (Probing.enter hash keys slots key).2.size ∧
      2 ≤ (Probing.enter hash keys slots key).2.size := by
  have hsize : (keys.push key).size = keys.size + 1 := by simp
  simp only [Probing.enter]
  split
  · rename_i hroom
    rw [hsize] at hroom
    have hkey : (keys.push key)[keys.size]? = some key := by simp
    obtain ⟨hplaced, hsame⟩ := (h.push (Nat.le_refl _) key).place (by omega) hkey
      fun id hid heq => hdistinct id keys.size hid (by omega) (heq.trans hkey.symm)
    simp only [hsize, Nat.add_sub_cancel]
    exact ⟨hplaced, by omega, by omega⟩
  · obtain ⟨hplaced, hsame⟩ := @Placed.rebuild α _ hash (keys.push key) (2 * slots.size)
      (by omega) hdistinct
    rw [hsize] at hplaced
    refine ⟨hplaced, ?_, ?_⟩ <;> rw [hsame] <;> omega

end PhraseTable.Probing
