import PhraseTable.DenseIndex.Probing

/-!
# Dense indexes

A dense index numbers distinct keys 0, 1, 2, … in the order in which they were first inserted. Seen
from outside it is the list of its keys, `toList`. Inside it keeps a table of slots that is at
least twice as large as the number of keys, so a search always ends.

The statements at the end tie every operation to the list: `find?_eq_some_iff` and
`find?_eq_none_iff`, `toList_insert` and `getElem?_insert`. Neither the hash function nor the size
of the table occurs in them.
-/

set_option autoImplicit false

namespace PhraseTable

/-- Distinct keys with dense numbers. -/
structure DenseIndex (α : Type) [DecidableEq α] where
  /-- Selects the slot where the search for a key begins. -/
  hash : α → Nat
  /-- The keys by their numbers. -/
  keys : Array α
  /-- The slots, each free or with the number of a key. -/
  slots : Array (Option Nat)
  /-- All keys are entered in the slots. -/
  placed : Probing.Placed hash keys slots keys.size
  /-- At most half of the slots are full. -/
  half_free : 2 * keys.size ≤ slots.size
  /-- The table is never smaller than two slots. -/
  two_le : 2 ≤ slots.size

namespace DenseIndex

variable {α : Type} [DecidableEq α]

/-- The least power of two that is at least the capacity and at least two. -/
def tableSize (capacity : Nat) : Nat :=
  2 * Nat.pow 2 (capacity - 1).log2

/-- A table has at least two slots, so one of them stays free. -/
theorem two_le_tableSize (capacity : Nat) : 2 ≤ tableSize capacity := by
  have : 0 < Nat.pow 2 (capacity - 1).log2 := Nat.two_pow_pos _
  simp only [tableSize]
  omega

/-- The index without keys. -/
def empty (hash : α → Nat) (capacity : Nat) : DenseIndex α where
  hash := hash
  keys := #[]
  slots := Array.replicate (tableSize capacity) none
  placed := Probing.Placed.empty hash #[] _
  half_free := by simp
  two_le := by simpa using two_le_tableSize capacity

/-- The keys in the order of their numbers. -/
def toList (index : DenseIndex α) : List α :=
  index.keys.toList

/-- The number of keys, which is also the next number to be given. -/
def size (index : DenseIndex α) : Nat :=
  index.keys.size

/-- The key with the given number. -/
def get? (index : DenseIndex α) (id : Nat) : Option α :=
  index.keys[id]?

/-- The number of a key. -/
def find? (index : DenseIndex α) (key : α) : Option Nat :=
  match Probing.search index.hash index.keys index.slots key with
  | some (.found id) => some id
  | _ => none

/-- A key has the number that is found for it. -/
theorem getElem?_of_find? {index : DenseIndex α} {key : α} {id : Nat}
    (h : index.find? key = some id) : index.keys[id]? = some key := by
  unfold find? at h
  split at h
  · rename_i hfound
    simp only [Option.some.injEq] at h
    exact h ▸ (Probing.searchFrom_eq_found hfound).1
  · simp at h

/-- The number that a key has is found. -/
theorem find?_of_getElem? {index : DenseIndex α} {key : α} {id : Nat}
    (h : index.keys[id]? = some key) : index.find? key = some id := by
  have hid : id < index.keys.size := (Array.getElem?_eq_some_iff.1 h).1
  simp [find?, index.placed.found id key hid h]

/-- Two numbers have two keys. -/
theorem getElem?_ne (index : DenseIndex α) {i j : Nat} (hij : i < j) (hj : j < index.keys.size) :
    index.keys[i]? ≠ index.keys[j]? := by
  intro heq
  have hkey : index.keys[j]? = some index.keys[j] := Array.getElem?_eq_getElem hj
  have hfound := find?_of_getElem? hkey
  rw [find?_of_getElem? (heq.trans hkey)] at hfound
  simp only [Option.some.injEq] at hfound
  omega

/-- Gives the next number to a new key. -/
def append (index : DenseIndex α) (key : α) (hnew : index.find? key = none) : DenseIndex α :=
  have hdistinct : ∀ i j : Nat, i < j → j < (index.keys.push key).size →
      (index.keys.push key)[i]? ≠ (index.keys.push key)[j]? := by
    intro i j hij hj
    rw [Array.size_push] at hj
    rw [Array.getElem?_push, Array.getElem?_push, if_neg (by omega)]
    split
    · intro heq
      rw [find?_of_getElem? heq] at hnew
      simp at hnew
    · exact index.getElem?_ne hij (by omega)
  have henter := index.placed.enter index.half_free index.two_le hdistinct
  { hash := index.hash
    keys := (Probing.enter index.hash index.keys index.slots key).1
    slots := (Probing.enter index.hash index.keys index.slots key).2
    placed := by simpa using henter.1
    half_free := by simpa using henter.2.1
    two_le := henter.2.2 }

/-- The index with the key in it, and the number of the key. -/
def insert (index : DenseIndex α) (key : α) : DenseIndex α × Nat :=
  match h : index.find? key with
  | some id => (index, id)
  | none =>
    let id := index.keys.size
    (index.append key h, id)

/-- The number of a key. A missing key is entered if `create` is set, and has no number if not. -/
def indexOf (index : DenseIndex α) (key : α) (create : Bool) : DenseIndex α × Option Nat :=
  if create then
    let (index, id) := index.insert key
    (index, some id)
  else (index, index.find? key)

/-- A key is found under the number of its place in the list. -/
theorem find?_eq_some_iff {index : DenseIndex α} {key : α} {id : Nat} :
    index.find? key = some id ↔ index.toList[id]? = some key := by
  rw [toList, Array.getElem?_toList]
  exact ⟨getElem?_of_find?, find?_of_getElem?⟩

/-- The keys that are not found are those that are not in the list. -/
theorem find?_eq_none_iff {index : DenseIndex α} {key : α} :
    index.find? key = none ↔ key ∉ index.toList := by
  constructor
  · intro h hmem
    obtain ⟨id, hid⟩ := List.getElem?_of_mem hmem
    rw [find?_eq_some_iff.2 hid] at h
    simp at h
  · intro h
    cases hfind : index.find? key with
    | none => rfl
    | some id => exact absurd (List.mem_of_getElem? (find?_eq_some_iff.1 hfind)) h

/-- No key has two numbers. -/
theorem nodup_toList (index : DenseIndex α) : index.toList.Nodup := by
  refine List.pairwise_iff_getElem.2 fun i j hi hj hij heq => ?_
  have hsize : j < index.keys.size := by simpa [toList] using hj
  have heq' : index.toList[i]? = index.toList[j]? := by
    rw [List.getElem?_eq_getElem hi, List.getElem?_eq_getElem hj, heq]
  exact index.getElem?_ne hij hsize (by simpa [toList] using heq')

/-- The empty index lists no keys. -/
@[simp] theorem toList_empty (hash : α → Nat) (capacity : Nat) :
    (empty hash capacity).toList = [] := rfl

/-- The list has a key for every number. -/
@[simp] theorem length_toList (index : DenseIndex α) : index.toList.length = index.size := by
  simp [toList, size]

/-- The key at a place of the list is the key with this number. -/
@[simp] theorem getElem?_toList (index : DenseIndex α) (id : Nat) :
    index.toList[id]? = index.get? id := by
  simp [toList, get?]

/-- A new key goes behind all others. -/
theorem toList_append {index : DenseIndex α} {key : α} (h : index.find? key = none) :
    (index.append key h).toList = index.toList ++ [key] := by
  simp [append, toList]

/-- A new key goes behind all others. -/
theorem toList_insert (index : DenseIndex α) (key : α) :
    (index.insert key).1.toList =
      if key ∈ index.toList then index.toList else index.toList ++ [key] := by
  unfold insert
  split
  · rename_i id h
    rw [if_pos (List.mem_of_getElem? (find?_eq_some_iff.1 h))]
  · rename_i h
    rw [if_neg (find?_eq_none_iff.1 h), toList_append h]

/-- An insertion changes no number that was given before. -/
theorem get?_insert {index : DenseIndex α} {id : Nat} {k : α} (h : index.get? id = some k)
    (key : α) : (index.insert key).1.get? id = some k := by
  rw [← getElem?_toList] at h ⊢
  rw [toList_insert]
  split
  · exact h
  · exact List.getElem?_append_left (List.getElem?_eq_some_iff.1 h).1 ▸ h

/-- The number that an insertion gives back is the number of its key. -/
theorem getElem?_insert (index : DenseIndex α) (key : α) :
    (index.insert key).1.toList[(index.insert key).2]? = some key := by
  unfold insert
  split
  · rename_i id h
    exact find?_eq_some_iff.1 h
  · rename_i h
    simp only [toList_append h]
    rw [List.getElem?_append_right (by simp [toList])]
    simp [toList]

end DenseIndex

end PhraseTable
