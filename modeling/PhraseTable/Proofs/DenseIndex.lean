import PhraseTable.DenseIndex.Basic

/-!
# Dense indexes as lists

Every operation of a dense index is an operation on the list of its keys: `find?_eq_idxOf?` for
looking a key up, `insert_of_find?` and `snd_insert_of_find?_eq_none` for entering it. Below that
view stands the table: `exists_stops` says that the search for any key comes to a slot where it
stops, and `slots_size_insert` that the table keeps its size or doubles it.

`insertKeys` enters keys one after the other. It gives numbers to new keys alone
(`insertKeys_of_subset`), and takes none away (`extends_insertKeys`).
-/

set_option autoImplicit false

namespace PhraseTable

namespace Probing

variable {α : Type} [DecidableEq α]

/-- Does the search for a key stop at this slot? It does if the slot is free or names the key. -/
def Stops (keys : Array α) (slots : Array (Option Nat)) (key : α) (slot : Nat) : Prop :=
  slots[slot]? = some none ∨ ∃ id : Nat, slots[slot]? = some (some id) ∧ keys[id]? = some key

variable {hash : α → Nat} {keys : Array α} {slots : Array (Option Nat)}

/-- A search with an outcome has come to a slot where it stops. -/
theorem exists_stops_of_searchFrom {key : α} {slot fuel : Nat} (hslot : slot < slots.size)
    (h : searchFrom keys slots key slot fuel ≠ none) :
    ∃ d < fuel, Stops keys slots key ((slot + d) % slots.size) := by
  induction fuel generalizing slot with
  | zero => simp [searchFrom] at h
  | succ fuel ih =>
    by_cases hstop : Stops keys slots key slot
    · exact ⟨0, by omega, by simpa [Nat.mod_eq_of_lt hslot] using hstop⟩
    · have hnext : searchFrom keys slots key ((slot + 1) % slots.size) fuel ≠ none := by
        intro hnone
        apply h
        unfold searchFrom
        split
        · rfl
        · rename_i hfree
          exact absurd (Or.inl hfree) hstop
        · rename_i id hid
          rw [if_neg fun hkey => hstop (Or.inr ⟨id, hid, hkey⟩), hnone]
      obtain ⟨d, hd, hstops⟩ := ih (Nat.mod_lt _ (by omega)) hnext
      refine ⟨d + 1, by omega, ?_⟩
      rw [Nat.mod_add_mod] at hstops
      rw [show slot + (d + 1) = slot + 1 + d by omega]
      exact hstops

/-- A number that is placed leaves the size of the table as it is. -/
@[simp] theorem size_place (id : Nat) : (place hash keys slots id).size = slots.size := by
  unfold place
  split
  · rfl
  · split <;> simp

/-- A table is rebuilt in the size that is asked for. -/
@[simp] theorem size_rebuild (size : Nat) : (rebuild hash keys size).size = size := by
  have fold (ids : List Nat) (slots : Array (Option Nat)) :
      (ids.foldl (place hash keys) slots).size = slots.size := by
    induction ids generalizing slots with
    | nil => rfl
    | cons id ids ih => rw [List.foldl_cons, ih, size_place]
  rw [rebuild, fold, Array.size_replicate]

/-- The table keeps its size or doubles it. -/
theorem size_enter (key : α) :
    (enter hash keys slots key).2.size = slots.size ∨
      (enter hash keys slots key).2.size = 2 * slots.size := by
  unfold enter
  dsimp only
  split
  · exact Or.inl (size_place _)
  · exact Or.inr (size_rebuild _)

end Probing

namespace DenseIndex

variable {α : Type} [DecidableEq α]

/-- The search for a key ends, since at least half of the slots are free. -/
theorem exists_stops (index : DenseIndex α) (key : α) :
    ∃ d < index.slots.size, Probing.Stops index.keys index.slots key
      ((index.hash key + d) % index.slots.size) := by
  have htwo := index.two_le
  have hhalf := index.half_free
  have hfree : index.slots.countP Option.isSome < index.slots.size := by
    rw [index.placed.full]
    omega
  have hsearch : Probing.search index.hash index.keys index.slots key ≠ none :=
    Probing.search_ne_none hfree
  obtain ⟨d, hd, hstops⟩ :=
    Probing.exists_stops_of_searchFrom (Nat.mod_lt _ (by omega)) hsearch
  rw [Nat.mod_add_mod] at hstops
  exact ⟨d, hd, hstops⟩

/-- A key has the number of its place in the list. -/
theorem find?_eq_idxOf? [BEq α] [LawfulBEq α] (index : DenseIndex α) (key : α) :
    index.find? key = index.toList.idxOf? key := by
  cases hplace : index.toList.idxOf? key with
  | none => exact find?_eq_none_iff.2 (List.idxOf?_eq_none_iff.1 hplace)
  | some id =>
    obtain ⟨hid, hkey, -⟩ := List.findIdx?_eq_some_iff_getElem.1 hplace
    rw [find?_eq_some_iff, List.getElem?_eq_getElem hid, eq_of_beq hkey]

/-- Entering a key that is there already changes nothing. -/
theorem insert_of_find? {index : DenseIndex α} {key : α} {id : Nat}
    (h : index.find? key = some id) : index.insert key = (index, id) := by
  unfold insert
  split
  · rename_i found hfound
    rw [h, Option.some.injEq] at hfound
    rw [hfound]
  · rename_i hnone
    rw [h] at hnone
    cases hnone

/-- A new key is given the next number. -/
theorem snd_insert_of_find?_eq_none {index : DenseIndex α} {key : α} (h : index.find? key = none) :
    (index.insert key).2 = index.size := by
  unfold insert
  split
  · rename_i found hfound
    rw [h] at hfound
    cases hfound
  · rfl

/-- The table keeps its size or doubles it when a key is entered. -/
theorem slots_size_insert (index : DenseIndex α) (key : α) :
    (index.insert key).1.slots.size = index.slots.size ∨
      (index.insert key).1.slots.size = 2 * index.slots.size := by
  unfold insert
  split
  · exact Or.inl rfl
  · exact Probing.size_enter key

/-- There is one more number for a new key and for no other. -/
theorem size_insert (index : DenseIndex α) (key : α) :
    (index.insert key).1.size = if key ∈ index.toList then index.size else index.size + 1 := by
  rw [← length_toList, toList_insert]
  split <;> simp

/-- A number belongs to one key. -/
theorem eq_of_find? {index : DenseIndex α} {key key' : α} {id : Nat}
    (h : index.find? key = some id) (h' : index.find? key' = some id) : key = key' := by
  rw [find?_eq_some_iff] at h h'
  exact Option.some.inj (h.symm.trans h')

/-- A key of the list is found, under a number below the size. -/
theorem exists_find? {index : DenseIndex α} {key : α} (h : key ∈ index.toList) :
    ∃ id < index.size, index.find? key = some id := by
  obtain ⟨id, hid⟩ := List.getElem?_of_mem h
  refine ⟨id, ?_, find?_eq_some_iff.2 hid⟩
  rw [← length_toList]
  exact (List.getElem?_eq_some_iff.1 hid).1

/-- A key that was entered is found under the number that it was given. -/
theorem find?_insert_self (index : DenseIndex α) (key : α) :
    (index.insert key).1.find? key = some (index.insert key).2 :=
  find?_eq_some_iff.2 (index.getElem?_insert key)

/-- The keys are those from before and the one that was entered. -/
theorem mem_insert {index : DenseIndex α} {key k : α} :
    k ∈ (index.insert key).1.toList ↔ k ∈ index.toList ∨ k = key := by
  rw [toList_insert]
  split
  · rename_i hmem
    constructor
    · exact Or.inl
    · rintro (hk | rfl)
      · exact hk
      · exact hmem
  · rw [List.mem_append, List.mem_singleton]

/-- A key that is there already is given its number, and a new one the next number. -/
theorem snd_insert_eq_size_iff {index : DenseIndex α} {key : α} :
    (index.insert key).2 = index.size ↔ key ∉ index.toList := by
  constructor
  · intro hsize hmem
    obtain ⟨id, hlt, hid⟩ := exists_find? hmem
    rw [insert_of_find? hid] at hsize
    exact absurd hsize (Nat.ne_of_lt hlt)
  · intro hnew
    exact snd_insert_of_find?_eq_none (find?_eq_none_iff.2 hnew)

/-! ## Indexes that extend others -/

/-- The larger index has the keys of the index under the same numbers, and maybe others behind
them. -/
def Extends (larger index : DenseIndex α) : Prop :=
  index.toList <+: larger.toList

/-- An index extends itself. -/
theorem Extends.refl (index : DenseIndex α) : index.Extends index :=
  List.prefix_refl _

/-- What extends an extension extends the index. -/
theorem Extends.trans {index larger largest : DenseIndex α} (h : largest.Extends larger)
    (h' : larger.Extends index) : largest.Extends index :=
  List.IsPrefix.trans h' h

/-- A key that is entered takes no number away. -/
theorem extends_insert (index : DenseIndex α) (key : α) : (index.insert key).1.Extends index := by
  unfold Extends
  rw [toList_insert]
  split
  · exact List.prefix_refl _
  · exact List.prefix_append _ _

/-- A key keeps its number in a larger index. -/
theorem Extends.find? {larger index : DenseIndex α} (h : larger.Extends index) {key : α} {id : Nat}
    (hfind : index.find? key = some id) : larger.find? key = some id := by
  rw [find?_eq_some_iff] at hfind ⊢
  obtain ⟨more, hmore⟩ := h
  rw [← hmore, List.getElem?_append_left (List.getElem?_eq_some_iff.1 hfind).1, hfind]

/-- A larger index has the keys of the index. -/
theorem Extends.mem {larger index : DenseIndex α} (h : larger.Extends index) {key : α}
    (hkey : key ∈ index.toList) : key ∈ larger.toList :=
  List.IsPrefix.mem hkey h

/-! ## Keys that are entered one after the other -/

/-- The index with all these keys in it. -/
def insertKeys (index : DenseIndex α) (keys : List α) : DenseIndex α :=
  keys.foldl (fun index key => (index.insert key).1) index

/-- Keys may be entered in two parts. -/
theorem insertKeys_append (index : DenseIndex α) (front back : List α) :
    index.insertKeys (front ++ back) = (index.insertKeys front).insertKeys back :=
  List.foldl_append

/-- Entered keys take no number away. -/
theorem extends_insertKeys (index : DenseIndex α) (keys : List α) :
    (index.insertKeys keys).Extends index := by
  induction keys generalizing index with
  | nil => exact .refl index
  | cons key rest ih => exact (ih (index.insert key).1).trans (index.extends_insert key)

/-- The keys of the index are those from before and those that were entered. -/
theorem mem_insertKeys {index : DenseIndex α} {keys : List α} {k : α} :
    k ∈ (index.insertKeys keys).toList ↔ k ∈ index.toList ∨ k ∈ keys := by
  induction keys generalizing index with
  | nil => simp [insertKeys]
  | cons key rest ih =>
    show k ∈ ((index.insert key).1.insertKeys rest).toList ↔ _
    rw [ih, mem_insert, List.mem_cons, or_assoc]

/-- Keys that are there already change nothing. -/
theorem insertKeys_of_subset {index : DenseIndex α} {keys : List α}
    (h : ∀ key ∈ keys, key ∈ index.toList) : index.insertKeys keys = index := by
  induction keys with
  | nil => rfl
  | cons key rest ih =>
    obtain ⟨id, -, hid⟩ := exists_find? (h key List.mem_cons_self)
    show (index.insert key).1.insertKeys rest = index
    rw [insert_of_find? hid]
    exact ih fun other hother => h other (List.mem_cons_of_mem key hother)

end DenseIndex

end PhraseTable
