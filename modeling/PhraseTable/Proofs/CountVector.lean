import Mathlib.Algebra.BigOperators.Ring.Finset
import PhraseTable.CountVector

/-!
# What an increment changes

Seen through `get`, `size` and `total`, an increment is a single addition: `get_increment` says that
one count grows and all others stay, `size_increment` how far the vector reaches, and
`total_increment` that the sum of the counts grows by the amount. The zeros that fill the slots
between show in none of the three.

A vector is told by its counts and its size (`eq_iff`), so the order of increments does not matter
(`incrementAll_perm`), and after any run of them the vector is the sparse sum of the amounts
(`incrementAll_sparseSum`). This is said of numbers that can be counted in 32 bits (`InBounds`), and
then the size is a number of 32 bits as well (`InBounds.size_le`).
-/

set_option autoImplicit false

namespace PhraseTable.CountVector

/-- No slot of the empty vector counts anything. -/
@[simp] theorem get_empty (id : Int) : empty.get id = 0 := by
  simp [get, empty]

/-- The empty vector has no slots. -/
@[simp] theorem size_empty : empty.size = 0 := rfl

/-- The empty vector counts nothing in total. -/
@[simp] theorem total_empty : empty.total = 0 := rfl

/-- A vector is extended up to the size, and never shortened. -/
@[simp] theorem size_extend (counts : Array Int) (size : Nat) :
    (extend counts size).size = max counts.size size := by
  simp only [extend, Array.size_append, Array.size_replicate]
  omega

/-- The zeros behind a vector are read there anyway. -/
theorem getD_extend (counts : Array Int) (size i : Nat) :
    (extend counts size)[i]?.getD 0 = counts[i]?.getD 0 := by
  unfold extend
  by_cases hi : i < counts.size
  · rw [Array.getElem?_append_left hi]
  · have hout : counts[i]? = none := Array.getElem?_eq_none (by omega)
    rw [Array.getElem?_append_right (by omega), Array.getElem?_replicate, hout]
    split <;> rfl

/-- A negative number is passed over. -/
theorem increment_of_neg {vector : CountVector} {id : Int} (h : id < 0) (amount : Int) :
    vector.increment id amount = vector := by
  rw [increment, if_pos h]

/-- An increment changes the count of its own number only. -/
theorem get_increment (vector : CountVector) (id amount j : Int) :
    (vector.increment id amount).get j =
      if j = id ∧ 0 ≤ id then vector.get j + amount else vector.get j := by
  by_cases hid : id < 0
  · rw [increment_of_neg hid, if_neg (by omega)]
  by_cases hj : j < 0
  · rw [if_neg (by omega)]
    simp [get, hj]
  have hread := getD_extend vector.counts (id.toNat + 1) j.toNat
  simp only [increment, get, if_neg hid, if_neg hj, Array.getElem?_modify]
  by_cases heq : j = id
  · subst heq
    have hin : j.toNat < (extend vector.counts (j.toNat + 1)).size := by
      rw [size_extend]
      omega
    rw [Array.getElem?_eq_getElem hin, Option.getD_some] at hread
    rw [if_pos rfl, if_pos ⟨rfl, by omega⟩, Array.getElem?_eq_getElem hin, Option.map_some,
      Option.getD_some, hread]
  · rw [if_neg (by omega), if_neg (by omega), hread]

/-- An increment makes room for its slot. -/
theorem size_increment (vector : CountVector) (id amount : Int) :
    (vector.increment id amount).size =
      if id < 0 then vector.size else max vector.size (id.toNat + 1) := by
  unfold increment
  split
  · rfl
  · simp [size]

/-- Behind the last slot nothing was counted. -/
theorem get_of_size_le {vector : CountVector} {slot : Nat} (h : vector.size ≤ slot) :
    vector.get slot = 0 := by
  have hout : vector.counts[slot]? = none := Array.getElem?_eq_none h
  simp [get, hout]

/-- A slot of the vector is one below its size. -/
theorem getElem?_toList (vector : CountVector) (slot : Nat) :
    vector.toList[slot]? = if slot < vector.size then some (vector.get slot) else none := by
  split
  · rename_i hslot
    have hin : slot < vector.counts.size := hslot
    simp [toList, get, hin]
  · rename_i hslot
    simpa [toList, size] using hslot

/-- The total is the sum of all slots. -/
theorem total_eq_sum (vector : CountVector) : vector.total = vector.counts.toList.sum := by
  rw [total, toList, List.sum_eq_foldl]

/-- Adding to one member of a row adds to its sum. -/
theorem sum_modify (counts : List Int) {i : Nat} (h : i < counts.length) (amount : Int) :
    (counts.modify i (· + amount)).sum = counts.sum + amount := by
  induction counts generalizing i with
  | nil => simp at h
  | cons count rest ih =>
    cases i with
    | zero =>
      simp only [List.modify_zero_cons, List.sum_cons]
      omega
    | succ i =>
      have hrest := ih (i := i) (by simpa using h)
      simp only [List.modify_succ_cons, List.sum_cons, hrest]
      omega

/-- Negative numbers aside, an increment adds its amount to the total. -/
theorem total_increment (vector : CountVector) (id amount : Int) :
    (vector.increment id amount).total =
      if id < 0 then vector.total else vector.total + amount := by
  unfold increment
  split
  · rfl
  · have hin : id.toNat < (extend vector.counts (id.toNat + 1)).toList.length := by
      rw [Array.length_toList, size_extend]
      omega
    rw [total_eq_sum, total_eq_sum, Array.toList_modify, sum_modify _ hin]
    simp [extend]

/-! ## Runs of increments -/

/-- The sum of the amounts for a number. Negative numbers are given nothing. -/
def sumFor (amounts : List (Int × Int)) (id : Int) : Int :=
  if 0 ≤ id then ((amounts.filter fun entry => entry.1 = id).map Prod.snd).sum else 0

/-- One more entry adds its amount to the sum for its own number. -/
theorem sumFor_cons (entry : Int × Int) (rest : List (Int × Int)) (id : Int) :
    sumFor (entry :: rest) id =
      (if id = entry.1 ∧ 0 ≤ entry.1 then entry.2 else 0) + sumFor rest id := by
  unfold sumFor
  by_cases hid : 0 ≤ id
  · rw [if_pos hid, if_pos hid]
    by_cases hsame : entry.1 = id
    · rw [List.filter_cons_of_pos (by simpa using hsame), List.map_cons, List.sum_cons,
        if_pos (by omega)]
    · rw [List.filter_cons_of_neg (by simpa using hsame), if_neg (by omega), Int.zero_add]
  · rw [if_neg hid, if_neg hid, if_neg (by omega), Int.zero_add]

/-- The increments are made from the first one on. -/
theorem incrementAll_cons (vector : CountVector) (entry : Int × Int) (rest : List (Int × Int)) :
    vector.incrementAll (entry :: rest) =
      (vector.increment entry.1 entry.2).incrementAll rest := rfl

/-- After all increments a slot holds what was added for its number. -/
theorem get_incrementAll (vector : CountVector) (amounts : List (Int × Int)) (id : Int) :
    (vector.incrementAll amounts).get id = vector.get id + sumFor amounts id := by
  induction amounts generalizing vector with
  | nil => simp [incrementAll, sumFor]
  | cons entry rest ih =>
    rw [incrementAll_cons, ih, get_increment, sumFor_cons]
    split <;> omega

/-- The total grows by the amounts of all numbers that are not negative. -/
theorem total_incrementAll (vector : CountVector) (amounts : List (Int × Int)) :
    (vector.incrementAll amounts).total =
      vector.total + ((amounts.filter fun entry => 0 ≤ entry.1).map Prod.snd).sum := by
  induction amounts generalizing vector with
  | nil => simp [incrementAll]
  | cons entry rest ih =>
    rw [incrementAll_cons, ih, total_increment]
    by_cases hneg : entry.1 < 0
    · rw [if_pos hneg, List.filter_cons_of_neg (by simpa using hneg)]
    · rw [if_neg hneg, List.filter_cons_of_pos (by simpa using hneg), List.map_cons, List.sum_cons,
        Int.add_assoc]

/-- Counting numbers one by one counts how often each of them occurs. -/
theorem get_incrementAll_ones (vector : CountVector) (ids : List Int) (id : Nat) :
    (vector.incrementAll (ids.map fun id => (id, 1))).get id =
      vector.get id + ids.countP (· = (id : Int)) := by
  rw [get_incrementAll, List.countP_eq_length_filter]
  simp [sumFor, List.filter_map, Function.comp_def]

/-- The vector reaches up to the largest number that was counted, and has no slot if none was. -/
theorem size_incrementAll (amounts : List (Int × Int)) :
    ((∀ entry ∈ amounts, entry.1 < 0) ∧ (empty.incrementAll amounts).size = 0) ∨
      ∃ top ∈ amounts, 0 ≤ top.1 ∧ (∀ entry ∈ amounts, entry.1 ≤ top.1) ∧
        ((empty.incrementAll amounts).size : Int) = top.1 + 1 := by
  induction amounts using List.reverseRecOn with
  | nil => exact Or.inl ⟨nofun, rfl⟩
  | append_singleton front last ih =>
    have hlast : empty.incrementAll (front ++ [last]) =
        (empty.incrementAll front).increment last.1 last.2 := List.foldl_concat ..
    rw [hlast, size_increment]
    simp only [List.forall_mem_append, List.forall_mem_singleton]
    by_cases hneg : last.1 < 0
    · rw [if_pos hneg]
      obtain ⟨hfront, hsize⟩ | ⟨top, htop, hnonneg, hmax, hsize⟩ := ih
      · exact Or.inl ⟨⟨hfront, hneg⟩, hsize⟩
      · exact Or.inr ⟨top, List.mem_append_left _ htop, hnonneg, ⟨hmax, by omega⟩, hsize⟩
    · rw [if_neg hneg]
      right
      obtain ⟨hfront, hsize⟩ | ⟨top, htop, hnonneg, hmax, hsize⟩ := ih
      · refine ⟨last, List.mem_concat_self, by omega, ⟨?_, le_refl _⟩, by omega⟩
        intro entry hentry
        have := hfront entry hentry
        omega
      · by_cases hle : last.1 ≤ top.1
        · exact ⟨top, List.mem_append_left _ htop, hnonneg, ⟨hmax, hle⟩, by omega⟩
        · refine ⟨last, List.mem_concat_self, by omega, ⟨?_, le_refl _⟩, by omega⟩
          intro entry hentry
          have := hmax entry hentry
          omega

/-- A number that was counted has a slot. -/
theorem contains_of_get_ne_zero {vector : CountVector} {id : Nat} (h : vector.get id ≠ 0) :
    vector.contains id = true := by
  unfold contains
  rw [decide_eq_true_iff]
  refine ⟨by omega, ?_⟩
  by_contra hout
  exact h (get_of_size_le (by omega))

/-! ## Sparse sums -/

/-- Vectors of one size with the same counts are equal. The size counts, too: zeros may stand at the
end of a vector. -/
theorem eq_iff {v w : CountVector} :
    v = w ↔ (∀ id : Int, v.get id = w.get id) ∧ v.size = w.size := by
  constructor
  · rintro rfl
    exact ⟨fun _ => rfl, rfl⟩
  · rintro ⟨hget, hsize⟩
    have hlist : v.toList = w.toList := by
      apply List.ext_getElem?
      intro slot
      rw [getElem?_toList, getElem?_toList, hsize, hget]
    obtain ⟨counts⟩ := v
    obtain ⟨counts'⟩ := w
    exact congrArg mk (Array.toList_inj.1 hlist)

/-- Two increments may be made in either order. -/
theorem increment_comm (vector : CountVector) (first second : Int × Int) :
    (vector.increment first.1 first.2).increment second.1 second.2 =
      (vector.increment second.1 second.2).increment first.1 first.2 := by
  refine eq_iff.2 ⟨fun id => ?_, ?_⟩
  · simp only [get_increment]
    split <;> split <;> omega
  · simp only [size_increment]
    split <;> split <;> omega

/-- Increments may be made in any order. -/
theorem incrementAll_perm {amounts others : List (Int × Int)} (h : amounts.Perm others)
    (vector : CountVector) : vector.incrementAll amounts = vector.incrementAll others :=
  h.foldl_eq' (fun first _ second _ vector => vector.increment_comm first second) vector

/-- The largest number that is not negative, if there is one. -/
def largest? (amounts : List (Int × Int)) : Option Int :=
  ((amounts.map Prod.fst).filter fun id => 0 ≤ id).max?

/-- Only numbers that are not negative come into question as the largest. -/
theorem nonneg_of_largest? {amounts : List (Int × Int)} {top : Int}
    (h : largest? amounts = some top) : 0 ≤ top := by
  have hmem := List.max?_mem h
  simpa using (List.mem_filter.1 hmem).2

/-- The vector reaches up to the largest number. -/
theorem size_incrementAll_eq (amounts : List (Int × Int)) :
    ((empty.incrementAll amounts).size : Int) = (largest? amounts).elim 0 (· + 1) := by
  obtain ⟨hneg, hsize⟩ | ⟨top, htop, hnonneg, hmax, hsize⟩ := size_incrementAll amounts
  · have hnone : largest? amounts = none := by
      unfold largest?
      rw [List.max?_eq_none_iff, List.filter_eq_nil_iff]
      intro id hid
      obtain ⟨entry, hentry, rfl⟩ := List.mem_map.1 hid
      simpa using hneg entry hentry
    rw [hsize, hnone]
    rfl
  · have hsome : largest? amounts = some top.1 := by
      unfold largest?
      rw [List.max?_eq_some_iff]
      refine ⟨List.mem_filter.2 ⟨List.mem_map_of_mem htop, by simpa using hnonneg⟩, ?_⟩
      intro id hid
      obtain ⟨entry, hentry, rfl⟩ := List.mem_map.1 (List.mem_filter.1 hid).1
      exact hmax entry hentry
    rw [hsize, hsome]
    rfl

/-- Two vectors have one size just when their largest numbers are the same. -/
theorem size_incrementAll_eq_iff (amounts others : List (Int × Int)) :
    (empty.incrementAll amounts).size = (empty.incrementAll others).size ↔
      largest? amounts = largest? others := by
  rw [← Int.natCast_inj, size_incrementAll_eq, size_incrementAll_eq]
  -- the vector without slots stands apart, since the largest number is not -1
  cases htop : largest? amounts with
  | none =>
    cases htop' : largest? others with
    | none => exact iff_of_true rfl rfl
    | some top' =>
      have hnonneg := nonneg_of_largest? htop'
      refine iff_of_false (fun h => ?_) nofun
      rw [Option.elim_none, Option.elim_some] at h
      omega
  | some top =>
    cases htop' : largest? others with
    | none =>
      have hnonneg := nonneg_of_largest? htop
      refine iff_of_false (fun h => ?_) nofun
      rw [Option.elim_none, Option.elim_some] at h
      omega
    | some top' =>
      rw [Option.elim_some, Option.elim_some, Option.some.injEq]
      exact Int.add_left_inj 1

/-- The largest number of 32 bits. A number has a slot only if the number behind it exists, so this
one is the first that cannot be counted. -/
def idBound : Int := 2147483647

/-- All numbers can be counted in 32 bits. -/
def InBounds (amounts : List (Int × Int)) : Prop :=
  ∀ entry ∈ amounts, entry.1 < idBound

instance (amounts : List (Int × Int)) : Decidable (InBounds amounts) :=
  inferInstanceAs (Decidable (∀ entry ∈ amounts, entry.1 < idBound))

/-- Where all numbers can be counted, the number of slots is one of 32 bits. -/
theorem InBounds.size_le {amounts : List (Int × Int)} (h : InBounds amounts) :
    ((empty.incrementAll amounts).size : Int) ≤ idBound := by
  obtain ⟨-, hsize⟩ | ⟨top, htop, -, -, hsize⟩ := size_incrementAll amounts
  · rw [hsize]
    decide
  · have hbound := h top htop
    rw [hsize]
    omega

/-- The vector holds the sums of the amounts that its numbers were given. -/
structure SparseSum (vector : CountVector) (amounts : List (Int × Int)) : Prop where
  get_eq : ∀ id : Int, vector.get id = sumFor amounts id
  size_eq : (vector.size : Int) = (largest? amounts).elim 0 (· + 1)
  contains_iff : ∀ id : Int, vector.contains id = true ↔ 0 ≤ id ∧ id < vector.size
  total_eq : vector.total = ((amounts.filter fun entry => 0 ≤ entry.1).map Prod.snd).sum

/-- The vector of some increments is their sparse sum. -/
theorem sparseSum_incrementAll (amounts : List (Int × Int)) :
    (empty.incrementAll amounts).SparseSum amounts where
  get_eq id := by rw [get_incrementAll, get_empty, Int.zero_add]
  size_eq := size_incrementAll_eq amounts
  contains_iff id := decide_eq_true_iff
  total_eq := by rw [total_incrementAll, total_empty, Int.zero_add]

/-- **A vector of counts is a sparse sum.** After any run of increments, of numbers that can be
counted in 32 bits, every number has the sum of its amounts, the vector reaches up to the largest
number, and the total is the sum of all amounts, negative numbers always left aside. The order of
the increments leaves no trace, and two vectors are equal just if they have the same sums and the
same largest number. -/
theorem incrementAll_sparseSum {amounts : List (Int × Int)} (h : InBounds amounts) :
    (empty.incrementAll amounts).SparseSum amounts ∧
      ((empty.incrementAll amounts).size : Int) ≤ idBound ∧
      ∀ others : List (Int × Int), InBounds others →
        (amounts.Perm others → empty.incrementAll amounts = empty.incrementAll others) ∧
        ((empty.incrementAll amounts == empty.incrementAll others) = true ↔
          (∀ id : Int, sumFor amounts id = sumFor others id) ∧
            largest? amounts = largest? others) := by
  refine ⟨sparseSum_incrementAll amounts, h.size_le, fun others _ => ⟨?_, ?_⟩⟩
  · exact fun hperm => incrementAll_perm hperm empty
  · rw [beq_iff_eq, eq_iff, size_incrementAll_eq_iff]
    simp only [(sparseSum_incrementAll amounts).get_eq, (sparseSum_incrementAll others).get_eq]

/-- An amount of zero is no count, but the vector reaches up to its number, so it is another one
than the vector without it. A negative number leaves no trace. -/
theorem incrementAll_sparseSum_zero_amount :
    (empty.incrementAll [(0, 2), (-1, 5), (3, 0)]).get 0 = 2 ∧
      (empty.incrementAll [(0, 2), (-1, 5), (3, 0)]).size = 4 ∧
      (empty.incrementAll [(0, 2), (-1, 5), (3, 0)]).total = 2 ∧
      empty.incrementAll [(0, 2), (-1, 5), (3, 0)] = empty.incrementAll [(3, 0), (0, 2), (-1, 5)] ∧
      (empty.incrementAll [(0, 2), (-1, 5), (3, 0)] == empty.incrementAll [(0, 2)]) = false := by
  have hbounds : InBounds [(0, 2), (-1, 5), (3, 0)] := by decide
  obtain ⟨hsum, -, hothers⟩ := incrementAll_sparseSum hbounds
  obtain ⟨hperm, -⟩ := hothers [(3, 0), (0, 2), (-1, 5)] (by decide)
  obtain ⟨-, hequal⟩ := hothers [(0, 2)] (by decide)
  have hlargest : largest? [(0, 2), (-1, 5), (3, 0)] = some 3 := by decide
  have hsize := hsum.size_eq
  rw [hlargest] at hsize
  refine ⟨hsum.get_eq 0, Int.ofNat_inj.1 hsize, hsum.total_eq, hperm (by decide), ?_⟩
  · rw [Bool.eq_false_iff, Ne, hequal]
    exact fun h => absurd h.2 (by decide)

end PhraseTable.CountVector
