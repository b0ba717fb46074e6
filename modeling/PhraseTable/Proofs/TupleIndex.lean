import Mathlib.Algebra.Group.Nat.Defs
import PhraseTable.Proofs.DenseIndex
import PhraseTable.TupleIndex

/-!
# An index of tuples is a list of tuples

The reference for an index of tuples is the list of the distinct tuples in the order in which they
were first entered: `listCall` answers a call from that list alone, with no hash and no table.
`call_eq_listCall` says that an index answers each single call as its list does, and
`calls_refine_list` that it does so in every run of calls from the empty index on.

`FollowsList` collects what holds of the index after every run: the numbers that were given never
change, a call that enters nothing changes nothing, and the search for any tuple ends because at
most half of the slots are full.
-/

set_option autoImplicit false

namespace PhraseTable.TupleIndex

/-- A call on an index of tuples. -/
inductive Call where
  /-- Asks for the number of a tuple, and enters a missing tuple if `create` is set. -/
  | indexOf (tuple : List Int) (create : Bool)
  | find (tuple : List Int)
  | get (id : Int)
deriving DecidableEq, Repr

/-- What a call gives back. A missing tuple has no number. -/
inductive Reply where
  | number (id : Option Nat)
  | tuple (tuple : List Int)
deriving DecidableEq, Repr

/-- The tuples in the order of their numbers. -/
def toList (tuples : TupleIndex) : List (List Int) :=
  tuples.index.toList

/-- Carries out a call. -/
def call (tuples : TupleIndex) : Call → TupleIndex × Except TupleError Reply
  | .indexOf tuple create =>
    match tuples.indexOf tuple create with
    | .ok (after, id) => (after, .ok (.number id))
    | .error error => (tuples, .error error)
  | .find tuple => (tuples, (tuples.find tuple).map .number)
  | .get id => (tuples, (tuples.get id).map .tuple)

/-- Carries out calls one after the other. -/
def calls (tuples : TupleIndex) : List Call → TupleIndex × List (Except TupleError Reply)
  | [] => (tuples, [])
  | made :: rest =>
    let (next, reply) := tuples.call made
    let (last, replies) := next.calls rest
    (last, reply :: replies)

/-- Answers a call from the list of the distinct tuples in the order of their first entry. -/
def listCall (arity : Nat) (row : List (List Int)) :
    Call → List (List Int) × Except TupleError Reply
  | .indexOf tuple create =>
    if tuple.length ≠ arity then (row, .error (.wrongSize arity tuple.length))
    else if create ∧ tuple ∉ row then (row ++ [tuple], .ok (.number (some row.length)))
    else (row, .ok (.number (row.idxOf? tuple)))
  | .find tuple =>
    if tuple.length ≠ arity then (row, .error (.wrongSize arity tuple.length))
    else (row, .ok (.number (row.idxOf? tuple)))
  | .get id =>
    if 0 ≤ id ∧ id < row.length then (row, .ok (.tuple (row.getD id.toNat [])))
    else (row, .error (.unknownId id))

/-- Answers calls from the list one after the other. -/
def listCalls (arity : Nat) (row : List (List Int)) :
    List Call → List (List Int) × List (Except TupleError Reply)
  | [] => (row, [])
  | made :: rest =>
    let (next, reply) := listCall arity row made
    let (last, replies) := listCalls arity next rest
    (last, reply :: replies)

/-! ## One call -/

/-- There is a tuple for every number. -/
theorem length_toList (tuples : TupleIndex) : tuples.toList.length = tuples.size :=
  tuples.index.length_toList

/-- A tuple of the right length is looked up, and one of another length is refused. -/
theorem indexOf_eq (tuples : TupleIndex) (tuple : List Int) (create : Bool) :
    tuples.indexOf tuple create =
      if tuple.length = tuples.arity then
        .ok ({ tuples with index := (tuples.index.indexOf tuple create).1 },
          (tuples.index.indexOf tuple create).2)
      else .error (.wrongSize tuples.arity tuple.length) := by
  unfold indexOf checkSize
  split <;> rfl

/-- A tuple is found at its place in the list, and one of the wrong size is refused. -/
theorem find_eq (tuples : TupleIndex) (tuple : List Int) :
    tuples.find tuple =
      if tuple.length = tuples.arity then .ok (tuples.toList.idxOf? tuple)
      else .error (.wrongSize tuples.arity tuple.length) := by
  have hfind : tuples.index.find? tuple = tuples.toList.idxOf? tuple :=
    tuples.index.find?_eq_idxOf? tuple
  unfold find checkSize
  rw [hfind]
  split <;> rfl

/-- A number below the size has its tuple, and any other one is refused. -/
theorem get_eq (tuples : TupleIndex) (id : Int) :
    tuples.get id =
      if 0 ≤ id ∧ id < tuples.size then .ok (tuples.toList.getD id.toNat [])
      else .error (.unknownId id) := by
  unfold get DenseIndex.lookup
  cases id with
  | ofNat n =>
    have hcast : Int.ofNat n = (n : Int) := rfl
    have hget : tuples.index.get? n = tuples.toList[n]? := (tuples.index.getElem?_toList n).symm
    by_cases hn : n < tuples.size
    · have hlt : n < tuples.toList.length := by rwa [length_toList]
      rw [if_pos (by omega)]
      simp [hget, List.getElem?_eq_getElem hlt]
    · have hout : tuples.toList[n]? = none := by
        rw [List.getElem?_eq_none_iff, length_toList]
        omega
      rw [if_neg (by omega)]
      simp [hget, hout]
  | negSucc n =>
    rw [if_neg (by omega)]

/-- An index answers a call as its list does, and its list changes as the call says. -/
theorem call_eq_listCall (tuples : TupleIndex) (made : Call) :
    ((tuples.call made).1.toList, (tuples.call made).2) =
      listCall tuples.arity tuples.toList made := by
  cases made with
  | indexOf tuple create =>
    simp only [call, listCall, indexOf_eq]
    by_cases hsize : tuple.length = tuples.arity
    · rw [if_pos hsize, if_neg (not_not_intro hsize)]
      cases create with
      | false => simp [DenseIndex.indexOf, toList, DenseIndex.find?_eq_idxOf?]
      | true =>
        by_cases hmem : tuple ∈ tuples.toList
        · obtain ⟨id, hid⟩ := Option.ne_none_iff_exists'.1 fun hnone =>
            DenseIndex.find?_eq_none_iff.1 hnone hmem
          have hplace := DenseIndex.find?_eq_idxOf? tuples.index tuple
          rw [hid] at hplace
          simp [DenseIndex.indexOf, DenseIndex.insert_of_find? hid, toList, ← hplace,
            List.mem_of_getElem? (DenseIndex.find?_eq_some_iff.1 hid)]
        · have hnone := DenseIndex.find?_eq_none_iff.2 hmem
          have hlist : (tuples.index.insert tuple).1.toList = tuples.toList ++ [tuple] := by
            rw [DenseIndex.toList_insert]
            exact if_neg hmem
          rw [if_pos ⟨rfl, hmem⟩, length_toList]
          simp [DenseIndex.indexOf, DenseIndex.snd_insert_of_find?_eq_none hnone, toList, hlist,
            size]
    · rw [if_neg hsize, if_pos hsize]
  | find tuple =>
    simp only [call, listCall, find_eq]
    by_cases hsize : tuple.length = tuples.arity
    · rw [if_pos hsize, if_neg (not_not_intro hsize)]
      rfl
    · rw [if_neg hsize, if_pos hsize]
      rfl
  | get id =>
    simp only [call, listCall, get_eq, length_toList]
    split <;> rfl

/-- No call changes the size of tuples. -/
@[simp] theorem arity_call (tuples : TupleIndex) (made : Call) :
    (tuples.call made).1.arity = tuples.arity := by
  cases made with
  | indexOf tuple create =>
    simp only [call, indexOf_eq]
    by_cases hsize : tuple.length = tuples.arity
    · rw [if_pos hsize]
    · rw [if_neg hsize]
  | find tuple => rfl
  | get id => rfl

/-- A call that enters nothing leaves the whole index as it was, its table included. -/
theorem call_eq_self (tuples : TupleIndex) (made : Call)
    (h : (tuples.call made).1.size = tuples.size) : (tuples.call made).1 = tuples := by
  cases made with
  | indexOf tuple create =>
    simp only [call, indexOf_eq] at h ⊢
    by_cases hsize : tuple.length = tuples.arity
    · simp only [if_pos hsize] at h ⊢
      cases create with
      | false => rfl
      | true =>
        simp only [DenseIndex.indexOf, if_true, size] at h ⊢
        cases hfind : tuples.index.find? tuple with
        | none =>
          rw [DenseIndex.size_insert, if_neg (DenseIndex.find?_eq_none_iff.1 hfind)] at h
          omega
        | some id => rw [DenseIndex.insert_of_find? hfind]
    · rw [if_neg hsize]
  | find tuple => rfl
  | get id => rfl

/-! ## Runs of calls -/

/-- What every call keeps: all tuples have the length of the index, and the number of slots is a
power of two. -/
structure WellFormed (tuples : TupleIndex) : Prop where
  length_eq : ∀ tuple ∈ tuples.toList, tuple.length = tuples.arity
  slots_size : ∃ k : Nat, tuples.index.slots.size = 2 ^ k

/-- A call keeps the size of the table or doubles it. -/
theorem slots_size_call (tuples : TupleIndex) (made : Call) :
    (tuples.call made).1.index.slots.size = tuples.index.slots.size ∨
      (tuples.call made).1.index.slots.size = 2 * tuples.index.slots.size := by
  cases made with
  | indexOf tuple create =>
    simp only [call, indexOf_eq]
    by_cases hsize : tuple.length = tuples.arity
    · simp only [if_pos hsize]
      cases create with
      | false => exact Or.inl rfl
      | true => exact tuples.index.slots_size_insert tuple
    · rw [if_neg hsize]
      exact Or.inl rfl
  | find tuple => exact Or.inl rfl
  | get id => exact Or.inl rfl

/-- A call enters at most one tuple, one of the right length, behind all others. -/
theorem toList_call (tuples : TupleIndex) (made : Call) :
    (tuples.call made).1.toList = tuples.toList ∨
      ∃ tuple : List Int, tuple.length = tuples.arity ∧
        (tuples.call made).1.toList = tuples.toList ++ [tuple] := by
  have hlist := congrArg Prod.fst (call_eq_listCall tuples made)
  dsimp only at hlist
  rw [hlist]
  unfold listCall
  split
  · split
    · exact Or.inl rfl
    · rename_i hsize
      split
      · exact Or.inr ⟨_, Decidable.not_not.1 hsize, rfl⟩
      · exact Or.inl rfl
  · split <;> exact Or.inl rfl
  · split <;> exact Or.inl rfl

/-- A call leaves all tuples with the right size. -/
theorem WellFormed.call {tuples : TupleIndex} (h : tuples.WellFormed) (made : Call) :
    (tuples.call made).1.WellFormed where
  length_eq := by
    rw [arity_call]
    obtain hsame | ⟨new, hnew, happend⟩ := toList_call tuples made
    · rw [hsame]
      exact h.length_eq
    · rw [happend]
      intro tuple hmem
      rcases List.mem_append.1 hmem with hold | hlast
      · exact h.length_eq tuple hold
      · rw [List.mem_singleton.1 hlast]
        exact hnew
  slots_size := by
    obtain ⟨k, hk⟩ := h.slots_size
    obtain hsame | hdouble := slots_size_call tuples made
    · exact ⟨k, hsame.trans hk⟩
    · refine ⟨k + 1, ?_⟩
      rw [hdouble, hk, Nat.pow_succ, Nat.mul_comm]

/-- Calls leave all tuples with the right size. -/
theorem WellFormed.calls {tuples : TupleIndex} (h : tuples.WellFormed) (made : List Call) :
    (tuples.calls made).1.WellFormed := by
  induction made generalizing tuples with
  | nil => exact h
  | cons first rest ih => exact ih (h.call first)

/-- An index answers a run of calls as its list does. -/
theorem calls_eq_listCalls (tuples : TupleIndex) (made : List Call) :
    ((tuples.calls made).1.toList, (tuples.calls made).2) =
      listCalls tuples.arity tuples.toList made := by
  induction made generalizing tuples with
  | nil => rfl
  | cons first rest ih =>
    have hrest := ih (tuples.call first).1
    rw [arity_call] at hrest
    simp only [calls, listCalls, ← call_eq_listCall, ← hrest]

/-- Calls take no number away. -/
theorem prefix_calls (tuples : TupleIndex) (made : List Call) :
    tuples.toList <+: (tuples.calls made).1.toList := by
  induction made generalizing tuples with
  | nil => exact List.prefix_refl _
  | cons first rest ih =>
    have hfirst : tuples.toList <+: (tuples.call first).1.toList := by
      obtain hsame | ⟨new, -, happend⟩ := toList_call tuples first
      · exact ⟨[], (List.append_nil _).trans hsame.symm⟩
      · exact ⟨[new], happend.symm⟩
    exact hfirst.trans (ih (tuples.call first).1)

/-- A tuple is given just for its own number. -/
theorem get_eq_ok_iff {tuples : TupleIndex} {id : Int} {tuple : List Int} :
    tuples.get id = .ok tuple ↔ 0 ≤ id ∧ tuples.toList[id.toNat]? = some tuple := by
  rw [get_eq]
  by_cases hin : 0 ≤ id ∧ id < tuples.size
  · have hlt : id.toNat < tuples.toList.length := by
      rw [length_toList]
      omega
    rw [if_pos hin]
    simp [hin.1, List.getElem?_eq_getElem hlt]
  · have hout : 0 ≤ id → tuples.toList[id.toNat]? = none := by
      intro hid
      rw [List.getElem?_eq_none_iff, length_toList]
      omega
    rw [if_neg hin]
    constructor
    · intro h
      cases h
    · rintro ⟨hid, h⟩
      rw [hout hid] at h
      cases h

/-- What holds of an index after every run of calls, if `row` is the list of the distinct tuples in
the order in which they were first entered. -/
structure FollowsList (tuples : TupleIndex) (row : List (List Int)) : Prop where
  toList_eq : tuples.toList = row
  nodup : row.Nodup
  /-- A number stays with its tuple, whatever is called later. -/
  get_calls : ∀ (later : List Call) (id : Int) (tuple : List Int),
    tuples.get id = .ok tuple → (tuples.calls later).1.get id = .ok tuple
  /-- A tuple is found under its own number. -/
  find_get : ∀ (id : Int) (tuple : List Int),
    tuples.get id = .ok tuple → tuples.find tuple = .ok (some id.toNat)
  /-- A call that enters nothing leaves everything as it was. -/
  call_eq_self : ∀ made : Call,
    (tuples.call made).1.size = tuples.size → (tuples.call made).1 = tuples
  slots_size : ∃ k : Nat, tuples.index.slots.size = 2 ^ k
  half_free : 2 * tuples.size ≤ tuples.index.slots.size
  /-- From its home slot on, the search for a tuple comes to a slot where it stops. -/
  search_ends : ∀ tuple : List Int, ∃ d < tuples.index.slots.size,
    Probing.Stops tuples.index.keys tuples.index.slots tuple
      ((tuples.index.hash tuple + d) % tuples.index.slots.size)

/-- A well-formed index follows the list of its tuples. -/
theorem WellFormed.followsList {tuples : TupleIndex} (h : tuples.WellFormed) :
    tuples.FollowsList tuples.toList where
  toList_eq := rfl
  nodup := tuples.index.nodup_toList
  get_calls := by
    intro later id tuple hget
    obtain ⟨hid, hplace⟩ := get_eq_ok_iff.1 hget
    obtain ⟨hlt, -⟩ := List.getElem?_eq_some_iff.1 hplace
    obtain ⟨new, hnew⟩ := prefix_calls tuples later
    refine get_eq_ok_iff.2 ⟨hid, ?_⟩
    rw [← hnew, List.getElem?_append_left hlt, hplace]
  find_get := by
    intro id tuple hget
    obtain ⟨-, hplace⟩ := get_eq_ok_iff.1 hget
    have hfind : tuples.index.find? tuple = some id.toNat := DenseIndex.find?_eq_some_iff.2 hplace
    rw [find_eq, if_pos (h.length_eq tuple (List.mem_of_getElem? hplace)), ← hfind]
    exact congrArg Except.ok (tuples.index.find?_eq_idxOf? tuple).symm
  call_eq_self := tuples.call_eq_self
  slots_size := h.slots_size
  half_free := tuples.index.half_free
  search_ends := tuples.index.exists_stops

/-- An index for tuples with a positive size is made, and is empty. -/
theorem create_of_pos (hash : List Int → Nat) {arity : Int} (harity : 1 ≤ arity) (capacity : Nat) :
    ∃ start, create hash arity capacity = .ok start ∧ start.arity = arity.toNat ∧
      start.toList = [] ∧ start.WellFormed := by
  have hpos : 0 < arity := by omega
  refine ⟨_, dif_pos hpos, rfl, rfl, ?_, (capacity - 1).log2 + 1, ?_⟩
  · intro tuple hmem
    cases hmem
  · simp [DenseIndex.empty, DenseIndex.tableSize, Nat.pow_succ, Nat.mul_comm]

/-- **The refinement.** Whatever function of a tuple selects its home slot and however small the
table is at first, every run of calls on an empty index is answered as the list of the distinct
tuples answers it, and leaves an index that follows this list. -/
theorem calls_refine_list (hash : List Int → Nat) {arity : Int} (harity : 1 ≤ arity)
    (capacity : Nat) (made : List Call) :
    ∃ start, create hash arity capacity = .ok start ∧
      (start.calls made).2 = (listCalls arity.toNat [] made).2 ∧
      (start.calls made).1.FollowsList (listCalls arity.toNat [] made).1 := by
  obtain ⟨start, hcreate, hsame, hempty, hwell⟩ := create_of_pos hash harity capacity
  have hcalls := calls_eq_listCalls start made
  rw [hsame, hempty] at hcalls
  refine ⟨start, hcreate, congrArg Prod.snd hcalls, ?_⟩
  have hlist : (start.calls made).1.toList = (listCalls arity.toNat [] made).1 :=
    congrArg Prod.fst hcalls
  rw [← hlist]
  exact (hwell.calls made).followsList

/-- Five tuples with one home slot in a table of two slots, which has to grow three times. -/
theorem calls_refine_list_one_home :
    (1 : Int) ≤ 2 ∧ ∃ start, create (fun _ => 3) 2 0 = .ok start ∧
      (start.calls
        [.indexOf [1, 1] true, .indexOf [1, 2] true, .find [2, 1], .indexOf [2, 1] true,
          .indexOf [1, 2, 3] true, .indexOf [2, 2] false, .indexOf [2, 2] true,
          .indexOf [1, 1] true, .indexOf [0, 0] true, .find [2, 2], .get 2, .get 5,
          .get (-1)]).2 =
        [.ok (.number (some 0)), .ok (.number (some 1)), .ok (.number none),
          .ok (.number (some 2)), .error (.wrongSize 2 3), .ok (.number none),
          .ok (.number (some 3)), .ok (.number (some 0)), .ok (.number (some 4)),
          .ok (.number (some 3)), .ok (.tuple [2, 1]), .error (.unknownId 5),
          .error (.unknownId (-1))] := by
  refine ⟨by decide, ?_⟩
  obtain ⟨start, hcreate, hreplies, -⟩ :=
    calls_refine_list (fun _ => 3) (show (1 : Int) ≤ 2 by decide) 0 _
  exact ⟨start, hcreate, hreplies.trans rfl⟩

end PhraseTable.TupleIndex
