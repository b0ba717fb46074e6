import Mathlib.Data.List.Forall2
import PhraseTable.Run.Passes

/-!
# Lists in another order

`reorder` reads a list at places, in the order of the places. An order that has every place once
only moves the members (`perm_reorder`), and one that is moved along with lists that belong together
keeps them together (`forall₂_reorder`, `zip_reorder`). With any order at all, the members that come
out are members of the list (`mem_of_mem_reorder`).
-/

set_option autoImplicit false

namespace PhraseTable.Run

variable {α β : Type}

/-- The member at the first of the places stands in front, if there is one. -/
theorem reorder_cons (i : Nat) (order : List Nat) (xs : List α) :
    reorder (i :: order) xs = xs[i]?.toList ++ reorder order xs := by
  unfold reorder
  rw [List.filterMap_cons]
  cases xs[i]? <;> rfl

/-- Members may be replaced before or after they are put in order. -/
theorem map_reorder (f : α → β) (order : List Nat) (xs : List α) :
    (reorder order xs).map f = reorder order (xs.map f) := by
  unfold reorder
  rw [List.map_filterMap]
  apply List.filterMap_congr
  intro i _
  exact List.getElem?_map.symm

/-- In turn, the places give the list itself. -/
theorem reorder_range (xs : List α) : reorder (List.range xs.length) xs = xs := by
  induction xs with
  | nil => rfl
  | cons x rest ih =>
    have hrest : reorder ((List.range rest.length).map (· + 1)) (x :: rest) =
        reorder (List.range rest.length) rest := by
      unfold reorder
      rw [List.filterMap_map]
      rfl
    rw [List.length_cons, List.range_succ_eq_map, reorder_cons]
    exact congrArg (x :: ·) (hrest.trans ih)

/-- An order that has every place once loses no member and repeats none. -/
theorem perm_reorder {order : List Nat} {xs : List α} (h : order.Perm (List.range xs.length)) :
    (reorder order xs).Perm xs := by
  have hperm : (reorder order xs).Perm (reorder (List.range xs.length) xs) :=
    h.filterMap fun i => xs[i]?
  rwa [reorder_range] at hperm

/-- Lists that correspond member by member correspond at every place. -/
theorem forall₂_getElem? {R : α → β → Prop} {xs : List α} {ys : List β}
    (h : List.Forall₂ R xs ys) (i : Nat) : List.Forall₂ R xs[i]?.toList ys[i]?.toList := by
  induction h generalizing i with
  | nil => exact .nil
  | cons hhead _ ih =>
    cases i with
    | zero => exact .cons hhead .nil
    | succ i => exact ih i

/-- Lists that correspond member by member still do so in the same new order. -/
theorem forall₂_reorder {R : α → β → Prop} {xs : List α} {ys : List β} (h : List.Forall₂ R xs ys)
    (order : List Nat) : List.Forall₂ R (reorder order xs) (reorder order ys) := by
  induction order with
  | nil => exact .nil
  | cons i order ih =>
    rw [reorder_cons, reorder_cons]
    exact List.rel_append (forall₂_getElem? h i) ih

/-- Lists may be paired before or after both of them are put in the same order. -/
theorem zip_reorder {xs : List α} {ys : List β} (h : xs.length = ys.length) (order : List Nat) :
    (reorder order xs).zip (reorder order ys) = reorder order (xs.zip ys) := by
  have hfst : (reorder order (xs.zip ys)).map Prod.fst = reorder order xs := by
    rw [map_reorder, List.map_fst_zip (Nat.le_of_eq h)]
  have hsnd : (reorder order (xs.zip ys)).map Prod.snd = reorder order ys := by
    rw [map_reorder, List.map_snd_zip (Nat.le_of_eq h.symm)]
  exact (List.zip_of_prod hfst hsnd).symm

/-- Lists of one length have one length in the same new order. -/
theorem length_reorder {xs : List α} {ys : List β} (h : xs.length = ys.length) (order : List Nat) :
    (reorder order xs).length = (reorder order ys).length := by
  calc (reorder order xs).length = ((reorder order (xs.zip ys)).map Prod.fst).length := by
        rw [map_reorder, List.map_fst_zip (Nat.le_of_eq h)]
    _ = ((reorder order (xs.zip ys)).map Prod.snd).length := by
        rw [List.length_map, List.length_map]
    _ = (reorder order ys).length := by
        rw [map_reorder, List.map_snd_zip (Nat.le_of_eq h.symm)]

/-- Whatever the places are, nothing but members of the list comes out. -/
theorem mem_of_mem_reorder {order : List Nat} {xs : List α} {x : α} (h : x ∈ reorder order xs) :
    x ∈ xs := by
  obtain ⟨i, -, hi⟩ := List.mem_filterMap.1 h
  exact List.mem_of_getElem? hi

/-- A list is read from the left to the right, place by place. -/
theorem filterMap_eq_range (f : α → Option β) (xs : List α) :
    xs.filterMap f = (List.range xs.length).filterMap fun i => xs[i]?.bind f := by
  conv_lhs => rw [← reorder_range xs]
  exact List.filterMap_filterMap

end PhraseTable.Run
