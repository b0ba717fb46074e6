import Mathlib.Data.List.Forall2

/-!
# Outcomes that may be errors

How an outcome that is no error was put together: from the parts of a sequence, beneath another
wording of the error, or over all members of a list.
-/

set_option autoImplicit false

namespace PhraseTable

/-- What does not fail gives a value. -/
theorem exists_ok_of_ne_error {ε α : Type} {outcome : Except ε α}
    (h : ∀ error : ε, outcome ≠ .error error) : ∃ value : α, outcome = .ok value := by
  cases outcome with
  | error error => exact absurd rfl (h error)
  | ok value => exact ⟨value, rfl⟩

/-- When two steps give a result, the first gives a value and the second one takes it there. -/
theorem exists_of_bind_eq_ok {ε α β : Type} {outcome : Except ε α} {next : α → Except ε β}
    {result : β} (h : (outcome >>= next) = .ok result) :
    ∃ value : α, outcome = .ok value ∧ next value = .ok result := by
  cases outcome with
  | error error => cases h
  | ok value => exact ⟨value, rfl, h⟩

/-- Another error plays no part where there is a value. -/
theorem mapError_eq_ok_iff {ε ε' α : Type} {f : ε → ε'} {outcome : Except ε α} {value : α} :
    outcome.mapError f = .ok value ↔ outcome = .ok value := by
  cases outcome with
  | error error => exact iff_of_false nofun nofun
  | ok found => simp [Except.mapError]

/-- A list is taken through just when each of its members is. -/
theorem mapM_eq_ok_iff {ε α β : Type} {f : α → Except ε β} {xs : List α} {ys : List β} :
    xs.mapM f = .ok ys ↔ List.Forall₂ (fun x y => f x = .ok y) xs ys := by
  induction xs generalizing ys with
  | nil =>
    rw [List.mapM_nil, List.forall₂_nil_left_iff]
    exact ⟨fun h => (Except.ok.inj h).symm, fun h => congrArg Except.ok h.symm⟩
  | cons x rest ih =>
    rw [List.mapM_cons, List.forall₂_cons_left_iff]
    constructor
    · intro h
      obtain ⟨y, hy, h⟩ := exists_of_bind_eq_ok h
      obtain ⟨others, hothers, h⟩ := exists_of_bind_eq_ok h
      exact ⟨y, others, hy, ih.1 hothers, (Except.ok.inj h).symm⟩
    · rintro ⟨y, others, hy, hothers, rfl⟩
      rw [hy, ih.2 hothers]
      rfl

/-- What the steps yield is described by other values. -/
theorem mapM_eq_ok_iff_exists {ε α β γ : Type} {f : α → Except ε β} {P : α → γ → Prop} {g : γ → β}
    {xs : List α} {ys : List β} (h : ∀ x ∈ xs, ∀ y : β, f x = .ok y ↔ ∃ z : γ, P x z ∧ g z = y) :
    xs.mapM f = .ok ys ↔ ∃ zs : List γ, List.Forall₂ P xs zs ∧ zs.map g = ys := by
  rw [mapM_eq_ok_iff]
  induction xs generalizing ys with
  | nil =>
    constructor
    · intro hnil
      cases hnil
      exact ⟨[], .nil, rfl⟩
    · rintro ⟨zs, hnil, rfl⟩
      cases hnil
      exact .nil
  | cons x rest ih =>
    obtain ⟨hx, hrest⟩ := List.forall_mem_cons.1 h
    constructor
    · intro hcons
      obtain ⟨y, others, hy, hothers, rfl⟩ := List.forall₂_cons_left_iff.1 hcons
      obtain ⟨z, hz, rfl⟩ := (hx y).1 hy
      obtain ⟨zs, hzs, rfl⟩ := (ih hrest).1 hothers
      exact ⟨z :: zs, .cons hz hzs, rfl⟩
    · rintro ⟨zs, hcons, rfl⟩
      obtain ⟨z, others, hz, hothers, rfl⟩ := List.forall₂_cons_left_iff.1 hcons
      exact .cons ((hx (g z)).2 ⟨z, hz, rfl⟩) ((ih hrest).2 ⟨others, hothers, rfl⟩)

/-- A list is taken through when every member can be. -/
theorem exists_mapM_eq_ok {ε α β : Type} {f : α → Except ε β} {xs : List α}
    (h : ∀ x ∈ xs, ∃ y : β, f x = .ok y) : ∃ ys : List β, xs.mapM f = .ok ys := by
  induction xs with
  | nil => exact ⟨[], rfl⟩
  | cons x rest ih =>
    obtain ⟨y, hy⟩ := h x List.mem_cons_self
    obtain ⟨ys, hys⟩ := ih fun other hother => h other (List.mem_cons_of_mem x hother)
    exact ⟨y :: ys, mapM_eq_ok_iff.2 (.cons hy (mapM_eq_ok_iff.1 hys))⟩

/-- Where no other error can occur, the first one decides. -/
theorem mapM_eq_error {ε α β : Type} {f : α → Except ε β} {error : ε} {xs : List α}
    (h : ∀ x ∈ xs, (∃ y : β, f x = .ok y) ∨ f x = .error error)
    (hbad : ∃ x ∈ xs, f x = .error error) : xs.mapM f = .error error := by
  induction xs with
  | nil => exact absurd hbad (by simp)
  | cons x rest ih =>
    obtain ⟨hx, hrest⟩ := List.forall_mem_cons.1 h
    rw [List.mapM_cons]
    rcases hx with ⟨y, hy⟩ | hx
    · rcases (List.exists_mem_cons_iff _ _ _).1 hbad with hfirst | hlater
      · rw [hfirst] at hy
        cases hy
      · rw [hy, ih hrest hlater]
        rfl
    · rw [hx]
      rfl

/-- A member on the right corresponds to one on the left. -/
theorem forall₂_mem_right {α β : Type} {R : α → β → Prop} {xs : List α} {ys : List β}
    (h : List.Forall₂ R xs ys) {y : β} (hy : y ∈ ys) : ∃ x ∈ xs, R x y := by
  induction h with
  | nil => cases hy
  | @cons x _ _ _ hxy _ ih =>
    rcases List.mem_cons.1 hy with rfl | hy
    · exact ⟨x, List.mem_cons_self, hxy⟩
    · obtain ⟨other, hother, hrel⟩ := ih hy
      exact ⟨other, List.mem_cons_of_mem x hother, hrel⟩

/-- A member on the left corresponds to one on the right. -/
theorem forall₂_mem_left {α β : Type} {R : α → β → Prop} {xs : List α} {ys : List β}
    (h : List.Forall₂ R xs ys) {x : α} (hx : x ∈ xs) : ∃ y ∈ ys, R x y :=
  forall₂_mem_right h.flip hx

end PhraseTable
