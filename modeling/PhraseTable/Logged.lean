/-!
# Values with a log

A logged value carries the lines that were written while it was computed. The value never depends
on the lines.
-/

set_option autoImplicit false

namespace PhraseTable

/-- A value and the lines written on the way to it. -/
structure Logged (α : Type) where
  value : α
  /-- The lines, without line feeds. -/
  log : List String

namespace Logged

instance : Monad Logged where
  map f x := ⟨f x.value, x.log⟩
  pure x := ⟨x, []⟩
  bind x f :=
    let y := f x.value
    ⟨y.value, x.log ++ y.log⟩

/-- What is returned is the value. -/
@[simp] theorem value_pure {α : Type} (x : α) : (pure x : Logged α).value = x := rfl

/-- Nothing is logged by returning. -/
@[simp] theorem log_pure {α : Type} (x : α) : (pure x : Logged α).log = [] := rfl

/-- A function is applied to the value. -/
@[simp] theorem value_map {α β : Type} (f : α → β) (x : Logged α) :
    (f <$> x).value = f x.value := rfl

/-- A function that is applied to the value leaves the log alone. -/
@[simp] theorem log_map {α β : Type} (f : α → β) (x : Logged α) : (f <$> x).log = x.log := rfl

/-- The second step runs on the value of the first one. -/
@[simp] theorem value_bind {α β : Type} (x : Logged α) (f : α → Logged β) :
    (x >>= f).value = (f x.value).value := rfl

/-- The lines of the second step stand behind those of the first one. -/
@[simp] theorem log_bind {α β : Type} (x : Logged α) (f : α → Logged β) :
    (x >>= f).log = x.log ++ (f x.value).log := rfl

/-- Results with the same value and the same lines are equal. -/
theorem ext {α : Type} {x y : Logged α} (hv : x.value = y.value) (hl : x.log = y.log) : x = y := by
  cases x
  cases y
  simp_all

instance : LawfulMonad Logged :=
  LawfulMonad.mk' Logged
    (fun _ => rfl)
    (fun _ _ => rfl)
    (fun _ _ _ => ext rfl (List.append_assoc _ _ _))
    (fun _ _ => rfl)
    (fun _ _ => rfl)
    (fun _ _ => rfl)
    (fun _ _ => ext rfl (List.append_nil _))

/-- Writes lines. -/
def write (lines : List String) : Logged Unit :=
  ⟨(), lines⟩

/-- Writes lines if the condition holds. -/
def writeIf (condition : Prop) [Decidable condition] (lines : List String) : Logged Unit :=
  ⟨(), if condition then lines else []⟩

/-- Writing gives no value. -/
@[simp] theorem value_write (lines : List String) : (write lines).value = () := rfl

/-- Writing under a condition gives no value either. -/
@[simp] theorem value_writeIf (condition : Prop) [Decidable condition] (lines : List String) :
    (writeIf condition lines).value = () := rfl

end Logged

end PhraseTable
