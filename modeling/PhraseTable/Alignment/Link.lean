/-!
# Links

A link joins a source position and a target position, both counted from zero. A link that was
written by someone else may point anywhere, so it has integer positions until it is admitted to a
pair of rows of known lengths.
-/

set_option autoImplicit false

namespace PhraseTable

/-- A link as it is written. -/
structure RawLink where
  source : Int
  target : Int
deriving DecidableEq, Repr

/-- A link between two positions. -/
structure Link where
  source : Nat
  target : Nat
deriving DecidableEq, Repr

/-- The written form of a link. -/
def Link.raw (link : Link) : RawLink :=
  ⟨link.source, link.target⟩

/-- The text of a link: its positions with a dash between them. -/
def RawLink.text (link : RawLink) : String :=
  toString link.source ++ "-" ++ toString link.target

/-- Does the link lie inside two rows of these lengths? -/
def Link.Within (link : Link) (sourceSize targetSize : Nat) : Prop :=
  link.source < sourceSize ∧ link.target < targetSize

instance (link : Link) (m n : Nat) : Decidable (link.Within m n) :=
  inferInstanceAs (Decidable (_ ∧ _))

/-- The link between two positions, if it lies inside two rows of these lengths. -/
def RawLink.admit? (sourceSize targetSize : Nat) : RawLink → Option Link
  | ⟨.ofNat i, .ofNat j⟩ => if i < sourceSize ∧ j < targetSize then some ⟨i, j⟩ else none
  | _ => none

/-- All links, or the first one that lies outside. -/
def admitLinks (sourceSize targetSize : Nat) : List RawLink → Except RawLink (List Link)
  | [] => .ok []
  | raw :: rest =>
    match raw.admit? sourceSize targetSize with
    | none => .error raw
    | some link => (admitLinks sourceSize targetSize rest).map (link :: ·)

/-- A link that is admitted lies within both sides. -/
theorem RawLink.within_of_admit? {m n : Nat} {raw : RawLink} {link : Link}
    (h : raw.admit? m n = some link) : link.Within m n := by
  unfold admit? at h
  split at h
  · split at h
    · rename_i hin
      simp only [Option.some.injEq] at h
      exact h ▸ hin
    · simp at h
  · simp at h

/-- Admitted links lie inside. -/
theorem within_of_admitLinks {m n : Nat} {raws : List RawLink} {links : List Link}
    (h : admitLinks m n raws = .ok links) : ∀ link ∈ links, link.Within m n := by
  induction raws generalizing links with
  | nil =>
    simp only [admitLinks, Except.ok.injEq] at h
    simp [← h]
  | cons raw rest ih =>
    unfold admitLinks at h
    split at h
    · simp at h
    · rename_i first hfirst
      cases hrest : admitLinks m n rest with
      | error bad => simp [hrest, Except.map] at h
      | ok others =>
        simp only [hrest, Except.map, Except.ok.injEq] at h
        subst h
        intro link hlink
        rcases List.mem_cons.1 hlink with rfl | hlink
        · exact RawLink.within_of_admit? hfirst
        · exact ih hrest link hlink

/-- Removing later repetitions leaves no repetition. -/
theorem nodup_eraseDups {α : Type} [DecidableEq α] (xs : List α) : xs.eraseDups.Nodup := by
  generalize hn : xs.length = n
  induction n using Nat.strongRecOn generalizing xs with
  | ind n ih =>
    cases xs with
    | nil => simp
    | cons x rest =>
      rw [List.eraseDups_cons, List.nodup_cons]
      have hlt : (rest.filter fun y => !y == x).length < n := by
        have := List.length_filter_le (fun y => !y == x) rest
        rw [List.length_cons] at hn
        omega
      refine ⟨?_, ih _ hlt _ rfl⟩
      simp

end PhraseTable
