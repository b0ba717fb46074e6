import PhraseTable.Proofs.Text.Words

/-!
# The cut at runs of separators

Separators of two kinds may be cut at one kind after the other (`splitOnP_or`). In a text that
neither begins nor ends with a separator, a cut at runs of separators leaves the pieces that are not
empty (`splitRuns_eq_filter`). No piece of any text has a separator in it
(`sep_eq_false_of_mem_splitRuns`).
-/

set_option autoImplicit false

namespace PhraseTable.Text

variable {sep : Char → Bool}

/-- A text may be cut at one kind of separators and then at the other. -/
theorem splitOnP_or (p q : Char → Bool) (cs : List Char) :
    cs.splitOnP (fun c => p c || q c) = (cs.splitOnP p).flatMap (List.splitOnP q) := by
  induction cs with
  | nil => rfl
  | cons c cs ih =>
    obtain ⟨first, rest, hsplit⟩ := List.exists_cons_of_ne_nil (List.splitOnP_ne_nil p cs)
    obtain ⟨inner, more, hinner⟩ := List.exists_cons_of_ne_nil (List.splitOnP_ne_nil q first)
    rw [List.splitOnP_cons_eq_if_modifyHead, List.splitOnP_cons_eq_if_modifyHead, ih, hsplit]
    cases hp : p c with
    | true => simp
    | false =>
      simp only [Bool.false_or, Bool.false_eq_true, if_false, List.modifyHead_cons,
        List.flatMap_cons, List.splitOnP_cons_eq_if_modifyHead, hinner]
      split <;> rfl

/-- When the last piece is not empty, all empty ones are dropped. -/
theorem dropInnerEmpty_eq_filter {pieces : List (List Char)}
    (h : ∀ last ∈ pieces.getLast?, last ≠ []) :
    dropInnerEmpty pieces = pieces.filter fun piece => !piece.isEmpty := by
  induction pieces with
  | nil => rfl
  | cons piece rest ih =>
    cases rest with
    | nil => simp [dropInnerEmpty, h piece rfl]
    | cons next rest =>
      have hrest := ih fun last hlast => h last (by rwa [List.getLast?_cons_cons])
      unfold dropInnerEmpty
      rw [hrest]
      cases hempty : piece.isEmpty <;> simp [hempty]

/-- A text that neither begins nor ends with a separator is cut into its pieces that are not
empty. -/
theorem splitRuns_eq_filter {cs : List Char} (hne : cs ≠ []) (hhead : ∀ c ∈ cs.head?, sep c = false)
    (hlast : ∀ c ∈ cs.getLast?, sep c = false) :
    splitRuns sep cs = (cs.splitOnP sep).filter fun piece => !piece.isEmpty := by
  obtain ⟨first, rest, hsplit⟩ := List.exists_cons_of_ne_nil (List.splitOnP_ne_nil sep cs)
  have hfirst : first ≠ [] := by
    obtain ⟨c, cs, rfl⟩ := List.exists_cons_of_ne_nil hne
    obtain ⟨head, tail, htail⟩ := List.exists_cons_of_ne_nil (List.splitOnP_ne_nil sep cs)
    rw [List.splitOnP_cons_eq_if_modifyHead, hhead c rfl, htail] at hsplit
    cases hsplit
    exact List.cons_ne_nil c head
  have hend : ∀ last ∈ (first :: rest).getLast?, last ≠ [] := by
    obtain rfl | ⟨front, c, rfl⟩ := List.eq_nil_or_concat cs
    · exact absurd rfl hne
    · obtain ⟨pieces, last, hpieces⟩ :=
        exists_splitOnP_concat (hlast c (by simp)) front
      rw [List.concat_eq_append, hpieces] at hsplit
      rw [← hsplit]
      simp
  unfold splitRuns
  rw [hsplit]
  cases rest with
  | nil => simp [hfirst]
  | cons next rest =>
    rw [List.getLast?_cons_cons] at hend
    simp [dropInnerEmpty_eq_filter hend, hfirst]

/-- Dropping pieces makes no new ones. -/
theorem mem_of_mem_dropInnerEmpty {pieces : List (List Char)} {piece : List Char}
    (h : piece ∈ dropInnerEmpty pieces) : piece ∈ pieces := by
  fun_induction dropInnerEmpty pieces with
  | case1 => exact h
  | case2 last => exact h
  | case3 first rest _ _ ih => exact List.mem_cons_of_mem first (ih h)
  | case4 first rest _ _ ih =>
    rcases List.mem_cons.1 h with rfl | h
    · exact List.mem_cons_self
    · exact List.mem_cons_of_mem first (ih h)

/-- There is no separator in a piece. -/
theorem sep_eq_false_of_mem_splitRuns {cs piece : List Char} (h : piece ∈ splitRuns sep cs) :
    ∀ c ∈ piece, sep c = false := by
  have hmem : piece ∈ cs.splitOnP sep := by
    unfold splitRuns at h
    split at h
    · cases h
    · rename_i hsplit
      rwa [hsplit]
    · rename_i first rest _ hsplit
      rw [hsplit, List.mem_cons]
      exact (List.mem_cons.1 h).imp_right mem_of_mem_dropInnerEmpty
  exact sep_eq_false_of_mem_splitOnP hmem

end PhraseTable.Text
