import PhraseTable.Proofs.Text.Words

/-!
# Lines and the text that holds them

A line has no line feed in it (`feed_not_mem_lines`), and lines without one are read back from the
text in which each of them is followed by one (`lines_join`).
-/

set_option autoImplicit false

namespace PhraseTable.Text

/-- Lines that end in a mark are lines with the mark between them, and an empty one at the end. -/
theorem flatten_map_concat (c : Char) (lines : List (List Char)) :
    (lines.map (· ++ [c])).flatten = [c].intercalate (lines ++ [[]]) := by
  induction lines with
  | nil => rfl
  | cons line rest ih =>
    have hcons : [c].intercalate (line :: (rest ++ [[]])) =
        line ++ [c] ++ [c].intercalate (rest ++ [[]]) := by
      cases rest <;> exact List.intercalate_cons_cons
    rw [List.map_cons, List.flatten_cons, ih, List.cons_append, hcons]

/-- Lines that were ended by line breaks are found again. -/
theorem lineChars_flatten {lines : List (List Char)} (h : ∀ line ∈ lines, '\n' ∉ line) :
    lineChars (lines.map (· ++ ['\n'])).flatten = lines := by
  have hsep : ∀ line ∈ lines ++ [[]], ∀ c ∈ line, (c == '\n') = false := by
    intro line hline c hc
    rw [beq_eq_false_iff_ne]
    rintro rfl
    rcases List.mem_append.1 hline with hline | hline
    · exact h line hline hc
    · rw [List.mem_singleton.1 hline] at hc
      cases hc
  have hsplit : ((lines.map (· ++ ['\n'])).flatten).splitOn '\n' = lines ++ [[]] := by
    have hne : lines ++ [[]] ≠ [] := by simp
    rw [flatten_map_concat]
    apply splitOnP_intercalate _ hne hsep
    exact beq_self_eq_true '\n'
  unfold lineChars
  rw [hsplit]
  simp

/-- Texts that were ended by line breaks are the lines of the whole. -/
theorem lines_join {parts : List String} (h : ∀ part ∈ parts, '\n' ∉ part.toList) :
    lines (String.join (parts.map (· ++ "\n"))) = parts := by
  have hchars : (String.join (parts.map (· ++ "\n"))).toList =
      ((parts.map String.toList).map (· ++ ['\n'])).flatten := by
    simp [Function.comp_def, List.flatMap_def]
  have hfeed : ∀ line ∈ parts.map String.toList, '\n' ∉ line := by simpa using h
  have hlines := lineChars_flatten hfeed
  unfold lines
  rw [hchars, hlines]
  simp [Function.comp_def]

/-- There is no line break in a line. -/
theorem feed_not_mem_lines {s line : String} (h : line ∈ lines s) : '\n' ∉ line.toList := by
  obtain ⟨chars, hchars, rfl⟩ := List.mem_map.1 h
  have hpiece : chars ∈ s.toList.splitOn '\n' := by
    unfold lineChars at hchars
    dsimp only at hchars
    split at hchars
    · exact List.dropLast_subset _ hchars
    · exact hchars
  rw [String.toList_ofList]
  intro hfeed
  have hsep := sep_eq_false_of_mem_splitOnP hpiece '\n' hfeed
  simp at hsep

end PhraseTable.Text
