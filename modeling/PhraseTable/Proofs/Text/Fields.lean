import PhraseTable.Proofs.Text.Words
import PhraseTable.Text.Fields

/-!
# Fields and the line that holds them

A field has no group of three bars in it (`infix_of_mem_fields`), and any texts without one are
read back, but for the white space around them, from the line that joins them with bars between
spaces (`fields_intercalate`). The spaces matter: a text may end with a bar, and the cut is made at
the leftmost group of three.
-/

set_option autoImplicit false

namespace PhraseTable.Text

/-- No group of three bars stands in the text. -/
def NoBars (cs : List Char) : Prop :=
  ¬['|', '|', '|'] <:+: cs

/-- There are no bars in a part of a text without bars. -/
theorem NoBars.of_infix {cs ds : List Char} (h : NoBars cs) (hds : ds <:+: cs) : NoBars ds :=
  fun hbars => h (hbars.trans hds)

/-- A text without a single bar has no group of three. -/
theorem noBars_of_not_mem {cs : List Char} (h : '|' ∉ cs) : NoBars cs :=
  fun hbars => h (hbars.subset (by simp))

/-- A group of bars does not reach across another character. -/
theorem NoBars.append_cons {c : Char} (hc : c ≠ '|') {cs ds : List Char} (hcs : NoBars cs)
    (hds : NoBars ds) : NoBars (cs ++ c :: ds) := by
  have hempty : ∀ front : List Char, front <+: c :: ds → (∀ d ∈ front, d = '|') → front = [] := by
    intro front hfront hbars
    rcases List.prefix_cons_iff.1 hfront with rfl | ⟨more, rfl, -⟩
    · rfl
    · exact absurd (hbars c List.mem_cons_self) hc
  intro h
  rcases List.infix_append_iff.1 h with h | h | ⟨front, back, hsplit, hfront, hback⟩
  · exact hcs h
  · rcases List.infix_cons_iff.1 h with h | h
    · exact List.cons_ne_nil _ _ (hempty _ h (by simp))
    · exact hds h
  · have hnil := hempty back hback fun d hd => by
      have hmem : d ∈ ['|', '|', '|'] := hsplit ▸ List.mem_append_right front hd
      simpa using hmem
    rw [hnil, List.append_nil] at hsplit
    exact hcs (hsplit ▸ hfront.isInfix)

/-- Words without bars have none between them, either. -/
theorem noBars_intercalate {words : List (List Char)} (h : ∀ word ∈ words, NoBars word) :
    NoBars ([' '].intercalate words) := by
  induction words with
  | nil => exact noBars_of_not_mem (by simp)
  | cons word rest ih =>
    cases rest with
    | nil => simpa using h word List.mem_cons_self
    | cons next rest =>
      have hrest := ih fun w hw => h w (List.mem_cons_of_mem word hw)
      rw [List.intercalate_cons_cons, List.append_assoc]
      exact (h word List.mem_cons_self).append_cons (by decide) hrest

/-! ## The cut at bars -/

/-- A character in front belongs to the first piece, if the line does not begin with bars. -/
theorem splitBars_cons {c : Char} {cs : List Char} (h : ¬['|', '|', '|'] <+: c :: cs) :
    splitBars (c :: cs) = (splitBars cs).modifyHead (c :: ·) := by
  rw [splitBars]
  rintro rest rfl rfl
  exact h ⟨rest, rfl⟩

/-- What the cut has found in front of a character that it takes into a piece. -/
theorem not_bars_prefix {c : Char} {cs : List Char}
    (h : ∀ more, c = '|' → cs = '|' :: '|' :: more → False) : ¬['|', '|', '|'] <+: c :: cs := by
  rintro ⟨more, hmore⟩
  simp only [List.cons_append, List.nil_append, List.cons.injEq] at hmore
  exact h more hmore.1.symm hmore.2.symm

/-- The first piece ends at the first group of bars. -/
theorem splitBars_append {cs : List Char} (h : NoBars (cs ++ ['|', '|'])) (rest : List Char) :
    splitBars (cs ++ '|' :: '|' :: '|' :: rest) = cs :: splitBars rest := by
  induction cs with
  | nil => rfl
  | cons c cs ih =>
    have hnot : ¬['|', '|', '|'] <+: c :: (cs ++ '|' :: '|' :: '|' :: rest) := by
      intro hbars
      have hfront : c :: cs ++ ['|', '|'] <+: c :: (cs ++ '|' :: '|' :: '|' :: rest) :=
        ⟨'|' :: rest, by simp⟩
      exact h (List.prefix_of_prefix_length_le hbars hfront (by simp)).isInfix
    rw [List.cons_append, splitBars_cons hnot, ih (h.of_infix (List.suffix_cons _ _).isInfix)]
    rfl

/-- A line without bars is one piece. -/
theorem splitBars_of_noBars {cs : List Char} (h : NoBars cs) : splitBars cs = [cs] := by
  induction cs with
  | nil => rfl
  | cons c cs ih =>
    rw [splitBars_cons fun hbars => h hbars.isInfix, ih (h.of_infix (List.suffix_cons _ _).isInfix)]
    rfl

/-- A piece is a part of the line that has no group of bars in it. The first one begins the line. -/
theorem exists_splitBars (cs : List Char) :
    ∃ first rest, splitBars cs = first :: rest ∧ first <+: cs ∧
      ∀ piece ∈ first :: rest, piece <:+: cs ∧ NoBars piece := by
  induction cs using splitBars.induct with
  | case1 => exact ⟨[], [], rfl, List.prefix_refl _, by simp [NoBars]⟩
  | case2 cs ih =>
    obtain ⟨first, rest, hsplit, -, hpieces⟩ := ih
    have hsuffix : cs <:+: '|' :: '|' :: '|' :: cs := ⟨['|', '|', '|'], [], by simp⟩
    refine ⟨[], first :: rest, by rw [splitBars, hsplit], List.nil_prefix, ?_⟩
    intro piece hpiece
    rcases List.mem_cons.1 hpiece with rfl | hpiece
    · exact ⟨List.nil_infix, noBars_of_not_mem (by simp)⟩
    · exact ⟨(hpieces piece hpiece).1.trans hsuffix, (hpieces piece hpiece).2⟩
  | case3 c cs hbars ih =>
    obtain ⟨first, rest, hsplit, hfront, hpieces⟩ := ih
    have hnot := not_bars_prefix hbars
    have hfirst : c :: first <+: c :: cs := (List.prefix_cons_inj c).2 hfront
    refine ⟨c :: first, rest, by rw [splitBars_cons hnot, hsplit]; rfl, hfirst, ?_⟩
    intro piece hpiece
    rcases List.mem_cons.1 hpiece with rfl | hpiece
    · refine ⟨hfirst.isInfix, ?_⟩
      intro h
      rcases List.infix_cons_iff.1 h with h | h
      · exact hnot (h.trans hfirst)
      · exact (hpieces first List.mem_cons_self).2 h
    · have hrest := hpieces piece (List.mem_cons_of_mem first hpiece)
      exact ⟨hrest.1.trans (List.suffix_cons c cs).isInfix, hrest.2⟩

/-! ## Fields -/

/-- A space in front of the first piece is taken off. -/
theorem map_trimChars_modifyHead (pieces : List (List Char)) :
    (pieces.modifyHead (' ' :: ·)).map trimChars = pieces.map trimChars := by
  cases pieces with
  | nil => rfl
  | cons piece rest => exact congrArg (· :: rest.map trimChars) (trimChars_cons rfl piece)

/-- Parts without bars, joined with bars between spaces, are the fields of the line. -/
theorem fieldChars_intercalate {parts : List (List Char)} (hne : parts ≠ [])
    (h : ∀ part ∈ parts, NoBars part) :
    fieldChars ([' ', '|', '|', '|', ' '].intercalate parts) = parts.map trimChars := by
  induction parts with
  | nil => exact absurd rfl hne
  | cons part rest ih =>
    have hpart := h part List.mem_cons_self
    cases rest with
    | nil => simp [fieldChars, splitBars_of_noBars hpart]
    | cons next rest =>
      have hrest := ih (List.cons_ne_nil _ _) fun p hp => h p (List.mem_cons_of_mem part hp)
      have hfront : NoBars ((part ++ [' ']) ++ ['|', '|']) := by
        have hback : NoBars ['|', '|'] := fun hbars => absurd hbars.length_le (by simp)
        rw [List.append_assoc]
        exact hpart.append_cons (by decide) hback
      have hline : [' ', '|', '|', '|', ' '].intercalate (part :: next :: rest) =
          (part ++ [' ']) ++ '|' :: '|' :: '|' ::
            (' ' :: [' ', '|', '|', '|', ' '].intercalate (next :: rest)) := by
        simp [List.intercalate_cons_cons]
      rw [hline, fieldChars, splitBars_append hfront, splitBars_cons (by simp), List.map_cons,
        map_trimChars_modifyHead, trimChars_concat rfl]
      exact congrArg (trimChars part :: ·) hrest

/-- A line has always a field. -/
theorem fieldChars_ne_nil (line : List Char) : fieldChars line ≠ [] := by
  obtain ⟨first, rest, hsplit, -⟩ := exists_splitBars line
  simp [fieldChars, hsplit]

/-- Texts without bars, joined with bars between spaces, are the fields of the line. -/
theorem fields_intercalate {parts : List String} (hne : parts ≠ [])
    (h : ∀ part ∈ parts, NoBars part.toList) :
    fields (" ||| ".intercalate parts) = parts.map trim := by
  have hne' : parts.map String.toList ≠ [] := by simpa using hne
  have hfields := fieldChars_intercalate hne' (by simpa using h)
  simp [fields, hfields, trim, Function.comp_def]

/-- A field is a part of its line that has no group of bars in it. -/
theorem infix_of_mem_fieldChars {line field : List Char} (h : field ∈ fieldChars line) :
    field <:+: line ∧ NoBars field := by
  obtain ⟨piece, hpiece, rfl⟩ := List.mem_map.1 h
  obtain ⟨first, rest, hsplit, -, hpieces⟩ := exists_splitBars line
  obtain ⟨hpart, hbars⟩ := hpieces piece (hsplit ▸ hpiece)
  exact ⟨(infix_trimChars piece).trans hpart, hbars.of_infix (infix_trimChars piece)⟩

/-- A field is a part of its line, and has no bars. -/
theorem infix_of_mem_fields {line field : String} (h : field ∈ fields line) :
    field.toList <:+: line.toList ∧ NoBars field.toList := by
  obtain ⟨chars, hchars, rfl⟩ := List.mem_map.1 h
  rw [String.toList_ofList]
  exact infix_of_mem_fieldChars hchars

/-- The words of a text without bars have none. -/
theorem noBars_of_mem_tokens {s word : String} (h : NoBars s.toList) (hword : word ∈ tokens s) :
    NoBars word.toList := by
  obtain ⟨chars, hchars, rfl⟩ := List.mem_map.1 hword
  rw [String.toList_ofList]
  exact h.of_infix (infix_of_mem_tokenChars hchars)

end PhraseTable.Text
