import PhraseTable.Proofs.Text.Bytes

/-!
# What cutting a text means

The fields of a line and the words of a text are described without the functions that cut them. A
line is `CutAtBars` when no group of three bars begins before the one that ends a piece, which tells
how longer runs of bars are cut; a text is `Spaced` when its words stand between runs of spaces and
tabs. Each description fits one way of cutting only (`splitBars_eq_iff`, `tokenChars_eq_iff`), and
what has been cut stays as it is when it is joined and cut again (`cuts_canonical`).
-/

set_option autoImplicit false

namespace PhraseTable.Text

/-! ## Fields -/

/-- The pieces of a line that is cut at groups of three bars from the left. -/
inductive CutAtBars : List Char → List (List Char) → Prop
  | last {piece : List Char} (h : NoBars piece) : CutAtBars piece [piece]
  | cut {piece line : List Char} {pieces : List (List Char)} (h : NoBars (piece ++ ['|', '|']))
      (hline : CutAtBars line pieces) :
      CutAtBars (piece ++ '|' :: '|' :: '|' :: line) (piece :: pieces)

/-- A character in front makes no bars if the text does not begin with them. -/
theorem NoBars.cons {c : Char} {cs : List Char} (h : NoBars cs)
    (hnot : ¬['|', '|', '|'] <+: c :: cs) : NoBars (c :: cs) := by
  intro hbars
  exact (List.infix_cons_iff.1 hbars).elim hnot h

/-- A character in front belongs to the first piece, if the text does not begin with bars. -/
theorem CutAtBars.cons {c : Char} {line first : List Char} {rest : List (List Char)}
    (h : CutAtBars line (first :: rest)) (hnot : ¬['|', '|', '|'] <+: c :: line) :
    CutAtBars (c :: line) ((c :: first) :: rest) := by
  cases h with
  | last hbars => exact .last (hbars.cons hnot)
  | @cut _ line _ hbars hline =>
    have hfront : c :: (first ++ ['|', '|']) <+: c :: (first ++ '|' :: '|' :: '|' :: line) :=
      ⟨'|' :: line, by simp⟩
    have hfirst : NoBars ((c :: first) ++ ['|', '|']) :=
      hbars.cons fun hbegins => hnot (hbegins.trans hfront)
    exact .cut hfirst hline

/-- The pieces of a line are those that it is cut into. -/
theorem cutAtBars_splitBars (line : List Char) : CutAtBars line (splitBars line) := by
  induction line using splitBars.induct with
  | case1 => exact .last (noBars_of_not_mem (by simp))
  | case2 line ih =>
    have hempty : NoBars ([] ++ ['|', '|']) := fun hbars => absurd hbars.length_le (by simp)
    exact .cut hempty ih
  | case3 c line hbars ih =>
    have hnot := not_bars_prefix hbars
    obtain ⟨first, rest, hsplit, -⟩ := exists_splitBars line
    rw [splitBars_cons hnot]
    rw [hsplit] at ih ⊢
    exact ih.cons hnot

/-- A line is cut into pieces in one way. -/
theorem splitBars_eq_iff {line : List Char} {pieces : List (List Char)} :
    splitBars line = pieces ↔ CutAtBars line pieces := by
  constructor
  · rintro rfl
    exact cutAtBars_splitBars line
  · intro h
    induction h with
    | last h => exact splitBars_of_noBars h
    | cut h _ ih => rw [splitBars_append h, ih]

/-! ## Words -/

/-- The words of a text in which runs of spaces and tabs stand between words and nowhere else. -/
inductive Spaced : List (List Char) → List Char → Prop
  | nil : Spaced [] []
  | last {word : List Char} (hne : word ≠ []) (hword : ∀ c ∈ word, isGap c = false) :
      Spaced [word] word
  | cons {word run text : List Char} {words : List (List Char)} (hne : word ≠ [])
      (hword : ∀ c ∈ word, isGap c = false) (hrun : run ≠ []) (hgap : ∀ c ∈ run, isGap c = true)
      (hwords : words ≠ []) (htext : Spaced words text) :
      Spaced (word :: words) (word ++ run ++ text)

/-- The text may begin with more characters of its first word. -/
theorem Spaced.consChar {c : Char} (hc : isGap c = false) {word text : List Char}
    {words : List (List Char)} (h : Spaced (word :: words) text) :
    Spaced ((c :: word) :: words) (c :: text) := by
  cases h with
  | last _ hword => exact .last (List.cons_ne_nil _ _) (List.forall_mem_cons.2 ⟨hc, hword⟩)
  | cons _ hword hrun hgap hwords htext =>
    exact .cons (List.cons_ne_nil _ _) (List.forall_mem_cons.2 ⟨hc, hword⟩) hrun hgap hwords htext

/-- A run of spaces and tabs ends with one of them. -/
theorem eq_nil_of_run {run : List Char} (hgap : ∀ c ∈ run, isGap c = true)
    (hlast : ∀ c ∈ run.getLast?, isGap c = false) : run = [] := by
  cases hend : run.getLast? with
  | none => exact List.getLast?_eq_none_iff.1 hend
  | some c =>
    have hc := hgap c (List.mem_of_getLast? hend)
    rw [hlast c hend] at hc
    cases hc

/-- A text that does not end with a space or a tab has its words behind a run of them. -/
theorem exists_spaced {cs : List Char} (h : ∀ c ∈ cs.getLast?, isGap c = false) :
    ∃ words run text, cs = run ++ text ∧ (∀ c ∈ run, isGap c = true) ∧ Spaced words text := by
  induction cs with
  | nil => exact ⟨[], [], [], rfl, by simp, .nil⟩
  | cons c cs ih =>
    have hlast : ∀ d ∈ cs.getLast?, isGap d = false := by
      intro d hd
      apply h
      rw [List.getLast?_cons, Option.mem_def.1 hd]
      rfl
    obtain ⟨words, run, text, rfl, hgap, hspaced⟩ := ih hlast
    cases hc : isGap c with
    | true => exact ⟨words, c :: run, text, rfl, List.forall_mem_cons.2 ⟨hc, hgap⟩, hspaced⟩
    | false =>
      have hsingle : ∀ d ∈ [c], isGap d = false := List.forall_mem_singleton.2 hc
      cases run with
      | nil =>
        cases words with
        | nil =>
          cases hspaced
          exact ⟨[[c]], [], [c], rfl, by simp, .last (List.cons_ne_nil _ _) hsingle⟩
        | cons word words => exact ⟨_, [], _, rfl, by simp, hspaced.consChar hc⟩
      | cons d run =>
        -- a run with no word behind it would end the text
        have hwords : words ≠ [] := by
          rintro rfl
          cases hspaced
          rw [List.append_nil] at hlast
          exact List.cons_ne_nil d run (eq_nil_of_run hgap hlast)
        refine ⟨[c] :: words, [], c :: (d :: run ++ text), rfl, by simp, ?_⟩
        exact .cons (List.cons_ne_nil _ _) hsingle (List.cons_ne_nil _ _) hgap hwords hspaced

/-- A run of gaps in front is no word. -/
theorem filter_splitOnP_run {run : List Char} (h : ∀ c ∈ run, isGap c = true) (text : List Char) :
    ((run ++ text).splitOnP isGap).filter (fun piece => !piece.isEmpty) =
      (text.splitOnP isGap).filter fun piece => !piece.isEmpty := by
  induction run with
  | nil => rfl
  | cons c run ih =>
    rw [List.forall_mem_cons] at h
    rw [List.cons_append, List.splitOnP_cons_eq_if_modifyHead, if_pos h.1, ← ih h.2]
    rfl

/-- A spaced text is cut into its words. -/
theorem Spaced.filter_splitOnP {words : List (List Char)} {text : List Char}
    (h : Spaced words text) :
    ((text.splitOnP isGap).filter fun piece => !piece.isEmpty) = words := by
  induction h with
  | nil => rfl
  | last hne hword => simp [List.splitOnP_eq_singleton hword, hne]
  | @cons word run text words hne hword hrun hgap _ _ ih =>
    obtain ⟨c, run, rfl⟩ := List.exists_cons_of_ne_nil hrun
    rw [List.forall_mem_cons] at hgap
    rw [List.append_assoc, List.cons_append,
      List.splitOnP_append_cons_of_forall_mem hword c hgap.1,
      List.filter_cons_of_pos (by simp [hne]), filter_splitOnP_run hgap.2, ih]

/-- A text without white space around it is spaced by its words. -/
theorem spaced_tokenChars (text : List Char) : Spaced (tokenChars text) (trimChars text) := by
  have htrimmed := trimmed_trimChars text
  obtain ⟨words, run, body, htext, hgap, hspaced⟩ :=
    exists_spaced fun c hc => isGap_eq_false (htrimmed.last c hc)
  cases run with
  | nil =>
    rw [List.nil_append] at htext
    rw [tokenChars_eq_filter, htext, hspaced.filter_splitOnP]
    exact hspaced
  | cons c run =>
    have hc := isGap_eq_false (htrimmed.head c (by rw [htext]; rfl))
    rw [hgap c List.mem_cons_self] at hc
    cases hc

/-- A text is cut into words in one way. -/
theorem tokenChars_eq_iff {text : List Char} {words : List (List Char)} :
    tokenChars text = words ↔ Spaced words (trimChars text) := by
  constructor
  · rintro rfl
    exact spaced_tokenChars text
  · intro h
    rw [tokenChars_eq_filter, h.filter_splitOnP]

/-! ## Cutting again -/

/-- What holds of the fields of a line. -/
structure CanonicalFields (line : List Char) : Prop where
  noBars : ∀ field ∈ fieldChars line, NoBars field
  trimmed : ∀ field ∈ fieldChars line, Trimmed field
  /-- The fields, joined with bars between spaces, are cut into the same fields. -/
  again : fieldChars ([' ', '|', '|', '|', ' '].intercalate (fieldChars line)) = fieldChars line
  eq_iff : ∀ fields : List (List Char),
    fieldChars line = fields ↔ ∃ pieces, CutAtBars line pieces ∧ fields = pieces.map trimChars

/-- What holds of the words of a text. -/
structure CanonicalTokens (text : List Char) : Prop where
  ne_nil : ∀ token ∈ tokenChars text, token ≠ []
  no_gap : ∀ token ∈ tokenChars text, ∀ c ∈ token, isGap c = false
  /-- The words, joined with single spaces, are cut into the same words. -/
  again : tokenChars ([' '].intercalate (tokenChars text)) = tokenChars text
  eq_iff : ∀ words : List (List Char), tokenChars text = words ↔ Spaced words (trimChars text)

/-- The fields of any line are canonical. -/
theorem canonicalFields (line : List Char) : CanonicalFields line where
  noBars field hfield := (infix_of_mem_fieldChars hfield).2
  trimmed := by
    intro field hfield
    obtain ⟨piece, -, rfl⟩ := List.mem_map.1 hfield
    exact trimmed_trimChars piece
  again := by
    rw [fieldChars_intercalate (fieldChars_ne_nil line) fun field hfield =>
      (infix_of_mem_fieldChars hfield).2]
    unfold fieldChars
    rw [List.map_map]
    exact List.map_congr_left fun piece _ => trimChars_trimChars piece
  eq_iff := by
    intro fields
    constructor
    · rintro rfl
      exact ⟨_, cutAtBars_splitBars line, rfl⟩
    · rintro ⟨pieces, hpieces, rfl⟩
      rw [fieldChars, splitBars_eq_iff.2 hpieces]

/-- The words of any text are canonical. -/
theorem canonicalTokens (text : List Char) : CanonicalTokens text where
  ne_nil := (isWords_tokenChars text).ne_nil
  no_gap := (isWords_tokenChars text).no_gap
  again := (isWords_tokenChars text).tokenChars_intercalate
  eq_iff _ := tokenChars_eq_iff

/-- **What has been cut is in canonical form.** In every byte string, and in every text, the fields
have no group of bars in them and no white space at their ends, the words are not empty and have no
space or tab in them, and either are read back from the line that joins them. For a text it is all
the same whether its characters are cut or its bytes. -/
theorem cuts_canonical :
    (∀ bytes : List UInt8, CanonicalFields (ofBytes bytes) ∧ CanonicalTokens (ofBytes bytes)) ∧
      ∀ s : String,
        (CanonicalFields s.toList ∧ fields (" ||| ".intercalate (fields s)) = fields s ∧
          fieldChars (utf8 s) = (fields s).map utf8) ∧
        CanonicalTokens s.toList ∧ tokens (" ".intercalate (tokens s)) = tokens s ∧
          tokenChars (utf8 s) = (tokens s).map utf8 := by
  refine ⟨fun bytes => ⟨canonicalFields _, canonicalTokens _⟩, fun s =>
    ⟨⟨canonicalFields _, ?_, fieldChars_utf8 s⟩, canonicalTokens _,
      tokens_intercalate (isWords_tokens s), tokenChars_utf8 s⟩⟩
  have hne : fields s ≠ [] := by simpa [fields] using fieldChars_ne_nil s.toList
  rw [fields_intercalate hne fun field hfield => (infix_of_mem_fields hfield).2]
  simp [fields, fieldChars, trim, Function.comp_def]

/-- A fourth bar stays in the next field, and a line feed inside a word does not part it. -/
example : fields " a |||| b|||" = ["a", "| b", ""] ∧ tokens "\n a\nb \t c " = ["a\nb", "c"] := by
  decide +kernel

end PhraseTable.Text
