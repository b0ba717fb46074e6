import Mathlib.Data.List.Forall2
import Mathlib.Data.List.TakeWhile
import PhraseTable.Text.Tokens

/-!
# Words and the text that holds them

The words of a text have a form of their own (`isWords_tokens`): none is empty or has a space or a
tab in it, and the first does not begin, nor the last end, with white space. Any words of this form
are read back from the text that joins them with single spaces (`tokens_intercalate`). White space
of the other kinds may stand inside, so the ends of the row have to be watched apart from the words.
-/

set_option autoImplicit false

namespace PhraseTable.Text

/-! ## White space at the ends -/

/-- There is no white space at either end. -/
structure Trimmed (cs : List Char) : Prop where
  head : ∀ c ∈ cs.head?, isBlank c = false
  last : ∀ c ∈ cs.getLast?, isBlank c = false

/-- Nothing is dropped from a text that does not begin with white space. -/
theorem dropWhile_eq_self {cs : List Char} (h : ∀ c ∈ cs.head?, isBlank c = false) :
    cs.dropWhile isBlank = cs := by
  cases cs with
  | nil => rfl
  | cons c cs => simp [h c rfl]

/-- A trimmed text stays as it is. -/
theorem trimChars_of_trimmed {cs : List Char} (h : Trimmed cs) : trimChars cs = cs := by
  have hlast : cs.reverse.dropWhile isBlank = cs.reverse :=
    dropWhile_eq_self (by simpa using h.last)
  rw [trimChars, dropWhile_eq_self h.head, hlast, List.reverse_reverse]

/-- A text does not begin with white space after this was dropped. -/
theorem head?_dropWhile (cs : List Char) :
    ∀ c ∈ (cs.dropWhile isBlank).head?, isBlank c = false := by
  intro c hc
  simpa [Option.mem_def.1 hc] using List.head?_dropWhile_not isBlank cs

/-- Trimming leaves a trimmed text. -/
theorem trimmed_trimChars (cs : List Char) : Trimmed (trimChars cs) := by
  have hlast := head?_dropWhile (cs.dropWhile isBlank).reverse
  refine ⟨?_, by simpa [trimChars] using hlast⟩
  intro c hc
  -- what is left of a suffix begins where the suffix does
  have hsuffix := List.dropWhile_suffix isBlank (l := (cs.dropWhile isBlank).reverse)
  have hfront : trimChars cs <+: cs.dropWhile isBlank := by
    simpa [trimChars] using List.reverse_prefix.2 hsuffix
  obtain ⟨more, hmore⟩ := hfront
  apply head?_dropWhile cs c
  rw [← hmore, List.head?_append, Option.mem_def.1 hc]
  rfl

/-- Trimming twice is trimming once. -/
@[simp] theorem trimChars_trimChars (cs : List Char) : trimChars (trimChars cs) = trimChars cs :=
  trimChars_of_trimmed (trimmed_trimChars cs)

/-- White space in front is taken off. -/
theorem trimChars_cons {c : Char} (h : isBlank c = true) (cs : List Char) :
    trimChars (c :: cs) = trimChars cs := by
  simp [trimChars, h]

/-- White space at the end is taken off. -/
theorem trimChars_concat {c : Char} (h : isBlank c = true) (cs : List Char) :
    trimChars (cs ++ [c]) = trimChars cs := by
  unfold trimChars
  rw [List.dropWhile_append]
  split
  · rename_i hempty
    simp [h, List.isEmpty_iff.1 hempty]
  · simp [h]

/-- A trimmed text is a part of the text. -/
theorem infix_trimChars (cs : List Char) : trimChars cs <:+: cs := by
  have hfront := (List.dropWhile_suffix isBlank (l := cs)).isInfix
  have hback := (List.dropWhile_suffix isBlank (l := (cs.dropWhile isBlank).reverse)).isInfix
  exact (List.reverse_infix.1 (by simpa [trimChars] using hback)).trans hfront

/-- Nothing but white space is taken off. -/
theorem mem_trimChars {c : Char} (h : isBlank c = false) {cs : List Char} (hc : c ∈ cs) :
    c ∈ trimChars cs := by
  have hdrop : ∀ {ds : List Char}, c ∈ ds → c ∈ ds.dropWhile isBlank := by
    intro ds hds
    rw [← List.takeWhile_append_dropWhile (p := isBlank) (l := ds), List.mem_append] at hds
    refine hds.resolve_left fun hblank => ?_
    simp [List.mem_takeWhile_imp hblank] at h
  unfold trimChars
  rw [List.mem_reverse]
  exact hdrop (List.mem_reverse.2 (hdrop hc))

/-! ## Pieces between separators -/

section Pieces

variable {sep : Char → Bool}

/-- A piece is a part of the text that has no separator in it. The first one begins the text. -/
theorem exists_splitOnP (sep : Char → Bool) (cs : List Char) :
    ∃ first rest, cs.splitOnP sep = first :: rest ∧ first <+: cs ∧
      ∀ piece ∈ first :: rest, piece <:+: cs ∧ ∀ c ∈ piece, sep c = false := by
  induction cs with
  | nil => exact ⟨[], [], rfl, List.prefix_refl _, by simp⟩
  | cons c cs ih =>
    obtain ⟨first, rest, hsplit, hfront, hpieces⟩ := ih
    rw [List.splitOnP_cons_eq_if_modifyHead, hsplit]
    split
    · refine ⟨[], first :: rest, rfl, List.nil_prefix, ?_⟩
      intro piece hpiece
      rcases List.mem_cons.1 hpiece with rfl | hpiece
      · simp
      · exact ⟨(hpieces piece hpiece).1.trans (List.suffix_cons c cs).isInfix,
          (hpieces piece hpiece).2⟩
    · rename_i hc
      refine ⟨c :: first, rest, rfl, List.prefix_cons_inj c |>.2 hfront, ?_⟩
      intro piece hpiece
      rcases List.mem_cons.1 hpiece with rfl | hpiece
      · refine ⟨(List.prefix_cons_inj c |>.2 hfront).isInfix, ?_⟩
        simpa [hc] using (hpieces first List.mem_cons_self).2
      · have hrest := hpieces piece (List.mem_cons_of_mem first hpiece)
        exact ⟨hrest.1.trans (List.suffix_cons c cs).isInfix, hrest.2⟩

/-- A piece is a part of the text. -/
theorem infix_of_mem_splitOnP {cs piece : List Char} (h : piece ∈ cs.splitOnP sep) :
    piece <:+: cs := by
  obtain ⟨first, rest, hsplit, -, hpieces⟩ := exists_splitOnP sep cs
  exact (hpieces piece (hsplit ▸ h)).1

/-- There is no separator in a piece. -/
theorem sep_eq_false_of_mem_splitOnP {cs piece : List Char} (h : piece ∈ cs.splitOnP sep) :
    ∀ c ∈ piece, sep c = false := by
  obtain ⟨first, rest, hsplit, -, hpieces⟩ := exists_splitOnP sep cs
  exact (hpieces piece (hsplit ▸ h)).2

/-- Every character that is no separator stands in a piece. -/
theorem exists_mem_splitOnP {c : Char} (h : sep c = false) {cs : List Char}
    (hc : c ∈ cs) : ∃ piece ∈ cs.splitOnP sep, c ∈ piece := by
  induction cs with
  | nil => cases hc
  | cons d cs ih =>
    obtain ⟨first, rest, hsplit⟩ := List.exists_cons_of_ne_nil (List.splitOnP_ne_nil sep cs)
    rw [List.splitOnP_cons_eq_if_modifyHead]
    rw [hsplit] at ih ⊢
    rcases List.mem_cons.1 hc with rfl | hc
    · simp [h]
    · obtain ⟨piece, hpiece, hmem⟩ := ih hc
      split
      · exact ⟨piece, List.mem_cons_of_mem [] hpiece, hmem⟩
      · rcases List.mem_cons.1 hpiece with rfl | hpiece
        · exact ⟨d :: piece, List.mem_cons_self, List.mem_cons_of_mem d hmem⟩
        · exact ⟨piece, List.mem_cons_of_mem (d :: first) hpiece, hmem⟩

/-- A text that ends without a separator ends with its last piece. -/
theorem exists_splitOnP_concat {c : Char} (h : sep c = false) (cs : List Char) :
    ∃ front last, (cs ++ [c]).splitOnP sep = front ++ [last ++ [c]] := by
  induction cs with
  | nil => exact ⟨[], [], List.splitOnP_eq_singleton (by simpa using h)⟩
  | cons d cs ih =>
    obtain ⟨front, last, hsplit⟩ := ih
    rw [List.cons_append, List.splitOnP_cons_eq_if_modifyHead, hsplit]
    split
    · exact ⟨[] :: front, last, rfl⟩
    · cases front with
      | nil => exact ⟨[], d :: last, rfl⟩
      | cons first front => exact ⟨(d :: first) :: front, last, rfl⟩

/-- Words without separators, joined by one, are cut into the words again. -/
theorem splitOnP_intercalate {c : Char} (hc : sep c = true) {words : List (List Char)}
    (hne : words ≠ []) (hsep : ∀ word ∈ words, ∀ d ∈ word, sep d = false) :
    ([c].intercalate words).splitOnP sep = words := by
  induction words with
  | nil => exact absurd rfl hne
  | cons word rest ih =>
    have hword := hsep word List.mem_cons_self
    cases rest with
    | nil => simpa using List.splitOnP_eq_singleton hword
    | cons next rest =>
      have hrest := ih (List.cons_ne_nil _ _) fun w hw => hsep w (List.mem_cons_of_mem word hw)
      rw [List.intercalate_cons_cons, List.append_assoc, List.singleton_append,
        List.splitOnP_append_cons_of_forall_mem hword c hc, hrest]

end Pieces

/-! ## Words -/

/-- These are the words of some text. -/
structure IsWords (words : List (List Char)) : Prop where
  ne_nil : ∀ word ∈ words, word ≠ []
  no_gap : ∀ word ∈ words, ∀ c ∈ word, isGap c = false
  head : ∀ word ∈ words.head?, ∀ c ∈ word.head?, isBlank c = false
  last : ∀ word ∈ words.getLast?, ∀ c ∈ word.getLast?, isBlank c = false

/-- What is no white space is no gap. -/
theorem isGap_eq_false {c : Char} (h : isBlank c = false) : isGap c = false := by
  simp only [isBlank, isGap, Bool.or_eq_false_iff] at h ⊢
  exact h.1.1.1.1

/-- The words are the pieces that are not empty. -/
theorem tokenChars_eq_filter (cs : List Char) :
    tokenChars cs = ((trimChars cs).splitOnP isGap).filter fun piece => !piece.isEmpty := rfl

/-- The first word begins where the text does. -/
theorem head?_tokenChars (cs : List Char) :
    (tokenChars cs).head?.bind List.head? = (trimChars cs).head? := by
  have htrimmed := trimmed_trimChars cs
  rw [tokenChars_eq_filter]
  generalize trimChars cs = trimmed at htrimmed ⊢
  cases trimmed with
  | nil => rfl
  | cons c trimmed =>
    obtain ⟨first, rest, hsplit, -⟩ := exists_splitOnP isGap trimmed
    rw [List.splitOnP_cons_eq_if_modifyHead, isGap_eq_false (htrimmed.head c rfl), hsplit]
    rfl

/-- The last word ends where the text does. -/
theorem getLast?_tokenChars (cs : List Char) :
    (tokenChars cs).getLast?.bind List.getLast? = (trimChars cs).getLast? := by
  have htrimmed := trimmed_trimChars cs
  rw [tokenChars_eq_filter]
  generalize trimChars cs = trimmed at htrimmed ⊢
  obtain rfl | ⟨trimmed, c, rfl⟩ := List.eq_nil_or_concat trimmed
  · rfl
  · have hc := htrimmed.last c (by simp)
    obtain ⟨front, last, hsplit⟩ := exists_splitOnP_concat (isGap_eq_false hc) trimmed
    rw [List.concat_eq_append, hsplit, List.filter_append]
    simp

/-- What a text is cut into are words. -/
theorem isWords_tokenChars (cs : List Char) : IsWords (tokenChars cs) := by
  have htrimmed := trimmed_trimChars cs
  constructor
  · intro word hword
    simpa using (List.mem_filter.1 hword).2
  · intro word hword
    exact sep_eq_false_of_mem_splitOnP (List.mem_filter.1 hword).1
  · intro word hword c hc
    apply htrimmed.head
    rw [← head?_tokenChars, Option.mem_def.1 hword]
    exact hc
  · intro word hword c hc
    apply htrimmed.last
    rw [← getLast?_tokenChars, Option.mem_def.1 hword]
    exact hc

/-- A word is a part of its text. -/
theorem infix_of_mem_tokenChars {cs word : List Char} (h : word ∈ tokenChars cs) : word <:+: cs :=
  (infix_of_mem_splitOnP (List.mem_filter.1 h).1).trans (infix_trimChars cs)

/-- Every character that is no white space stands in a word. -/
theorem exists_mem_tokenChars {c : Char} (h : isBlank c = false) {cs : List Char} (hc : c ∈ cs) :
    ∃ word ∈ tokenChars cs, c ∈ word := by
  obtain ⟨piece, hpiece, hmem⟩ := exists_mem_splitOnP (isGap_eq_false h) (mem_trimChars h hc)
  refine ⟨piece, List.mem_filter.2 ⟨hpiece, ?_⟩, hmem⟩
  cases piece with
  | nil => cases hmem
  | cons d piece => rfl

/-- White space around a text plays no part in its words. -/
@[simp] theorem tokenChars_trimChars (cs : List Char) :
    tokenChars (trimChars cs) = tokenChars cs := by
  simp [tokenChars]

/-- Joined words end as the last word ends. -/
theorem getLast?_intercalate (c : Char) {words : List (List Char)} (h : ∀ word ∈ words, word ≠ []) :
    ([c].intercalate words).getLast? = words.getLast?.bind List.getLast? := by
  induction words with
  | nil => rfl
  | cons word rest ih =>
    cases rest with
    | nil => simp
    | cons next rest =>
      have hlast := ih fun w hw => h w (List.mem_cons_of_mem word hw)
      obtain ⟨last, hmem⟩ := List.getLast?_isSome.2 (List.cons_ne_nil next rest) |>
        Option.isSome_iff_exists.1
      have hne : last ≠ [] := h last (List.mem_cons_of_mem word (List.mem_of_getLast? hmem))
      obtain ⟨d, hd⟩ := Option.isSome_iff_exists.1 (List.getLast?_isSome.2 hne)
      rw [List.intercalate_cons_cons, List.getLast?_append, hlast, List.getLast?_cons_cons, hmem,
        Option.bind_some, hd, Option.some_or]

/-- Joined words have no characters but their own and the mark between them. -/
theorem mem_intercalate {c : Char} {words : List (List Char)} {d : Char}
    (h : d ∈ [c].intercalate words) : d = c ∨ ∃ word ∈ words, d ∈ word := by
  induction words with
  | nil => simp at h
  | cons word rest ih =>
    cases rest with
    | nil => exact Or.inr ⟨word, List.mem_cons_self, by simpa using h⟩
    | cons next rest =>
      rw [List.intercalate_cons_cons, List.append_assoc, List.mem_append, List.mem_append,
        List.mem_singleton] at h
      obtain h | h | h := h
      · exact Or.inr ⟨word, List.mem_cons_self, h⟩
      · exact Or.inl h
      · obtain h | ⟨other, hother, h⟩ := ih h
        · exact Or.inl h
        · exact Or.inr ⟨other, List.mem_cons_of_mem word hother, h⟩

/-- There is no white space around joined words. -/
theorem IsWords.trimmed {words : List (List Char)} (h : IsWords words) :
    Trimmed ([' '].intercalate words) := by
  constructor
  · intro c hc
    match words, h with
    | [], _ => simp at hc
    | [] :: _, h => exact absurd rfl (h.ne_nil [] List.mem_cons_self)
    | (d :: word) :: rest, h =>
      refine h.head (d :: word) rfl c ?_
      cases rest <;> simpa [List.intercalate_cons_cons] using hc
  · intro c hc
    rw [getLast?_intercalate ' ' h.ne_nil] at hc
    obtain ⟨word, hword, hc⟩ := Option.bind_eq_some_iff.1 hc
    exact h.last word hword c hc

/-- Joined words are cut into the words again. -/
theorem IsWords.tokenChars_intercalate {words : List (List Char)} (h : IsWords words) :
    tokenChars ([' '].intercalate words) = words := by
  rw [tokenChars_eq_filter, trimChars_of_trimmed h.trimmed]
  by_cases hne : words = []
  · simp [hne]
  · rw [splitOnP_intercalate rfl hne h.no_gap, List.filter_eq_self]
    simpa using h.ne_nil

/-- A word with no white space at all in it, which may stand anywhere. -/
def Solid (word : List Char) : Prop :=
  word ≠ [] ∧ ∀ c ∈ word, isBlank c = false

/-- One word is the other one, or solid. -/
def ReplacedBy (word word' : List Char) : Prop :=
  word' = word ∨ Solid word'

/-- What holds of solid words and of the first word holds of the first one after words were
replaced. -/
theorem head?_of_replacedBy {P : List Char → Prop} (hsolid : ∀ word, Solid word → P word)
    {words words' : List (List Char)} (h : List.Forall₂ ReplacedBy words words')
    (hhead : ∀ word ∈ words.head?, P word) : ∀ word ∈ words'.head?, P word := by
  cases h with
  | nil => exact hhead
  | @cons first first' _ _ hfirst _ =>
    intro word hword
    obtain rfl : first' = word := by simpa using hword
    rcases hfirst with rfl | hfirst
    · exact hhead _ rfl
    · exact hsolid _ hfirst

/-- Solid words may take the places of others. -/
theorem IsWords.replace {words words' : List (List Char)} (h : IsWords words)
    (hwords : List.Forall₂ ReplacedBy words words') : IsWords words' := by
  have hmem : ∀ word' ∈ words', word' ∈ words ∨ Solid word' := by
    clear h
    induction hwords with
    | nil => simp
    | @cons word word' _ _ hword _ ih =>
      intro other hother
      rcases List.mem_cons.1 hother with rfl | hother
      · rcases hword with rfl | hsolid
        · exact Or.inl List.mem_cons_self
        · exact Or.inr hsolid
      · exact (ih other hother).imp (List.mem_cons_of_mem word) id
  have hreverse := List.rel_reverse hwords
  constructor
  · intro word hword
    exact (hmem word hword).elim (h.ne_nil word) (·.1)
  · intro word hword c hc
    rcases hmem word hword with hold | hsolid
    · exact h.no_gap word hold c hc
    · exact isGap_eq_false (hsolid.2 c hc)
  · apply head?_of_replacedBy _ hwords h.head
    intro word hsolid c hc
    exact hsolid.2 c (List.mem_of_head? hc)
  · have hlast : ∀ word ∈ words.reverse.head?, ∀ c ∈ word.getLast?, isBlank c = false := by
      simpa using h.last
    rw [← List.head?_reverse]
    refine head?_of_replacedBy ?_ hreverse hlast
    intro word hsolid c hc
    exact hsolid.2 c (List.mem_of_getLast? hc)

/-- Solid words are words of some text. -/
theorem isWords_of_solid {words : List (List Char)} (h : ∀ word ∈ words, Solid word) :
    IsWords words where
  ne_nil word hword := (h word hword).1
  no_gap word hword c hc := isGap_eq_false ((h word hword).2 c hc)
  head word hword c hc := (h word (List.mem_of_head? hword)).2 c (List.mem_of_head? hc)
  last word hword c hc := (h word (List.mem_of_getLast? hword)).2 c (List.mem_of_getLast? hc)

/-! ## Texts -/

/-- What a text is cut into are words, as lists of characters. -/
theorem isWords_tokens (s : String) : IsWords ((tokens s).map String.toList) := by
  simpa [tokens, Function.comp_def] using isWords_tokenChars s.toList

/-- Words that are joined by spaces are cut into the words again. -/
theorem tokens_intercalate {words : List String} (h : IsWords (words.map String.toList)) :
    tokens (" ".intercalate words) = words := by
  have hwords := h.tokenChars_intercalate
  simp [tokens, hwords, Function.comp_def]

/-- Text that joins words has no white space at its ends. -/
theorem trim_intercalate {words : List String} (h : IsWords (words.map String.toList)) :
    trim (" ".intercalate words) = " ".intercalate words := by
  have htrim := trimChars_of_trimmed h.trimmed
  simp [trim, htrim, ← String.toList_inj]

/-- White space around a text plays no part in its words. -/
@[simp] theorem tokens_trim (s : String) : tokens (trim s) = tokens s := by
  simp [tokens, trim]

/-- The words of a text have no characters but those of the text. -/
theorem mem_of_mem_tokens {s word : String} (h : word ∈ tokens s) {c : Char}
    (hc : c ∈ word.toList) : c ∈ s.toList := by
  obtain ⟨chars, hchars, rfl⟩ := List.mem_map.1 h
  exact (infix_of_mem_tokenChars hchars).subset (by simpa using hc)

end PhraseTable.Text
