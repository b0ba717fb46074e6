import PhraseTable.Alignment.Phrase
import PhraseTable.Proofs.Number.Integer
import PhraseTable.Proofs.Outcome
import PhraseTable.Proofs.Text.Words

/-!
# Links in the text of a phrase pair

A text of links is read just if each of its words is written as one (`parse_eq_ok_iff`). The printed
links of a pair are read back as they are (`parse_text`), since a link that was ever
read has positions in the 32-bit range (`fits_of_parse`). In the lists notation a source position
is the place of its list, so there the range comes from the number of lists.
-/

set_option autoImplicit false

namespace PhraseTable

/-- Do both positions of a written link fit into 32 bits? -/
def RawLink.Fits (raw : RawLink) : Prop :=
  raw.source ≤ 2147483647 ∧ raw.target ≤ 2147483647

namespace PhraseAlignment

/-! ## Links as they may be written -/

/-- How a position is written: as an integer of the 32-bit range that is not negative. -/
structure PositionText (cs : List Char) (n : Int) : Prop where
  integer : Number.IntegerText cs n
  nonneg : 0 ≤ n
  le : n ≤ 2147483647

/-- A position is read just when it is the text of one. -/
theorem position_eq_ok_iff {cs : List Char} {n : Int} :
    position cs = .ok n ↔ PositionText cs n := by
  unfold position
  constructor
  · intro h
    split at h
    · rename_i m hread
      split at h
      · rename_i hm
        cases h
        obtain ⟨hinteger, hrange⟩ := Number.readInt?_eq_some_nil_iff.1 hread
        exact ⟨hinteger, hm, hrange.2⟩
      · cases h
    · cases h
  · rintro ⟨hinteger, hn, hle⟩
    rw [Number.readInt?_of_integerText hinteger ⟨by omega, hle⟩]
    exact if_pos hn

/-- How a link is written: two positions with a dash between them. -/
inductive LinkText : List Char → RawLink → Prop where
  | intro {before behind : List Char} {i j : Int} (hdash : '-' ∉ before)
      (hsource : PositionText before i) (htarget : PositionText behind j) :
      LinkText (before ++ '-' :: behind) ⟨i, j⟩

/-- A text is split at its first dash. -/
theorem takeWhile_of_not_mem {before : List Char} (h : '-' ∉ before) (behind : List Char) :
    (before ++ '-' :: behind).takeWhile (· != '-') = before ∧
      (before ++ '-' :: behind).dropWhile (· != '-') = '-' :: behind := by
  have hall : ∀ c ∈ before, (c != '-') = true := by
    intro c hc
    rw [bne_iff_ne]
    rintro rfl
    exact h hc
  rw [List.takeWhile_append_of_pos hall, List.dropWhile_append_of_pos hall]
  simp

/-- A link is read just when it is the text of one. -/
theorem linkOf_eq_ok_iff {item : List Char} {raw : RawLink} :
    linkOf item = .ok raw ↔ LinkText item raw := by
  unfold linkOf
  constructor
  · intro h
    split at h
    · cases h
    · rename_i dash behind hdrop
      obtain ⟨target, htarget, h⟩ := exists_of_bind_eq_ok h
      obtain ⟨source, hsource, h⟩ := exists_of_bind_eq_ok h
      cases h
      have hdash : '-' ∉ item.takeWhile (· != '-') := by
        intro hmem
        simpa using List.mem_takeWhile_imp hmem
      have hhead : dash = '-' := by
        have := List.head?_dropWhile_not (· != '-') item
        simpa [hdrop] using this
      subst hhead
      have htext := LinkText.intro hdash (position_eq_ok_iff.1 hsource)
        (position_eq_ok_iff.1 htarget)
      rwa [← hdrop, List.takeWhile_append_dropWhile] at htext
  · rintro ⟨hdash, hsource, htarget⟩
    rename_i before behind i j
    obtain ⟨htake, hdrop⟩ := takeWhile_of_not_mem hdash behind
    rw [htake, hdrop]
    dsimp only
    rw [position_eq_ok_iff.2 hsource, position_eq_ok_iff.2 htarget]
    rfl

/-- There are no parentheses in an integer. -/
theorem not_paren_of_integerText {cs : List Char} {n : Int} (h : Number.IntegerText cs n) :
    '(' ∉ cs := by
  have hall : ∀ {digits : List Char}, (∀ c ∈ digits, c.isDigit = true) → '(' ∉ digits :=
    fun hdigits hmem => nomatch hdigits _ hmem
  induction h with
  | digits _ hdigits => exact hall hdigits
  | plus _ hdigits => simpa using hall hdigits
  | minus _ hdigits => simpa using hall hdigits
  | blank hc _ ih =>
    rw [List.mem_cons, not_or]
    refine ⟨?_, ih⟩
    rintro rfl
    cases hc

/-- The links of a text are read whatever the size of the source phrase is just if each of its words
is written as a link. -/
theorem parse_eq_ok_iff {text : String} {links : List RawLink} :
    (∀ size : Int, parse text size = .ok links) ↔
      List.Forall₂ LinkText (Text.tokenChars text.toList) links := by
  have hitems : (Text.tokenChars text.toList).mapM linkOf = .ok links ↔
      List.Forall₂ LinkText (Text.tokenChars text.toList) links := by
    simp only [mapM_eq_ok_iff, linkOf_eq_ok_iff]
  rw [← hitems]
  unfold parse
  simp only [mapError_eq_ok_iff]
  unfold linksOf
  dsimp only
  constructor
  · intro h
    split at h
    · -- no text has less than no lists
      specialize h (-1)
      rw [if_neg (by omega)] at h
      cases h
    · exact h 0
  · intro h size
    rw [if_neg, h]
    intro hparen
    obtain ⟨item, hitem, hmem⟩ :=
      Text.exists_mem_tokenChars (c := '(') rfl (by simpa using hparen)
    obtain ⟨raw, -, hlink⟩ := forall₂_mem_left (hitems.1 h) hitem
    obtain ⟨-, hsource, htarget⟩ := hlink
    rw [List.mem_append, List.mem_cons] at hmem
    obtain hmem | hmem | hmem := hmem
    · exact not_paren_of_integerText hsource.integer hmem
    · cases hmem
    · exact not_paren_of_integerText htarget.integer hmem

/-! ## Links that are printed -/

/-- The digits of a natural in the 32-bit range are the text of a position. -/
theorem positionText_toDigits {n : Nat} (h : n ≤ 2147483647) :
    PositionText (Nat.toDigits 10 n) n where
  integer := by
    have htext := Number.IntegerText.digits Nat.toDigits_ne_nil
      fun c hc => Number.isDigit_of_mem_toDigits (n := n) hc
    rwa [Number.natOfDigits_toDigits] at htext
  nonneg := Int.natCast_nonneg n
  le := by omega

/-- A link is printed as its positions in digits, with a dash between them. -/
theorem toList_text (link : Link) :
    link.raw.text.toList = Nat.toDigits 10 link.source ++ '-' :: Nat.toDigits 10 link.target := by
  unfold RawLink.text Link.raw
  rw [String.toList_append, String.toList_append, Number.toList_toString, Number.toList_toString,
    List.append_assoc]
  rfl

/-- A printed link has no characters but digits and the dash. -/
theorem mem_text {link : Link} {c : Char} (h : c ∈ link.raw.text.toList) :
    c.isDigit = true ∨ c = '-' := by
  rw [toList_text, List.mem_append, List.mem_cons] at h
  obtain h | h | h := h
  · exact Or.inl (Number.isDigit_of_mem_toDigits h)
  · exact Or.inr h
  · exact Or.inl (Number.isDigit_of_mem_toDigits h)

/-- Printed links have no characters but digits, dashes and the spaces between them. -/
theorem mem_texts {links : List Link} {c : Char}
    (h : c ∈ (" ".intercalate (links.map fun link => link.raw.text)).toList) :
    c.isDigit = true ∨ c = '-' ∨ c = ' ' := by
  rw [String.toList_intercalate] at h
  obtain hspace | ⟨chars, hchars, hmem⟩ := Text.mem_intercalate h
  · exact Or.inr (Or.inr hspace)
  · rw [List.map_map] at hchars
    obtain ⟨link, -, rfl⟩ := List.mem_map.1 hchars
    exact (mem_text hmem).imp_right Or.inl

/-- There is no white space in a printed link. -/
theorem solid_text (link : Link) : Text.Solid link.raw.text.toList := by
  refine ⟨by simp [toList_text], ?_⟩
  intro c hc
  rcases mem_text hc with hdigit | rfl
  · exact Number.isBlank_of_isDigit hdigit
  · rfl

/-- A printed link is the text of the link, if its positions fit into 32 bits. -/
theorem linkText_text {link : Link} (h : link.raw.Fits) :
    LinkText link.raw.text.toList link.raw := by
  have hdash : '-' ∉ Nat.toDigits 10 link.source :=
    fun hmem => nomatch Number.isDigit_of_mem_toDigits hmem
  rw [toList_text]
  exact .intro hdash (positionText_toDigits (Int.ofNat_le.1 h.1))
    (positionText_toDigits (Int.ofNat_le.1 h.2))

/-- Printed links are read back, whatever the size of the source phrase is. -/
theorem parse_text {links : List Link} (h : ∀ link ∈ links, link.raw.Fits) (size : Int) :
    parse (" ".intercalate (links.map fun link => link.raw.text)) size =
      .ok (links.map Link.raw) := by
  have hwords : Text.IsWords ((links.map fun link => link.raw.text).map String.toList) := by
    apply Text.isWords_of_solid
    rw [List.map_map, List.forall_mem_map]
    exact fun link _ => solid_text link
  have hchars : (" ".intercalate (links.map fun link => link.raw.text)).toList =
      [' '].intercalate ((links.map fun link => link.raw.text).map String.toList) := by
    rw [String.toList_intercalate]
    rfl
  revert size
  rw [parse_eq_ok_iff, hchars, hwords.tokenChars_intercalate, List.map_map,
    List.forall₂_map_left_iff, List.forall₂_map_right_iff, List.forall₂_same]
  exact fun link hlink => linkText_text (h link hlink)

/-! ## Links that were read -/

/-- The positions of a link that was read fit into 32 bits. -/
theorem fits_of_linkOf {item : List Char} {raw : RawLink} (h : linkOf item = .ok raw) :
    raw.Fits := by
  obtain ⟨-, hsource, htarget⟩ := linkOf_eq_ok_iff.1 h
  exact ⟨hsource.le, htarget.le⟩

/-- The links of a list that was read fit into 32 bits, if the place of the list does. -/
theorem fits_of_listLinks {source : Nat} (hsource : source ≤ 2147483647) {item : List Char}
    {raws : List RawLink} (h : listLinks source item = .ok raws) : ∀ raw ∈ raws, raw.Fits := by
  unfold listLinks at h
  split at h
  · cases h
  · cases h
    simp
  · intro raw hraw
    obtain ⟨token, -, h⟩ := forall₂_mem_right (mapM_eq_ok_iff.1 h) hraw
    obtain ⟨target, htarget, h⟩ := exists_of_bind_eq_ok h
    cases h
    exact ⟨Int.ofNat_le.2 hsource, (position_eq_ok_iff.1 htarget).le⟩

/-- The links of lists that were read fit into 32 bits, if their number does. -/
theorem fits_of_listsLinks {source : Nat} {items : List (List Char)} {raws : List RawLink}
    (hsource : source + items.length ≤ 2147483647) (h : listsLinks source items = .ok raws) :
    ∀ raw ∈ raws, raw.Fits := by
  induction items generalizing source raws with
  | nil =>
    cases h
    simp
  | cons item rest ih =>
    rw [List.length_cons] at hsource
    obtain ⟨links, hlinks, h⟩ := exists_of_bind_eq_ok h
    obtain ⟨others, hothers, h⟩ := exists_of_bind_eq_ok h
    cases h
    intro raw hraw
    rcases List.mem_append.1 hraw with hraw | hraw
    · exact fits_of_listLinks (by omega) hlinks raw hraw
    · exact ih (by omega) hothers raw hraw

/-- The links of a text that was read fit into 32 bits. -/
theorem fits_of_parse {text : String} {size : Int} {raws : List RawLink}
    (hsize : size ≤ 2147483647) (h : parse text size = .ok raws) : ∀ raw ∈ raws, raw.Fits := by
  unfold parse at h
  rw [mapError_eq_ok_iff] at h
  unfold linksOf at h
  dsimp only at h
  split at h
  · split at h
    · rename_i hcount
      exact fits_of_listsLinks (by omega) h
    · cases h
  · intro raw hraw
    obtain ⟨item, -, h⟩ := forall₂_mem_right (mapM_eq_ok_iff.1 h) hraw
    exact fits_of_linkOf h

end PhraseAlignment

end PhraseTable
