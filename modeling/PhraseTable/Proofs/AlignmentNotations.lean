import PhraseTable.Alignment.AlignedPair
import PhraseTable.Proofs.AlignmentGrammar

/-!
# Two notations for the same links

Links can be written as one list of target positions for each source position (`listsText`) or one
by one (`linksText`), the way the links of a pair are printed. Both texts are read as the links
`linksFrom 0 lists`, in this order (`parse_notations`). The second reading does not depend on the
size of the source phrase. The first one does, but for a source phrase without positions: then the
text has no list in it, hence no parenthesis, and it is read as a text of no links.
-/

set_option autoImplicit false

namespace PhraseTable.PhraseAlignment

/-! ## Texts of lists -/

/-- The text of a list of target positions. -/
def listText (targets : List Nat) : String :=
  "(" ++ ",".intercalate (targets.map toString) ++ ")"

/-- The text of lists of target positions, one for each source position. -/
def listsText (lists : List (List Nat)) : String :=
  " ".intercalate (lists.map listText)

/-- The text of links. -/
def linksText (links : List Link) : String :=
  " ".intercalate (links.map fun link => link.raw.text)

/-- A list is printed as its targets in digits, with commas between them and brackets around
them. -/
theorem toList_listText (targets : List Nat) :
    (listText targets).toList =
      '(' :: ([','].intercalate (targets.map (Nat.toDigits 10)) ++ [')']) := by
  have hdigits : (targets.map toString).map String.toList = targets.map (Nat.toDigits 10) := by
    rw [List.map_map]
    exact List.map_congr_left fun target _ => Nat.toList_repr
  unfold listText
  rw [String.toList_append, String.toList_append, String.toList_intercalate, hdigits]
  rfl

/-- The digits of a number within the bound are its position. -/
theorem wordPosition_toDigits {n : Nat} (h : n ≤ 2147483647) :
    WordPosition (Nat.toDigits 10 n) n := by
  refine wordPosition_iff.2 ⟨positionText_toDigits h, fun c hc => ?_⟩
  exact Text.isGap_eq_false (Number.isBlank_of_isDigit (Number.isDigit_of_mem_toDigits hc))

/-- A printed list is the word of this list, if its targets are within the bound. -/
theorem listWord_listText {targets : List Nat} (h : ∀ target ∈ targets, target ≤ 2147483647) :
    ListWord (listText targets).toList targets := by
  rw [toList_listText]
  refine .intro ?_
  rw [List.forall₂_map_left_iff, List.forall₂_same]
  exact fun target htarget => wordPosition_toDigits (h target htarget)

/-- There are no gaps in a printed list. -/
theorem solid_listText (targets : List Nat) : Text.Solid (listText targets).toList := by
  rw [toList_listText]
  refine ⟨List.cons_ne_nil _ _, ?_⟩
  intro c hc
  rw [List.mem_cons, List.mem_append, List.mem_singleton] at hc
  obtain rfl | hc | rfl := hc
  · rfl
  · obtain rfl | ⟨digits, hdigits, hmem⟩ := Text.mem_intercalate hc
    · rfl
    · obtain ⟨target, -, rfl⟩ := List.mem_map.1 hdigits
      exact Number.isBlank_of_isDigit (Number.isDigit_of_mem_toDigits hmem)
  · rfl

/-- Printed lists are cut into the texts of the lists. -/
theorem tokens_listsText (lists : List (List Nat)) :
    Text.tokens (listsText lists) = lists.map listText := by
  refine Text.tokens_intercalate (Text.isWords_of_solid ?_)
  rw [List.map_map, List.forall_mem_map]
  exact fun targets _ => solid_listText targets

/-- A text whose words are lists is read as their links, however the words are separated. -/
theorem parse_of_tokens {lists : List (List Nat)}
    (htargets : ∀ targets ∈ lists, ∀ target ∈ targets, target ≤ 2147483647) {text : String}
    (htext : Text.tokens text = lists.map listText) :
    parse text lists.length = .ok ((linksFrom 0 lists).map Link.raw) := by
  have hwords : Text.tokenChars text.toList =
      lists.map fun targets => (listText targets).toList := by
    simpa [Text.tokens, Function.comp_def] using congrArg (List.map String.toList) htext
  have hlists : List.Forall₂ ListWord (Text.tokenChars text.toList) lists := by
    rw [hwords, List.forall₂_map_left_iff, List.forall₂_same]
    exact fun targets hmem => listWord_listText (htargets targets hmem)
  rw [parse, mapError_eq_ok_iff, linksOf_eq_ok_iff]
  refine ⟨linksFrom 0 lists, ?_, rfl⟩
  cases lists with
  | nil =>
    -- without a word there is no parenthesis, and the text is one of no links
    refine .links (fun hparen => ?_) ?_
    · obtain ⟨word, hword, -⟩ := Text.exists_mem_tokenChars rfl hparen
      rw [hwords] at hword
      cases hword
    · rw [hwords]
      exact .nil
  | cons targets rest =>
    refine .lists ?_ rfl hlists
    have hword : listText targets ∈ Text.tokens text := by simp [htext]
    refine Text.mem_of_mem_tokens hword ?_
    rw [toList_listText]
    exact List.mem_cons_self

/-! ## Texts of links -/

/-- A link comes from one of the lists, the one with the number of its source. -/
theorem mem_linksFrom {source : Nat} {lists : List (List Nat)} {link : Link}
    (h : link ∈ linksFrom source lists) :
    link.source < source + lists.length ∧ ∃ targets ∈ lists, link.target ∈ targets := by
  obtain ⟨⟨targets, i⟩, hlist, hlink⟩ := List.mem_flatMap.1 h
  obtain ⟨target, htarget, rfl⟩ := List.mem_map.1 hlink
  obtain ⟨-, hi, -⟩ := List.mem_zipIdx hlist
  exact ⟨hi, targets, List.fst_mem_of_mem_zipIdx hlist, htarget⟩

/-- The links of lists, printed as pairs with dashes, are read again, whatever the given size is. -/
theorem parse_linksText {lists : List (List Nat)} (hsize : lists.length ≤ 2147483647)
    (htargets : ∀ targets ∈ lists, ∀ target ∈ targets, target ≤ 2147483647) (sourceSize : Int) :
    parse (linksText (linksFrom 0 lists)) sourceSize =
      .ok ((linksFrom 0 lists).map Link.raw) := by
  refine parse_text (fun link hlink => ?_) sourceSize
  obtain ⟨hsource, targets, hmem, htarget⟩ := mem_linksFrom hlink
  have hbound := htargets targets hmem link.target htarget
  unfold RawLink.Fits Link.raw
  dsimp only
  omega

/-- **Both notations mean the same.** The lists of all source positions are read as the links that
lead from each source position to the positions in its list. The same links, as a pair prints them,
are read as themselves. -/
theorem parse_notations {lists : List (List Nat)} (hsize : lists.length ≤ 2147483647)
    (htargets : ∀ targets ∈ lists, ∀ target ∈ targets, target ≤ 2147483647) :
    parse (listsText lists) lists.length = .ok ((linksFrom 0 lists).map Link.raw) ∧
    (∀ text : String, Text.tokens text = lists.map listText →
      parse text lists.length = .ok ((linksFrom 0 lists).map Link.raw)) ∧
    (∀ sourceSize : Int, parse (linksText (linksFrom 0 lists)) sourceSize =
      .ok ((linksFrom 0 lists).map Link.raw)) ∧
    ∀ pair : AlignedPair, pair.links = linksFrom 0 lists →
      pair.linkText = linksText (linksFrom 0 lists) := by
  refine ⟨parse_of_tokens htargets (tokens_listsText lists),
    fun text => parse_of_tokens htargets, parse_linksText hsize htargets, ?_⟩
  intro pair hlinks
  rw [← hlinks]
  rfl

/-- Three lists, the last one empty, in both notations. The one in brackets is read with any white
space between its lists, and the one with dashes is the text that a pair prints of its links. -/
theorem parse_notations_three :
    [[0], [1, 2], []].length ≤ 2147483647 ∧
    (∀ targets ∈ [[0], [1, 2], []], ∀ target ∈ targets, target ≤ 2147483647) ∧
    parse "(0) (1,2) ()" 3 = .ok [⟨0, 0⟩, ⟨1, 1⟩, ⟨1, 2⟩] ∧
    parse "(0)  (1,2) \t()" 3 = .ok [⟨0, 0⟩, ⟨1, 1⟩, ⟨1, 2⟩] ∧
    parse "0-0 1-1 1-2" (-1) = .ok [⟨0, 0⟩, ⟨1, 1⟩, ⟨1, 2⟩] ∧
    AlignedPair.linkText ⟨[5, 6, 7], [8, 9, 8], [⟨0, 0⟩, ⟨1, 1⟩, ⟨1, 2⟩], by decide, by decide⟩ =
      "0-0 1-1 1-2" := by
  have hsize : [[0], [1, 2], []].length ≤ 2147483647 := by decide
  have htargets : ∀ targets ∈ [[0], [1, 2], []], ∀ target ∈ targets, target ≤ 2147483647 := by
    decide
  obtain ⟨hlists, hwords, hlinks, hpair⟩ := parse_notations hsize htargets
  exact ⟨hsize, htargets, hlists, hwords _ (by decide), hlinks (-1), hpair _ rfl⟩

end PhraseTable.PhraseAlignment
