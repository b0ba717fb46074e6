import PhraseTable.Proofs.SentenceAlignment

/-!
# Alignments as texts

An alignment is written with one line for each sentence pair: its links, one by one, with spaces
between them. The reader of such a line does not see where a link ends, but all the positions that
it finds there are those of the links, two by two (`ofTrimmed_lineOf`). On the other hand no piece
of a line has a dash in it, so no position that was read is negative (`inRange_of_ofText`). Hence an
alignment is read from some text just if its positions are 32-bit numbers that are not negative, and
then it is read from its own text (`ofText_text`).
-/

set_option autoImplicit false

namespace PhraseTable.Alignment

/-! ## Written alignments -/

/-- The line of a sentence pair. -/
def lineOf (links : List RawLink) : String :=
  " ".intercalate (links.map RawLink.text)

/-- The text of an alignment: the lines of its sentence pairs, each with a line feed behind it. -/
def text (alignment : Alignment) : String :=
  String.join (alignment.map fun links => lineOf links ++ "\n")

/-- How many positions a link can name on either side. -/
def positionCount : Nat := 2147483648

/-- All positions are 32-bit numbers that are not negative. -/
def InRange (alignment : Alignment) : Prop :=
  ∀ links ∈ alignment, ∀ link ∈ links, link.InRange positionCount positionCount

instance (alignment : Alignment) : Decidable alignment.InRange :=
  inferInstanceAs (Decidable (∀ links ∈ alignment, _))

/-! ## Texts of alignments -/

/-- A written link is the text of a link, and its positions fit. -/
theorem exists_link_of_inRange {raw : RawLink} (h : raw.InRange positionCount positionCount) :
    ∃ link : Link, link.raw = raw ∧ link.raw.Fits := by
  obtain ⟨link, rfl, hin⟩ := RawLink.inRange_iff.1 h
  refine ⟨link, rfl, ?_⟩
  simp only [Link.Within, positionCount] at hin
  simp only [RawLink.Fits, Link.raw]
  omega

/-- Positions are printed without signs, so printed links are tight. -/
theorem tight_text (link : Link) : Tight link.raw.text.toList := by
  have hdigits : ∀ n : Nat, '-' ∉ Nat.toDigits 10 n := fun n =>
    not_dash_of_isDigit fun c hc => Number.isDigit_of_mem_toDigits hc
  unfold Tight
  rw [PhraseAlignment.toList_text, behindDash_append (hdigits link.source)]
  exact fun hdash => absurd hdash (hdigits link.target)

/-- A printed line is cut into the texts of its links. -/
theorem tokenChars_lineOf {links : List RawLink}
    (h : ∀ link ∈ links, link.InRange positionCount positionCount) :
    Text.tokenChars (lineOf links).toList = links.map fun link => link.text.toList := by
  have hwords : Text.IsWords ((links.map RawLink.text).map String.toList) := by
    apply Text.isWords_of_solid
    simp only [List.map_map, List.forall_mem_map]
    intro link hlink
    obtain ⟨link, rfl, -⟩ := exists_link_of_inRange (h link hlink)
    exact PhraseAlignment.solid_text link
  unfold lineOf
  rw [String.toList_intercalate]
  apply hwords.tokenChars_intercalate.trans
  simp

/-- A line is read as the links that it was written from. -/
theorem ofTrimmed_lineOf {links : List RawLink}
    (h : ∀ link ∈ links, link.InRange positionCount positionCount) :
    ofTrimmed (Text.trimChars (lineOf links).toList) = .ok links := by
  have htokens := tokenChars_lineOf h
  apply ofTrimmed_of_tight
  · rw [htokens, List.forall₂_map_left_iff, List.forall₂_same]
    intro link hlink
    obtain ⟨link, rfl, hfits⟩ := exists_link_of_inRange (h link hlink)
    exact PhraseAlignment.linkText_text hfits
  · rw [htokens, List.forall_mem_map]
    intro link hlink
    obtain ⟨link, rfl, -⟩ := exists_link_of_inRange (h link hlink)
    exact tight_text link

/-- There is no line break in a printed line. -/
theorem feed_not_mem_lineOf (links : List RawLink) : '\n' ∉ (lineOf links).toList := by
  have hnumber : ∀ n : Int, '\n' ∉ (toString n).toList := by
    intro n hfeed
    rcases Number.mem_toString hfeed with hdigit | hdash
    · cases hdigit
    · cases hdash
  unfold lineOf
  rw [String.toList_intercalate]
  intro hfeed
  obtain hfeed | ⟨word, hword, hmem⟩ := Text.mem_intercalate hfeed
  · cases hfeed
  · obtain ⟨text, htext, rfl⟩ := List.mem_map.1 hword
    obtain ⟨link, -, rfl⟩ := List.mem_map.1 htext
    simp only [RawLink.text, String.toList_append, List.mem_append, hnumber, or_false,
      false_or] at hmem
    simp at hmem

/-- An alignment is read from its text. -/
theorem ofText_text_of_inRange {alignment : Alignment} (h : alignment.InRange) :
    ofText alignment.text = .ok alignment := by
  have hlines : Text.lines alignment.text = alignment.map lineOf := by
    have hfeed : ∀ line ∈ alignment.map lineOf, '\n' ∉ line.toList := by
      simp [feed_not_mem_lineOf]
    have hjoin := Text.lines_join hfeed
    rwa [List.map_map] at hjoin
  unfold ofText
  rw [hlines, ofLines_eq_ok_iff, List.forall₂_map_left_iff, List.forall₂_same]
  exact fun links hlinks => ofTrimmed_lineOf (h links hlinks)

/-! ## Alignments that were read -/

/-- Links that were put together from items have positions that can be stored. -/
theorem inRange_of_pairUp {items : List (List Char)} {links : List RawLink}
    (hdash : ∀ item ∈ items, '-' ∉ item) (h : pairUp items = some links) :
    ∀ link ∈ links, link.InRange positionCount positionCount := by
  induction items using pairUp.induct generalizing links with
  | case1 i j rest ih =>
    simp only [List.forall_mem_cons] at hdash
    obtain ⟨hi, hj, hrest⟩ := hdash
    rw [pairUp] at h
    simp only [Option.bind_eq_bind, Option.bind_eq_some_iff] at h
    obtain ⟨⟨source, behind⟩, hsource, ⟨target, behind'⟩, htarget, others, hothers, h⟩ := h
    cases h
    rw [List.forall_mem_cons]
    refine ⟨?_, ih hrest hothers⟩
    have hsourceRange := Number.inRange_of_readInt? hsource
    have htargetRange := Number.inRange_of_readInt? htarget
    have hsourceNonneg := Number.nonneg_of_readInt? hi hsource
    have htargetNonneg := Number.nonneg_of_readInt? hj htarget
    simp only [Number.InRange] at hsourceRange htargetRange
    simp only [RawLink.InRange, positionCount]
    omega
  | case2 items hitems =>
    rw [pairUp] at h
    · cases h
      simp
    · exact hitems

/-- Links that were read from a line have positions that can be stored. -/
theorem inRange_of_ofTrimmed {cs : List Char} {links : List RawLink}
    (h : ofTrimmed cs = .ok links) : ∀ link ∈ links, link.InRange positionCount positionCount := by
  unfold ofTrimmed at h
  dsimp only at h
  split at h
  · cases h
    simp
  · split at h
    · cases h
    · cases hpairs : pairUp (Text.splitRuns isSeparator cs) with
      | none =>
        rw [hpairs] at h
        cases h
      | some found =>
        rw [hpairs] at h
        cases h
        apply inRange_of_pairUp _ hpairs
        intro item hitem hdash
        exact nomatch Text.sep_eq_false_of_mem_splitRuns hitem '-' hdash

/-- No position that was read is negative or too great. -/
theorem inRange_of_ofText {source : String} {alignment : Alignment}
    (h : ofText source = .ok alignment) : alignment.InRange := by
  intro links hlinks
  obtain ⟨line, -, hline⟩ := forall₂_mem_right (ofLines_eq_ok_iff.1 h) hlinks
  exact inRange_of_ofTrimmed hline

/-- **An alignment is read back from its text.** Every list of lists of links whose positions are
32-bit numbers that are not negative is read from its text as it is, empty lists included. No other
alignment is read from any text. The lines are written as the links of a phrase pair are printed. -/
theorem ofText_text (alignment : Alignment) :
    (ofText alignment.text = .ok alignment ↔ alignment.InRange) ∧
    ((∃ source : String, ofText source = .ok alignment) ↔ alignment.InRange) ∧
    ∀ pair : AlignedPair, lineOf (pair.links.map Link.raw) = pair.linkText := by
  refine ⟨⟨inRange_of_ofText, ofText_text_of_inRange⟩, ?_, ?_⟩
  · constructor
    · rintro ⟨source, hsource⟩
      exact inRange_of_ofText hsource
    · intro h
      exact ⟨alignment.text, ofText_text_of_inRange h⟩
  · intro pair
    simp [lineOf, AlignedPair.linkText, Function.comp_def]

/-- An empty list stands between others, and at the end. -/
example : text [[⟨0, 1⟩, ⟨0, 0⟩], [], [⟨12, 7⟩], []] = "0-1 0-0\n\n12-7\n\n" := by
  decide

end PhraseTable.Alignment
