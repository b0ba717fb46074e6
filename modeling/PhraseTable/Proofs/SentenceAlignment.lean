import PhraseTable.Alignment.Sentences
import PhraseTable.Proofs.Corpus
import PhraseTable.Proofs.PhraseAlignment
import PhraseTable.Proofs.Text.Lines
import PhraseTable.Proofs.Text.Runs

/-!
# The two readers of links

The links of a phrase pair are read word by word, each with its dash. The links of a sentence pair
are read from a line that is cut at white space and dashes alike. If every word is a link, the
pieces of the line are those of its words (`splitRuns_isSeparator`), so both readers see the same
positions, but for a target position with a sign of its own that does not stand right behind the
dash of its link. If some word is no link, the numbers of several words may be taken together
(`ofText_line`).
-/

set_option autoImplicit false

namespace PhraseTable.Alignment

open Number (IntegerText readInt?)
open PhraseAlignment (LinkText)

/-! ## The pieces of a word -/

/-- What is left of a text if it is cut at runs of dashes. -/
def dashPieces (cs : List Char) : List (List Char) :=
  (cs.splitOnP fun c => c == '-').filter fun piece => !piece.isEmpty

/-- If the text has a dash, then in front. -/
def DashInFront (cs : List Char) : Prop :=
  '-' ∈ cs → cs.head? = some '-'

/-- The target position of the link has no sign, or one right behind the dash of the link. -/
def Tight (word : List Char) : Prop :=
  DashInFront ((word.dropWhile (· != '-')).drop 1)

instance (cs : List Char) : Decidable (DashInFront cs) :=
  inferInstanceAs (Decidable (_ → _))

instance (word : List Char) : Decidable (Tight word) :=
  inferInstanceAs (Decidable (DashInFront _))

/-- Without a dash in it, no character of a text is one. -/
theorem forall_ne_dash {cs : List Char} (h : '-' ∉ cs) : ∀ c ∈ cs, (c == '-') = false := by
  intro c hc
  rw [beq_eq_false_iff_ne]
  rintro rfl
  exact h hc

/-- A text without a dash is one piece. -/
theorem dashPieces_of_not_mem {cs : List Char} (h : '-' ∉ cs) (hne : cs ≠ []) :
    dashPieces cs = [cs] := by
  unfold dashPieces
  rw [List.splitOnP_eq_singleton (forall_ne_dash h)]
  simp [hne]

/-- A text is cut at its first dash. -/
theorem dashPieces_append {before : List Char} (h : '-' ∉ before) (behind : List Char) :
    dashPieces (before ++ '-' :: behind) =
      [before].filter (fun piece => !piece.isEmpty) ++ dashPieces behind := by
  unfold dashPieces
  rw [List.splitOnP_append_cons_of_forall_mem (forall_ne_dash h) '-' rfl, ← List.filter_append]
  rfl

/-- There is no dash among digits. -/
theorem not_dash_of_isDigit {digits : List Char} (h : ∀ c ∈ digits, c.isDigit = true) :
    '-' ∉ digits :=
  fun hmem => nomatch h '-' hmem

/-- There is no dash in white space. -/
theorem not_dash_of_isBlank {cs : List Char} (h : ∀ c ∈ cs, Text.isBlank c = true) : '-' ∉ cs :=
  fun hmem => nomatch h '-' hmem

/-- The only dash of an integer is the sign, behind white space and before the digits. -/
theorem exists_of_dash_mem {cs : List Char} {n : Int} (h : IntegerText cs n) (hdash : '-' ∈ cs) :
    ∃ blanks digits : List Char, cs = blanks ++ '-' :: digits ∧
      (∀ c ∈ blanks, Text.isBlank c = true) ∧ digits ≠ [] ∧ (∀ c ∈ digits, c.isDigit = true) ∧
        n = -(Number.natOfDigits digits : Int) := by
  obtain ⟨blanks, sign, digits, rfl, hblanks, hsign, hne, hdigits, rfl⟩ :=
    Number.integerText_iff.1 h
  have hmem : '-' ∈ sign := by
    rw [List.mem_append, List.mem_append] at hdash
    exact (hdash.resolve_left fun hmem => nomatch hblanks _ hmem).resolve_right
      (not_dash_of_isDigit hdigits)
  simp only [List.mem_cons, List.not_mem_nil, or_false] at hsign
  obtain rfl | rfl | rfl := hsign
  · cases hmem
  · simp at hmem
  · exact ⟨blanks, digits, rfl, hblanks, hne, hdigits, rfl⟩

/-- The text of an integer is not empty. -/
theorem ne_nil_of_integerText {cs : List Char} {n : Int} (h : IntegerText cs n) : cs ≠ [] := by
  cases h with
  | digits hne _ => exact hne
  | plus => exact List.cons_ne_nil _ _
  | minus => exact List.cons_ne_nil _ _
  | blank => exact List.cons_ne_nil _ _

/-- An integer ends with a digit. -/
theorem isDigit_getLast?_of_integerText {cs : List Char} {n : Int} (h : IntegerText cs n) :
    ∀ c ∈ cs.getLast?, c.isDigit = true := by
  induction h with
  | digits _ hdigits => exact fun c hc => hdigits c (List.mem_of_getLast? hc)
  | plus hne hdigits =>
    rw [List.getLast?_cons_of_ne_nil hne]
    exact fun c hc => hdigits c (List.mem_of_getLast? hc)
  | minus hne hdigits =>
    rw [List.getLast?_cons_of_ne_nil hne]
    exact fun c hc => hdigits c (List.mem_of_getLast? hc)
  | blank _ hcs ih => rwa [List.getLast?_cons_of_ne_nil (ne_nil_of_integerText hcs)]

/-- The dashes do not matter to an integer that is not negative, as it is zero if it has a sign. -/
theorem dashPieces_of_dashInFront {cs : List Char} {n : Int} (h : IntegerText cs n) (hn : 0 ≤ n)
    (hfront : DashInFront cs) :
    ∃ number : List Char, dashPieces cs = [number] ∧ IntegerText number n := by
  by_cases hdash : '-' ∈ cs
  · obtain ⟨blanks, digits, rfl, hblanks, hne, hdigits, rfl⟩ := exists_of_dash_mem h hdash
    have hnil : blanks = [] := by
      cases blanks with
      | nil => rfl
      | cons c blanks =>
        obtain rfl : c = '-' := by simpa using hfront hdash
        exact nomatch hblanks '-' List.mem_cons_self
    subst hnil
    refine ⟨digits, ?_, ?_⟩
    · rw [dashPieces_append (by simp), dashPieces_of_not_mem (not_dash_of_isDigit hdigits) hne]
      rfl
    · have hzero : -(Number.natOfDigits digits : Int) = Number.natOfDigits digits := by omega
      rw [hzero]
      exact .digits hne hdigits
  · exact ⟨cs, dashPieces_of_not_mem hdash (ne_nil_of_integerText h), h⟩

/-- White space before a sign is cut off as a piece of its own. -/
theorem exists_blank_piece {cs : List Char} {n : Int} (h : IntegerText cs n)
    (hfront : ¬ DashInFront cs) : ∃ piece ∈ dashPieces cs, readInt? piece = none := by
  obtain ⟨hdash, hhead⟩ := Classical.not_imp.1 hfront
  obtain ⟨blanks, digits, rfl, hblanks, -, -, -⟩ := exists_of_dash_mem h hdash
  refine ⟨blanks, ?_, Number.readInt?_of_forall_isBlank hblanks⟩
  have hne : blanks ≠ [] := by
    rintro rfl
    exact hhead rfl
  rw [dashPieces_append (not_dash_of_isBlank hblanks)]
  simp [hne]

/-- The pieces of a text are the positions of the link. -/
def PiecesOf (word : List Char) (link : RawLink) : Prop :=
  ∃ source target : List Char, dashPieces word = [source, target] ∧
    readInt? source = some (link.source, []) ∧ readInt? target = some (link.target, [])

/-- A position is read as an integer, to its end. -/
theorem readInt?_of_positionText {cs : List Char} {n : Int}
    (h : PhraseAlignment.PositionText cs n) : readInt? cs = some (n, []) := by
  have := h.nonneg
  exact Number.readInt?_of_integerText h.integer ⟨by omega, h.le⟩

/-- What stands behind the first dash is found. -/
theorem behindDash_append {before : List Char} (h : '-' ∉ before) (behind : List Char) :
    ((before ++ '-' :: behind).dropWhile (· != '-')).drop 1 = behind := by
  rw [(PhraseAlignment.takeWhile_of_not_mem h behind).2]
  rfl

/-- The first piece of a link is what stands in front of its first dash. -/
theorem dashPieces_link {before : List Char} (hdash : '-' ∉ before) (hne : before ≠ [])
    (behind : List Char) : dashPieces (before ++ '-' :: behind) = before :: dashPieces behind := by
  rw [dashPieces_append hdash]
  simp [hne]

/-- The pieces of a tight link are its positions. -/
theorem piecesOf_of_linkText {word : List Char} {link : RawLink} (h : LinkText word link)
    (htight : Tight word) : PiecesOf word link := by
  obtain ⟨hdash, hsource, htarget⟩ := h
  rename_i before behind i j
  unfold Tight at htight
  rw [behindDash_append hdash] at htight
  obtain ⟨number, hpieces, hnumber⟩ :=
    dashPieces_of_dashInFront htarget.integer htarget.nonneg htight
  refine ⟨before, number, ?_, readInt?_of_positionText hsource,
    readInt?_of_positionText ⟨hnumber, htarget.nonneg, htarget.le⟩⟩
  rw [dashPieces_link hdash (ne_nil_of_integerText hsource.integer), hpieces]

/-- A link that is not tight has a piece that is no integer. -/
theorem exists_unreadable {word : List Char} {link : RawLink} (h : LinkText word link)
    (htight : ¬ Tight word) : ∃ piece ∈ dashPieces word, readInt? piece = none := by
  obtain ⟨hdash, hsource, htarget⟩ := h
  unfold Tight at htight
  rw [behindDash_append hdash] at htight
  obtain ⟨piece, hpiece, hnone⟩ := exists_blank_piece htarget.integer htight
  rw [dashPieces_link hdash (ne_nil_of_integerText hsource.integer)]
  exact ⟨piece, List.mem_cons_of_mem _ hpiece, hnone⟩

/-! ## The pieces of a line -/

/-- A digit does not separate positions. -/
theorem isSeparator_of_isDigit {c : Char} (h : c.isDigit = true) : isSeparator c = false := by
  have hgap : Text.isGap c = false := Text.isGap_eq_false (Number.isBlank_of_isDigit h)
  unfold isSeparator
  rw [hgap, Bool.false_or, beq_eq_false_iff_ne]
  rintro rfl
  cases h

/-- Links neither begin with a dash nor end with one, so the cut at all separators at once is the
cut into words, and that of every word at its dashes. -/
theorem splitRuns_isSeparator {cs : List Char} (hne : Text.trimChars cs ≠ [])
    {links : List RawLink} (h : List.Forall₂ LinkText (Text.tokenChars cs) links) :
    Text.splitRuns isSeparator (Text.trimChars cs) = (Text.tokenChars cs).flatMap dashPieces := by
  have hhead : ∀ c ∈ (Text.trimChars cs).head?, isSeparator c = false := by
    intro c hc
    have hgap := Text.isGap_eq_false ((Text.trimmed_trimChars cs).head c hc)
    rw [← Text.head?_tokenChars] at hc
    obtain ⟨word, hword, hc⟩ := Option.bind_eq_some_iff.1 hc
    obtain ⟨link, -, hlink⟩ := forall₂_mem_left h (List.mem_of_head? hword)
    obtain ⟨hdash, hsource, -⟩ := hlink
    obtain ⟨d, before, rfl⟩ :=
      List.exists_cons_of_ne_nil (ne_nil_of_integerText hsource.integer)
    obtain rfl : d = c := by simpa using hc
    unfold isSeparator
    rw [hgap, Bool.false_or, forall_ne_dash hdash d List.mem_cons_self]
  have hlast : ∀ c ∈ (Text.trimChars cs).getLast?, isSeparator c = false := by
    intro c hc
    rw [← Text.getLast?_tokenChars] at hc
    obtain ⟨word, hword, hc⟩ := Option.bind_eq_some_iff.1 hc
    obtain ⟨link, -, hlink⟩ := forall₂_mem_left h (List.mem_of_getLast? hword)
    obtain ⟨-, -, htarget⟩ := hlink
    rename_i before behind i j _
    obtain ⟨d, behind, rfl⟩ :=
      List.exists_cons_of_ne_nil (ne_nil_of_integerText htarget.integer)
    apply isSeparator_of_isDigit
    apply isDigit_getLast?_of_integerText htarget.integer
    rw [List.getLast?_append, List.getLast?_cons_cons] at hc
    rw [List.getLast?_cons] at hc ⊢
    simpa using hc
  have hsplit := Text.splitOnP_or Text.isGap (fun c => c == '-') (Text.trimChars cs)
  rw [Text.splitRuns_eq_filter hne hhead hlast]
  unfold isSeparator
  rw [hsplit, List.filter_flatMap, Text.tokenChars_eq_filter]
  -- an empty piece of the first cut has no pieces in the second
  generalize (Text.trimChars cs).splitOnP Text.isGap = pieces
  induction pieces with
  | nil => rfl
  | cons piece pieces ih =>
    rw [List.flatMap_cons, ih]
    cases piece <;> rfl

/-! ## Pieces two by two -/

/-- If no piece is left over, every piece has to begin with a number. -/
theorem exists_pairUp_iff {items : List (List Char)} (heven : items.length % 2 ≠ 1) :
    (∃ links : List RawLink, pairUp items = some links) ↔ ∀ item ∈ items, readInt? item ≠ none := by
  induction items using pairUp.induct with
  | case1 i j rest ih =>
    rw [List.length_cons, List.length_cons] at heven
    specialize ih (by omega)
    rw [List.forall_mem_cons, List.forall_mem_cons, ← ih, pairUp]
    cases readInt? i <;> cases readInt? j <;> cases pairUp rest <;> simp
  | case2 items hitems =>
    match items with
    | [] => simp [pairUp]
    | [_] => exact absurd rfl heven
    | i :: j :: rest => exact absurd rfl (hitems i j rest)

/-- Pieces of links are put together to these links, two by two. -/
theorem pairUp_flatMap {words : List (List Char)} {links : List RawLink}
    (h : List.Forall₂ PiecesOf words links) :
    pairUp (words.flatMap dashPieces) = some links ∧
      (words.flatMap dashPieces).length = 2 * words.length := by
  induction h with
  | nil => exact ⟨rfl, rfl⟩
  | @cons word link words links hword _ ih =>
    obtain ⟨source, target, hpieces, hsource, htarget⟩ := hword
    obtain ⟨hlinks, hlength⟩ := ih
    rw [List.flatMap_cons, hpieces]
    constructor
    · show pairUp (source :: target :: words.flatMap dashPieces) = _
      rw [pairUp, hsource, htarget, hlinks]
      rfl
    · rw [List.length_append, hlength]
      simp only [List.length_cons, List.length_nil]
      omega

/-! ## Lines -/

/-- A text of white space alone is one without words. -/
theorem trimChars_eq_nil_iff {cs : List Char} :
    Text.trimChars cs = [] ↔ Text.tokenChars cs = [] := by
  have hhead := Text.head?_tokenChars cs
  constructor
  · intro h
    rw [← Text.tokenChars_trimChars, h]
    rfl
  · intro h
    rw [h] at hhead
    exact List.head?_eq_none_iff.1 hhead.symm

/-- A line is accepted if every piece begins with a number and none is left over. -/
theorem exists_ofTrimmed_iff {cs : List Char} (hne : cs ≠ []) :
    (∃ links : List RawLink, ofTrimmed cs = .ok links) ↔
      (Text.splitRuns isSeparator cs).length % 2 ≠ 1 ∧
        ∀ piece ∈ Text.splitRuns isSeparator cs, readInt? piece ≠ none := by
  unfold ofTrimmed
  dsimp only
  rw [if_neg (by simpa using hne)]
  split
  · rename_i hodd
    exact iff_of_false nofun fun h => h.1 hodd
  · rename_i heven
    rw [← exists_pairUp_iff heven]
    cases pairUp (Text.splitRuns isSeparator cs) <;> simp [heven]

/-- A line of tight links is read as these links. -/
theorem ofTrimmed_of_tight {cs : List Char} {links : List RawLink}
    (h : List.Forall₂ LinkText (Text.tokenChars cs) links)
    (htight : ∀ word ∈ Text.tokenChars cs, Tight word) :
    ofTrimmed (Text.trimChars cs) = .ok links := by
  have hpieces : List.Forall₂ PiecesOf (Text.tokenChars cs) links :=
    ((List.forall₂_and_left _ _).2 ⟨htight, h⟩).imp fun _ _ hword =>
      piecesOf_of_linkText hword.2 hword.1
  obtain ⟨hlinks, hlength⟩ := pairUp_flatMap hpieces
  unfold ofTrimmed
  dsimp only
  split
  · rename_i hempty
    rw [trimChars_eq_nil_iff.1 (List.isEmpty_iff.1 hempty)] at h
    cases h
    rfl
  · rename_i hempty
    have hne : Text.trimChars cs ≠ [] := fun hnil => hempty (List.isEmpty_iff.2 hnil)
    rw [splitRuns_isSeparator hne h, hlinks, hlength, if_neg (by omega)]
    rfl

/-- A line with a link that is not tight is not read. -/
theorem ofTrimmed_of_not_tight {cs : List Char} {links : List RawLink}
    (h : List.Forall₂ LinkText (Text.tokenChars cs) links)
    (htight : ¬ ∀ word ∈ Text.tokenChars cs, Tight word) (links' : List RawLink) :
    ofTrimmed (Text.trimChars cs) ≠ .ok links' := by
  simp only [not_forall] at htight
  obtain ⟨word, hword, htight⟩ := htight
  obtain ⟨link, -, hlink⟩ := forall₂_mem_left h hword
  obtain ⟨piece, hpiece, hnone⟩ := exists_unreadable hlink htight
  have hne : Text.trimChars cs ≠ [] := by
    intro hnil
    rw [trimChars_eq_nil_iff.1 hnil] at hword
    cases hword
  have hmem : piece ∈ Text.splitRuns isSeparator (Text.trimChars cs) := by
    rw [splitRuns_isSeparator hne h]
    exact List.mem_flatMap.2 ⟨word, hword, hpiece⟩
  intro hok
  exact ((exists_ofTrimmed_iff hne).1 ⟨links', hok⟩).2 piece hmem hnone

/-- A line of links is read as what it says, or refused for white space before a sign. -/
theorem ofTrimmed_eq_ok_iff {cs : List Char} {links links' : List RawLink}
    (h : List.Forall₂ LinkText (Text.tokenChars cs) links) :
    ofTrimmed (Text.trimChars cs) = .ok links' ↔
      links' = links ∧ ∀ word ∈ Text.tokenChars cs, Tight word := by
  by_cases htight : ∀ word ∈ Text.tokenChars cs, Tight word
  · rw [ofTrimmed_of_tight h htight, Except.ok.injEq, eq_comm]
    exact (and_iff_left htight).symm
  · exact iff_of_false (ofTrimmed_of_not_tight h htight links') fun hlinks => htight hlinks.2

/-- A text of one line is read as this line. -/
theorem ofText_eq {line : String} (h : '\n' ∉ line.toList) :
    ofText (line ++ "\n") =
      match ofTrimmed (Text.trimChars line.toList) with
      | .error fault => .error ⟨fault, 1, Text.trim line⟩
      | .ok links => .ok [links] := by
  have hlines : Text.lines (line ++ "\n") = [line] := by
    have hfeed : ∀ part ∈ [line], '\n' ∉ part.toList := by simpa using h
    simpa using Text.lines_join hfeed
  unfold ofText
  rw [hlines]
  unfold ofLines
  dsimp only
  cases ofTrimmed (Text.trimChars line.toList) <;> rfl

/-- A text of one line is read as links just when this line is. -/
theorem ofText_eq_ok_iff {line : String} (h : '\n' ∉ line.toList) {links : List RawLink} :
    ofText (line ++ "\n") = .ok [links] ↔ ofTrimmed (Text.trimChars line.toList) = .ok links := by
  rw [ofText_eq h]
  cases ofTrimmed (Text.trimChars line.toList) <;> simp

/-- A line is refused or read as the other reader does, if and only if it is refused or its words
are links. Both readers accept it if no white space stands before the sign of a target, too. -/
theorem ofText_line (line : String) (h : '\n' ∉ line.toList) :
    ((∀ links : List RawLink, ofText (line ++ "\n") = .ok [links] →
        ∀ size : Int, PhraseAlignment.parse line size = .ok links) ↔
      (∃ fault : AlignmentFault, ofText (line ++ "\n") = .error ⟨fault, 1, Text.trim line⟩) ∨
        ∃ links : List RawLink, List.Forall₂ LinkText (Text.tokenChars line.toList) links) ∧
    ∀ links : List RawLink,
      (ofText (line ++ "\n") = .ok [links] ∧
          ∀ size : Int, PhraseAlignment.parse line size = .ok links) ↔
        List.Forall₂ LinkText (Text.tokenChars line.toList) links ∧
          ∀ word ∈ Text.tokenChars line.toList, Tight word := by
  simp only [PhraseAlignment.parse_eq_ok_iff, ofText_eq_ok_iff h]
  constructor
  · constructor
    · intro hclaim
      rw [ofText_eq h]
      cases hline : ofTrimmed (Text.trimChars line.toList) with
      | error fault => exact Or.inl ⟨fault, rfl⟩
      | ok found => exact Or.inr ⟨found, hclaim found hline⟩
    · rintro (⟨fault, herror⟩ | ⟨links, hlinks⟩) links' hread
      · rw [← ofText_eq_ok_iff h, herror] at hread
        cases hread
      · obtain ⟨rfl, -⟩ := (ofTrimmed_eq_ok_iff hlinks).1 hread
        exact hlinks
  · intro links
    rw [and_comm]
    exact and_congr_right fun hlinks => (ofTrimmed_eq_ok_iff hlinks).trans (and_iff_right rfl)

/-- A line whose links have a sign in front of a zero and of a one, right behind the dash. Both
readers read the same links. -/
theorem ofText_line_signed_zero :
    '\n' ∉ "2--0 0-+1".toList ∧ ofText ("2--0 0-+1" ++ "\n") = .ok [[⟨2, 0⟩, ⟨0, 1⟩]] ∧
      ∀ size : Int, PhraseAlignment.parse "2--0 0-+1" size = .ok [⟨2, 0⟩, ⟨0, 1⟩] := by
  have hfeed : '\n' ∉ "2--0 0-+1".toList := by decide
  refine ⟨hfeed, ((ofText_line "2--0 0-+1" hfeed).2 _).2 ⟨?_, ?_⟩⟩
  · have hsource : LinkText "2--0".toList ⟨2, 0⟩ :=
      PhraseAlignment.linkOf_eq_ok_iff.1 (by decide +kernel)
    have htarget : LinkText "0-+1".toList ⟨0, 1⟩ :=
      PhraseAlignment.linkOf_eq_ok_iff.1 (by decide +kernel)
    exact .cons hsource (.cons htarget .nil)
  · decide +kernel

/-- Lines that are not made of links and yet read as links. -/
theorem ofText_misread :
    ofText "0 1-2 3\n" = .ok [[⟨0, 1⟩, ⟨2, 3⟩]] ∧
      (∀ size : Int,
        PhraseAlignment.parse "0 1-2 3" size = .error ⟨.badLink "0", "0 1-2 3"⟩) ∧
      ofText "0-1x 2-3\n" = .ok [[⟨0, 1⟩, ⟨2, 3⟩]] ∧
      ∀ size : Int,
        PhraseAlignment.parse "0-1x 2-3" size = .error ⟨.badPosition "1x", "0-1x 2-3"⟩ := by
  refine ⟨by decide +kernel, ?_, by decide +kernel, ?_⟩
  · intro size
    rfl
  · intro size
    rfl

end PhraseTable.Alignment
