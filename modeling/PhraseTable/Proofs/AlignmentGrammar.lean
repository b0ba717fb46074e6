import PhraseTable.Proofs.PhraseAlignment

/-!
# The grammar of phrase alignments

A text is read as an alignment just if it is written as `AlignmentText` tells, and the links that
come out are those the text stands for (`parse_grammar`). Two things in the grammar are easily
missed. A word may still hold white space, namely line breaks, since those do not separate words,
and a position may begin with it. And an empty list is a list without parts, while in any other list
the parts between the commas are all positions, so `(,)` stands for nothing.
-/

set_option autoImplicit false

namespace PhraseTable.PhraseAlignment

/-! ## Positions inside words -/

/-- White space that does not separate words. -/
def isBreak (c : Char) : Bool :=
  c == '\n' || c == '\x0b' || c == '\x0c' || c == '\r'

/-- A blank is a gap or a line break. -/
theorem isBlank_eq_true_iff {c : Char} :
    Text.isBlank c = true ↔ Text.isGap c = true ∨ isBreak c = true := by
  simp only [Text.isBlank, Text.isGap, isBreak, Bool.or_eq_true, or_assoc]

/-- How a position is written inside a word: breaks, an optional sign and decimal digits, with a
value from zero to the end of the 32-bit range. -/
inductive WordPosition : List Char → Nat → Prop where
  | intro {breaks sign digits : List Char} {n : Nat} (hbreaks : ∀ c ∈ breaks, isBreak c = true)
      (hsign : sign ∈ [[], ['+'], ['-']]) (hne : digits ≠ [])
      (hdigits : ∀ c ∈ digits, c.isDigit = true)
      (hvalue : Number.signed sign (Number.natOfDigits digits) = n) (hle : n ≤ 2147483647) :
      WordPosition (breaks ++ (sign ++ digits)) n

/-- Words have no gaps, so the white space before a position consists of breaks. -/
theorem wordPosition_iff {cs : List Char} {n : Nat} :
    WordPosition cs n ↔ PositionText cs n ∧ ∀ c ∈ cs, Text.isGap c = false := by
  constructor
  · rintro ⟨hbreaks, hsign, hne, hdigits, hvalue, hle⟩
    rename_i breaks sign digits
    refine ⟨⟨?_, Int.natCast_nonneg n, by omega⟩, ?_⟩
    · have hblanks : ∀ c ∈ breaks, Text.isBlank c = true :=
        fun c hc => isBlank_eq_true_iff.2 (Or.inr (hbreaks c hc))
      exact Number.integerText_iff.2
        ⟨breaks, sign, digits, rfl, hblanks, hsign, hne, hdigits, hvalue.symm⟩
    · intro c hc
      rw [List.mem_append, List.mem_append] at hc
      obtain hc | hc | hc := hc
      · have hbreak := hbreaks c hc
        simp only [isBreak, Bool.or_eq_true, beq_iff_eq] at hbreak
        rcases hbreak with ((rfl | rfl) | rfl) | rfl <;> rfl
      · simp only [List.mem_cons, List.not_mem_nil, or_false] at hsign
        rcases hsign with rfl | rfl | rfl
        · cases hc
        · rw [List.mem_singleton.1 hc]
          rfl
        · rw [List.mem_singleton.1 hc]
          rfl
      · exact Text.isGap_eq_false (Number.isBlank_of_isDigit (hdigits c hc))
  · rintro ⟨htext, hgap⟩
    obtain ⟨blanks, sign, digits, rfl, hblanks, hsign, hne, hdigits, hvalue⟩ :=
      Number.integerText_iff.1 htext.integer
    refine .intro ?_ hsign hne hdigits hvalue.symm (Int.ofNat_le.1 htext.le)
    intro c hc
    refine (isBlank_eq_true_iff.1 (hblanks c hc)).resolve_left ?_
    rw [hgap c (List.mem_append_left _ hc)]
    exact Bool.false_ne_true

/-- A position in a word is read just if it is written as one. -/
theorem position_eq_ok_iff_exists {cs : List Char} (hgap : ∀ c ∈ cs, Text.isGap c = false)
    {n : Int} : position cs = .ok n ↔ ∃ m : Nat, WordPosition cs m ∧ (m : Int) = n := by
  rw [position_eq_ok_iff]
  constructor
  · intro h
    obtain ⟨m, rfl⟩ := Int.eq_ofNat_of_zero_le h.nonneg
    exact ⟨m, wordPosition_iff.2 ⟨h, hgap⟩, rfl⟩
  · rintro ⟨m, hm, rfl⟩
    exact (wordPosition_iff.1 hm).1

/-- A position is not empty. -/
theorem WordPosition.ne_nil {cs : List Char} {n : Nat} (h : WordPosition cs n) : cs ≠ [] := by
  obtain ⟨-, -, hne, -⟩ := h
  simp [hne]

/-- There is no comma in a position. -/
theorem WordPosition.comma_not_mem {cs : List Char} {n : Nat} (h : WordPosition cs n) :
    ',' ∉ cs := by
  obtain ⟨hbreaks, hsign, -, hdigits, -⟩ := h
  rename_i breaks sign digits
  rw [List.mem_append, List.mem_append]
  rintro (hmem | hmem | hmem)
  · exact nomatch hbreaks _ hmem
  · simp only [List.mem_cons, List.not_mem_nil, or_false] at hsign
    rcases hsign with rfl | rfl | rfl <;> simp at hmem
  · exact nomatch hdigits _ hmem

/-! ## Words that are links -/

/-- How a link is written as a word: the first dash stands between its positions. -/
inductive LinkWord : List Char → Link → Prop where
  | intro {before behind : List Char} {i j : Nat} (hdash : '-' ∉ before)
      (hsource : WordPosition before i) (htarget : WordPosition behind j) :
      LinkWord (before ++ '-' :: behind) ⟨i, j⟩

/-- An item is read as a link just when it is the word of this link. -/
theorem linkOf_eq_ok_iff_exists {item : List Char} (hgap : ∀ c ∈ item, Text.isGap c = false)
    {raw : RawLink} :
    linkOf item = .ok raw ↔ ∃ link : Link, LinkWord item link ∧ link.raw = raw := by
  rw [linkOf_eq_ok_iff]
  constructor
  · rintro ⟨hdash, hsource, htarget⟩
    rename_i before behind i j
    obtain ⟨m, rfl⟩ := Int.eq_ofNat_of_zero_le hsource.nonneg
    obtain ⟨n, rfl⟩ := Int.eq_ofNat_of_zero_le htarget.nonneg
    have hbefore : WordPosition before m :=
      wordPosition_iff.2 ⟨hsource, fun c hc => hgap c (List.mem_append_left _ hc)⟩
    have hbehind : WordPosition behind n := wordPosition_iff.2
      ⟨htarget, fun c hc => hgap c (List.mem_append_right _ (List.mem_cons_of_mem _ hc))⟩
    exact ⟨⟨m, n⟩, .intro hdash hbefore hbehind, rfl⟩
  · rintro ⟨link, ⟨hdash, hsource, htarget⟩, rfl⟩
    exact .intro hdash (wordPosition_iff.1 hsource).1 (wordPosition_iff.1 htarget).1

/-! ## Words that are lists -/

/-- How a list of positions is written as a word: parentheses, with commas between the positions. -/
inductive ListWord : List Char → List Nat → Prop where
  | intro {parts : List (List Char)} {targets : List Nat}
      (hparts : List.Forall₂ WordPosition parts targets) :
      ListWord ('(' :: ([','].intercalate parts ++ [')'])) targets

/-- What stands between the brackets of an item is found just when both brackets are there. -/
theorem inside?_eq_some_iff {item text : List Char} :
    inside? item = some text ↔ item = '(' :: (text ++ [')']) := by
  constructor
  · intro h
    unfold inside? at h
    split at h
    · rename_i rest
      rw [Option.ite_none_right_eq_some, Option.some.injEq] at h
      obtain ⟨hlast, rfl⟩ := h
      rw [List.dropLast_append_getLast? _ hlast]
    · cases h
  · rintro rfl
    simp [inside?]

/-- The parts between the commas of a text. There is none in the empty text. -/
def commaParts (text : List Char) : List (List Char) :=
  if text = [] then [] else text.splitOn ','

/-- The parts between commas, joined by commas, make the text again. -/
theorem intercalate_commaParts (text : List Char) : [','].intercalate (commaParts text) = text := by
  unfold commaParts
  split
  · rename_i hempty
    rw [hempty]
    rfl
  · exact List.intercalate_splitOn ','

/-- Parts that were joined by commas are found again, if none is empty and none has a comma in
it. -/
theorem commaParts_intercalate {parts : List (List Char)} (hne : ∀ part ∈ parts, part ≠ [])
    (hcomma : ∀ part ∈ parts, ',' ∉ part) : commaParts ([','].intercalate parts) = parts := by
  unfold commaParts
  cases parts with
  | nil => rfl
  | cons part rest =>
    have htext : [','].intercalate (part :: rest) ≠ [] := by
      cases rest with
      | nil => simpa using hne
      | cons next rest =>
        rw [List.intercalate_cons_cons]
        simp
    rw [if_neg htext]
    exact List.splitOn_intercalate ',' hcomma (List.cons_ne_nil _ _)

/-- There are no gaps in a part of a text without gaps. -/
theorem part_gap {text part : List Char} (hpart : part ∈ commaParts text)
    (hgap : ∀ c ∈ text, Text.isGap c = false) : ∀ c ∈ part, Text.isGap c = false := by
  unfold commaParts at hpart
  split at hpart
  · cases hpart
  · exact fun c hc => hgap c ((Text.infix_of_mem_splitOnP hpart).subset hc)

/-- The parts of a list are determined by its text, since no position is empty or holds a comma. -/
theorem listWord_iff {text : List Char} {targets : List Nat} :
    ListWord ('(' :: (text ++ [')'])) targets ↔
      List.Forall₂ WordPosition (commaParts text) targets := by
  constructor
  · intro h
    generalize hitem : '(' :: (text ++ [')']) = item at h
    obtain ⟨hparts⟩ := h
    rename_i parts
    rw [List.cons_inj_right, List.append_left_inj] at hitem
    subst hitem
    have hpart : ∀ part ∈ parts, part ≠ [] ∧ ',' ∉ part := by
      intro part hmem
      obtain ⟨target, -, htarget⟩ := forall₂_mem_left hparts hmem
      exact ⟨htarget.ne_nil, htarget.comma_not_mem⟩
    rwa [commaParts_intercalate (fun part hmem => (hpart part hmem).1)
      fun part hmem => (hpart part hmem).2]
  · intro h
    rw [← intercalate_commaParts text]
    exact .intro h

/-- The links of an item with brackets are read from the parts between its commas. -/
theorem listLinks_of_inside {source : Nat} {item text : List Char} (h : inside? item = some text) :
    listLinks source item = (commaParts text).mapM fun token => do
      let target ← position token
      return ⟨source, target⟩ := by
  unfold listLinks commaParts
  rw [h]
  cases text with
  | nil => rfl
  | cons c text => rfl

/-- A part is read as a link just when it is the position of the link's target. -/
theorem partLink_eq_ok_iff {source : Nat} {part : List Char}
    (hgap : ∀ c ∈ part, Text.isGap c = false) {raw : RawLink} :
    (do
      let target ← position part
      return ⟨source, target⟩) = Except.ok raw ↔
      ∃ target : Nat, WordPosition part target ∧ (Link.mk source target).raw = raw := by
  constructor
  · intro h
    obtain ⟨n, hn, h⟩ := exists_of_bind_eq_ok h
    obtain ⟨target, htarget, rfl⟩ := (position_eq_ok_iff_exists hgap).1 hn
    exact ⟨target, htarget, Except.ok.inj h⟩
  · rintro ⟨target, htarget, rfl⟩
    rw [(position_eq_ok_iff_exists hgap).2 ⟨target, htarget, rfl⟩]
    rfl

/-- An item is read as links just when it is the word of the list of their targets. -/
theorem listLinks_eq_ok_iff {source : Nat} {item : List Char}
    (hgap : ∀ c ∈ item, Text.isGap c = false) {raws : List RawLink} :
    listLinks source item = .ok raws ↔
      ∃ targets : List Nat, ListWord item targets ∧
        (targets.map (Link.mk source)).map Link.raw = raws := by
  cases hinside : inside? item with
  | none =>
    constructor
    · intro h
      unfold listLinks at h
      rw [hinside] at h
      cases h
    · rintro ⟨targets, ⟨-⟩, -⟩
      rw [inside?_eq_some_iff.2 rfl] at hinside
      cases hinside
  | some text =>
    obtain rfl := inside?_eq_some_iff.1 hinside
    have htext : ∀ c ∈ text, Text.isGap c = false :=
      fun c hc => hgap c (List.mem_cons_of_mem _ (List.mem_append_left _ hc))
    rw [listLinks_of_inside hinside,
      mapM_eq_ok_iff_exists fun part hpart raw => partLink_eq_ok_iff (part_gap hpart htext)]
    simp only [listWord_iff, List.map_map, Function.comp_def]

/-! ## Whole texts -/

/-- The links of the lists of target positions of all source positions, from the given one on. -/
def linksFrom (source : Nat) (lists : List (List Nat)) : List Link :=
  (lists.zipIdx source).flatMap fun (targets, i) => targets.map (Link.mk i)

/-- The links of the first list stand in front, and the other lists count on from there. -/
theorem linksFrom_cons (source : Nat) (targets : List Nat) (lists : List (List Nat)) :
    linksFrom source (targets :: lists) =
      targets.map (Link.mk source) ++ linksFrom (source + 1) lists := by
  rw [linksFrom, List.zipIdx_cons, List.flatMap_cons]
  rfl

/-- Items are read as links just when each is the word of a list of targets. -/
theorem listsLinks_eq_ok_iff {source : Nat} {items : List (List Char)}
    (hgap : ∀ item ∈ items, ∀ c ∈ item, Text.isGap c = false) {raws : List RawLink} :
    listsLinks source items = .ok raws ↔
      ∃ lists : List (List Nat), List.Forall₂ ListWord items lists ∧
        (linksFrom source lists).map Link.raw = raws := by
  induction items generalizing source raws with
  | nil =>
    constructor
    · intro h
      cases h
      exact ⟨[], .nil, rfl⟩
    · rintro ⟨lists, hlists, rfl⟩
      cases hlists
      rfl
  | cons item rest ih =>
    obtain ⟨hitem, hrest⟩ := List.forall_mem_cons.1 hgap
    constructor
    · intro h
      obtain ⟨links, hlinks, h⟩ := exists_of_bind_eq_ok h
      obtain ⟨others, hothers, h⟩ := exists_of_bind_eq_ok h
      cases h
      obtain ⟨targets, htargets, rfl⟩ := (listLinks_eq_ok_iff hitem).1 hlinks
      obtain ⟨lists, hlists, rfl⟩ := (ih hrest).1 hothers
      refine ⟨targets :: lists, .cons htargets hlists, ?_⟩
      rw [linksFrom_cons, List.map_append]
    · rintro ⟨lists, hlists, rfl⟩
      obtain ⟨targets, others, htargets, hothers, rfl⟩ := List.forall₂_cons_left_iff.1 hlists
      rw [linksFrom_cons, List.map_append]
      unfold listsLinks
      rw [(listLinks_eq_ok_iff hitem).2 ⟨targets, htargets, rfl⟩,
        (ih hrest).2 ⟨others, hothers, rfl⟩]
      rfl

/-- How an alignment is written for a source phrase of the given size, and the links that the text
stands for. -/
inductive AlignmentText (cs : List Char) (sourceSize : Int) : List Link → Prop where
  /-- Every word is a link. -/
  | links {links : List Link} (hparen : '(' ∉ cs)
      (hlinks : List.Forall₂ LinkWord (Text.tokenChars cs) links) :
      AlignmentText cs sourceSize links
  /-- There is one list for each source position. -/
  | lists {lists : List (List Nat)} (hparen : '(' ∈ cs) (hcount : (lists.length : Int) = sourceSize)
      (hlists : List.Forall₂ ListWord (Text.tokenChars cs) lists) :
      AlignmentText cs sourceSize (linksFrom 0 lists)

/-- A text is read as links just when the grammar has it with these links. -/
theorem linksOf_eq_ok_iff {cs : List Char} {sourceSize : Int} {raws : List RawLink} :
    linksOf cs sourceSize = .ok raws ↔
      ∃ links : List Link, AlignmentText cs sourceSize links ∧ links.map Link.raw = raws := by
  have hgap := (Text.isWords_tokenChars cs).no_gap
  unfold linksOf
  dsimp only
  by_cases hparen : '(' ∈ cs
  · rw [if_pos (List.contains_iff_mem.2 hparen)]
    constructor
    · intro h
      split at h
      · rename_i hcount
        obtain ⟨lists, hlists, rfl⟩ := (listsLinks_eq_ok_iff hgap).1 h
        exact ⟨linksFrom 0 lists, .lists hparen (hlists.length_eq ▸ hcount) hlists, rfl⟩
      · cases h
    · rintro ⟨links, hlinks, rfl⟩
      cases hlinks with
      | links hmem => exact absurd hparen hmem
      | lists _ hcount hlists =>
        rw [if_pos (hlists.length_eq ▸ hcount)]
        exact (listsLinks_eq_ok_iff hgap).2 ⟨_, hlists, rfl⟩
  · rw [if_neg (by simpa using hparen),
      mapM_eq_ok_iff_exists fun item hitem raw => linkOf_eq_ok_iff_exists (hgap item hitem)]
    apply exists_congr
    intro links
    apply and_congr_left'
    constructor
    · exact .links hparen
    · intro h
      cases h with
      | links _ hlinks => exact hlinks
      | lists hmem => exact absurd hmem hparen

/-- A text is read as an alignment just if it is written as one. The links are those that it stands
for, and any other text is reported as it is. -/
theorem parse_grammar (text : String) (sourceSize : Int) :
    (∀ raws : List RawLink, parse text sourceSize = .ok raws ↔
      ∃ links : List Link, AlignmentText text.toList sourceSize links ∧
        links.map Link.raw = raws) ∧
    ((¬∃ links : List Link, AlignmentText text.toList sourceSize links) ↔
      ∃ fault : PhraseAlignmentFault, parse text sourceSize = .error ⟨fault, text⟩) := by
  have hok : ∀ raws : List RawLink, parse text sourceSize = .ok raws ↔
      ∃ links : List Link, AlignmentText text.toList sourceSize links ∧
        links.map Link.raw = raws := by
    intro raws
    rw [parse, mapError_eq_ok_iff, linksOf_eq_ok_iff]
  refine ⟨hok, ?_⟩
  constructor
  · intro h
    cases hlinks : linksOf text.toList sourceSize with
    | error fault => exact ⟨fault, by rw [parse, hlinks]; rfl⟩
    | ok raws =>
      obtain ⟨links, htext, -⟩ := linksOf_eq_ok_iff.1 hlinks
      exact absurd ⟨links, htext⟩ h
  · rintro ⟨fault, hfault⟩ ⟨links, htext⟩
    rw [(hok _).2 ⟨links, htext, rfl⟩] at hfault
    cases hfault

example : parse "(,)" 1 = .error ⟨.badPosition "", "(,)"⟩ := rfl

end PhraseTable.PhraseAlignment
