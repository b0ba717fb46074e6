import PhraseTable.Proofs.PhraseIndex
import PhraseTable.Proofs.PhraseText

/-!
# The marks of gaps

What stands between the brackets of a gap is not kept: a gap has the number of its place among the
gaps of its phrase. So a phrase is printed with its own tokens just if its gaps are marked in order
(`renumbered_eq_self_iff`), and two phrases have the same symbols just if they have the same words
and gaps at the same places, whatever their marks are (`symbols_phraseOf_eq_iff`). A phrase index
sees the symbols only (`gaps_parse`).
-/

set_option autoImplicit false

namespace PhraseTable

/-! ## One phrase -/

/-- The words of a phrase at their places, and its gaps without their marks. -/
def unmarked (tokens : List String) : List (Option String) :=
  tokens.map fun token => if isGapToken token then none else some token

/-- The marks of a phrase are `[X,1]`, `[X,2]` and so on. -/
def GapsInOrder (tokens : List String) : Prop :=
  tokens.filter isGapToken =
    (List.range' 1 (tokens.countP isGapToken)).map fun k => Surface.gapText (gapSymbol (k : Nat))

instance (tokens : List String) : Decidable (GapsInOrder tokens) :=
  inferInstanceAs (Decidable (_ = _))

/-- Numbering the gaps changes nothing just when their marks count them already. -/
theorem renumbered_eq_self_iff (gaps : Nat) (tokens : List String) :
    renumbered gaps tokens = tokens ↔
      tokens.filter isGapToken = (List.range' (gaps + 1) (tokens.countP isGapToken)).map
        fun k => Surface.gapText (gapSymbol (k : Nat)) := by
  induction tokens generalizing gaps with
  | nil => exact iff_of_true rfl rfl
  | cons token rest ih =>
    unfold renumbered
    by_cases hgap : isGapToken token
    · rw [if_pos hgap, List.filter_cons_of_pos hgap, List.countP_cons_of_pos hgap,
        List.range'_succ, List.map_cons, List.cons.injEq, List.cons.injEq, ih, eq_comm]
      rfl
    · rw [if_neg hgap, List.filter_cons_of_neg hgap, List.countP_cons_of_neg hgap,
        List.cons.injEq, ih]
      exact and_iff_right rfl

/-- A gap in front has the next gap symbol, and the rest stands behind one gap more. -/
theorem symbols_phraseOf_of_gap {token : String} (h : isGapToken token) (symbolOf : String → Int)
    (gaps : Nat) (rest : List String) :
    (phraseOf symbolOf gaps (token :: rest)).symbols =
      gapSymbol ((gaps : Int) + 1) :: (phraseOf symbolOf (gaps + 1) rest).symbols := by
  rw [phraseOf, if_pos h]

/-- A word in front has its own symbol. -/
theorem symbols_phraseOf_of_word {token : String} (h : ¬isGapToken token)
    (symbolOf : String → Int) (gaps : Nat) (rest : List String) :
    (phraseOf symbolOf gaps (token :: rest)).symbols =
      symbolOf token :: (phraseOf symbolOf gaps rest).symbols := by
  rw [phraseOf, if_neg h]

/-- A phrase depends on the symbols of its own words alone. -/
theorem phraseOf_congr {symbolOf symbolOf' : String → Int} {tokens : List String}
    (h : ∀ word ∈ terminals tokens, symbolOf word = symbolOf' word) (gaps : Nat) :
    phraseOf symbolOf gaps tokens = phraseOf symbolOf' gaps tokens := by
  induction tokens generalizing gaps with
  | nil => rfl
  | cons token rest ih =>
    unfold phraseOf
    by_cases hgap : isGapToken token
    · rw [terminals_cons_of_gap hgap] at h
      rw [if_pos hgap, if_pos hgap, ih h]
    · rw [terminals_cons_of_word hgap, List.forall_mem_cons] at h
      rw [if_neg hgap, if_neg hgap, ih h.2, h.1]

/-- A gap in front loses its mark. -/
theorem unmarked_of_gap {token : String} (h : isGapToken token) (rest : List String) :
    unmarked (token :: rest) = none :: unmarked rest := by
  simp [unmarked, h]

/-- A word in front stays as it is. -/
theorem unmarked_of_word {token : String} (h : ¬isGapToken token) (rest : List String) :
    unmarked (token :: rest) = some token :: unmarked rest := by
  simp [unmarked, h]

/-- No word of a vocabulary has the symbol of a gap. -/
theorem symbolOf_ne_gapSymbol {vocabulary : Vocabulary} {word : String}
    (h : word ∈ vocabulary.words) (gaps : Nat) :
    vocabulary.symbolOf word ≠ gapSymbol ((gaps : Int) + 1) := by
  have := Vocabulary.symbolOf_nonneg h
  unfold gapSymbol
  omega

/-- The symbols of phrases tell their words and the places of their gaps apart, and no more. -/
theorem symbols_phraseOf_eq_iff {vocabulary : Vocabulary} {tokens tokens' : List String}
    (h : ∀ word ∈ terminals tokens, word ∈ vocabulary.words)
    (h' : ∀ word ∈ terminals tokens', word ∈ vocabulary.words) (gaps : Nat) :
    (phraseOf vocabulary.symbolOf gaps tokens).symbols =
        (phraseOf vocabulary.symbolOf gaps tokens').symbols ↔
      unmarked tokens = unmarked tokens' := by
  induction tokens generalizing tokens' gaps with
  | nil =>
    cases tokens' with
    | nil => exact iff_of_true rfl rfl
    | cons token' rest' =>
      refine iff_of_false (fun heq => ?_) nofun
      simpa using congrArg List.length heq
  | cons token rest ih =>
    cases tokens' with
    | nil =>
      refine iff_of_false (fun heq => ?_) nofun
      simpa using congrArg List.length heq
    | cons token' rest' =>
      by_cases hgap : isGapToken token <;> by_cases hgap' : isGapToken token'
      · rw [terminals_cons_of_gap hgap] at h
        rw [terminals_cons_of_gap hgap'] at h'
        rw [symbols_phraseOf_of_gap hgap, symbols_phraseOf_of_gap hgap', unmarked_of_gap hgap,
          unmarked_of_gap hgap', List.cons.injEq, List.cons.injEq, ih h h']
        exact and_congr_left fun _ => iff_of_true rfl rfl
      · rw [terminals_cons_of_word hgap', List.forall_mem_cons] at h'
        rw [symbols_phraseOf_of_gap hgap, symbols_phraseOf_of_word hgap', unmarked_of_gap hgap,
          unmarked_of_word hgap', List.cons.injEq, List.cons.injEq]
        exact iff_of_false (fun heq => symbolOf_ne_gapSymbol h'.1 gaps heq.1.symm) nofun
      · rw [terminals_cons_of_word hgap, List.forall_mem_cons] at h
        rw [symbols_phraseOf_of_word hgap, symbols_phraseOf_of_gap hgap', unmarked_of_word hgap,
          unmarked_of_gap hgap', List.cons.injEq, List.cons.injEq]
        exact iff_of_false (fun heq => symbolOf_ne_gapSymbol h.1 gaps heq.1) nofun
      · rw [terminals_cons_of_word hgap, List.forall_mem_cons] at h
        rw [terminals_cons_of_word hgap', List.forall_mem_cons] at h'
        rw [symbols_phraseOf_of_word hgap, symbols_phraseOf_of_word hgap', unmarked_of_word hgap,
          unmarked_of_word hgap', List.cons.injEq, List.cons.injEq, ih h.2 h'.2,
          Vocabulary.symbolOf_eq_iff h.1, Option.some.injEq]

/-! ## Phrase pairs -/

/-- A phrase of a line is printed with its gaps numbered in the order in which they stand. -/
structure PrintedInOrder (text field : String) : Prop where
  text_eq : text = " ".intercalate (renumbered 0 (Text.tokens field))
  own_tokens : text = " ".intercalate (Text.tokens field) ↔ GapsInOrder (Text.tokens field)

/-- A phrase is printed with its gaps numbered in order, if its words are known. -/
theorem printedInOrder_phraseOf {vocabulary : Vocabulary} {field : String}
    (h : ∀ word ∈ terminals (Text.tokens field), word ∈ vocabulary.words) :
    PrintedInOrder (Surface.text (phraseOf vocabulary.symbolOf 0 (Text.tokens field)).symbols
      (terminals (Text.tokens field))) field := by
  have htext := text_phraseOf fun word hword => Vocabulary.symbolOf_nonneg (h word hword)
  refine ⟨htext, ?_⟩
  rw [htext]
  constructor
  · intro heq
    have htokens := congrArg Text.tokens heq
    have hwords := (Text.isWords_tokens field).replace (forall₂_renumbered 0 (Text.tokens field))
    rw [Text.tokens_intercalate hwords, Text.tokens_intercalate (Text.isWords_tokens field)]
      at htokens
    exact (renumbered_eq_self_iff 0 _).1 htokens
  · intro horder
    rw [(renumbered_eq_self_iff 0 _).2 horder]

/-- Two pairs have the same numbers where they have the same symbols. -/
theorem PhraseIndex.ids_insert_eq_iff {index later : PhraseIndex} {pair : PhrasePair}
    (h : later.Extends (index.insert pair).1) (pair' : PhrasePair) :
    ((later.insert pair').2.ids.pair = (index.insert pair).2.ids.pair ↔
        pair'.pairKey = pair.pairKey) ∧
      ((later.insert pair').2.ids.source = (index.insert pair).2.ids.source ↔
        pair'.source = pair.source) ∧
      ((later.insert pair').2.ids.target = (index.insert pair).2.ids.target ↔
        pair'.target = pair.target) := by
  have hextends := (later.extends_insert pair').trans h
  have hhas := hextends.has (index.has_insert pair)
  have hhas' := later.has_insert pair'
  have hids : (index.insert pair).2.ids = (later.insert pair').1.idsOf pair := by
    rw [snd_insert, hextends.idsOf (index.has_insert pair)]
    rfl
  have hids' : (later.insert pair').2.ids = (later.insert pair').1.idsOf pair' := by
    rw [snd_insert]
    rfl
  rw [hids, hids']
  exact ⟨idOrUnassigned_eq_iff hhas'.key_mem hhas.key_mem,
    idOrUnassigned_eq_iff hhas'.source_mem hhas.source_mem,
    idOrUnassigned_eq_iff hhas'.target_mem hhas.target_mem⟩

namespace PhrasePair

/-- The phrases of a pair are these fields, read with a vocabulary that knows their words. -/
structure ReadFrom (vocabulary : Vocabulary) (pair : PhrasePair) (source target : String) :
    Prop where
  source_eq : pair.source = (phraseOf vocabulary.symbolOf 0 (Text.tokens source)).symbols
  target_eq : pair.target = (phraseOf vocabulary.symbolOf 0 (Text.tokens target)).symbols
  sourceWords_eq : pair.sourceWords = terminals (Text.tokens source)
  targetWords_eq : pair.targetWords = terminals (Text.tokens target)
  source_known : ∀ word ∈ terminals (Text.tokens source), word ∈ vocabulary.words
  target_known : ∀ word ∈ terminals (Text.tokens target), word ∈ vocabulary.words

/-- A pair that was built has the symbols and the words of the two phrases. -/
theorem ofPhrases_eq_ok {source target : Phrase} {alignment : String} {pair : PhrasePair}
    (h : ofPhrases source target alignment = .ok pair) :
    pair.source = source.symbols ∧ pair.target = target.symbols ∧
      pair.sourceWords = source.words ∧ pair.targetWords = target.words := by
  unfold ofPhrases at h
  split at h
  · cases h
  · rw [mapError_eq_ok_iff] at h
    obtain ⟨haligned, hsourceWords, htargetWords, -⟩ := ofLinks_eq_ok_iff.1 h
    obtain ⟨hsource, htarget, -⟩ := AlignedPair.ofLinks_eq_ok haligned
    exact ⟨hsource, htarget, hsourceWords, htargetWords⟩

/-- A pair that was built is read from the two texts. -/
theorem readFrom_build {vocabulary after : Vocabulary} {source target alignment : String}
    {pair : PhrasePair} (h : build vocabulary source target alignment = (after, .ok pair)) :
    ReadFrom after pair source target := by
  have hafter : (build vocabulary source target alignment).1 = after := congrArg Prod.fst h
  have hpair : (build vocabulary source target alignment).2 = .ok pair := congrArg Prod.snd h
  have hknown : ∀ word ∈ terminals (Text.tokens source) ++ terminals (Text.tokens target),
      word ∈ after.words := by
    intro word hword
    rw [← hafter]
    exact mem_words_build.2 (Or.inr hword)
  rw [List.forall_mem_append] at hknown
  rw [snd_build_eq_ofPhrases (.refl _), hafter] at hpair
  obtain ⟨hsource, htarget, hsourceWords, htargetWords⟩ := ofPhrases_eq_ok hpair
  rw [words_phraseOf] at hsourceWords htargetWords
  exact
    { source_eq := hsource
      target_eq := htarget
      sourceWords_eq := hsourceWords
      targetWords_eq := htargetWords
      source_known := hknown.1
      target_known := hknown.2 }

/-- A pair that was parsed is read from the first two of three fields. -/
theorem exists_readFrom {vocabulary after : Vocabulary} {line : String} {pair : PhrasePair}
    (h : parse vocabulary line = (after, .ok pair)) :
    ∃ source target alignment : String, Text.fields line = [source, target, alignment] ∧
      ReadFrom after pair source target := by
  unfold parse at h
  split at h
  · rename_i source target alignment hfields
    exact ⟨source, target, alignment, hfields, readFrom_build h⟩
  · cases h

namespace ReadFrom

variable {vocabulary : Vocabulary} {pair pair' : PhrasePair} {source target : String}
  {source' target' : String}

/-- What was read can be told later, too. -/
theorem extend {larger : Vocabulary} (h : ReadFrom vocabulary pair source target)
    (hlarger : larger.Extends vocabulary) : ReadFrom larger pair source target where
  source_eq := by
    rw [h.source_eq]
    exact congrArg Phrase.symbols (phraseOf_congr (fun word hword =>
      (hlarger.symbolOf (h.source_known word hword)).symm) 0)
  target_eq := by
    rw [h.target_eq]
    exact congrArg Phrase.symbols (phraseOf_congr (fun word hword =>
      (hlarger.symbolOf (h.target_known word hword)).symm) 0)
  sourceWords_eq := h.sourceWords_eq
  targetWords_eq := h.targetWords_eq
  source_known word hword := DenseIndex.Extends.mem hlarger (h.source_known word hword)
  target_known word hword := DenseIndex.Extends.mem hlarger (h.target_known word hword)

/-- Both phrases of a pair are printed with their gaps numbered in order. -/
theorem printedInOrder (h : ReadFrom vocabulary pair source target) :
    PrintedInOrder pair.sourceText source ∧ PrintedInOrder pair.targetText target := by
  unfold sourceText targetText
  rw [h.source_eq, h.target_eq, h.sourceWords_eq, h.targetWords_eq]
  exact ⟨printedInOrder_phraseOf h.source_known, printedInOrder_phraseOf h.target_known⟩

/-- Source phrases have the same symbols just when they differ in the marks of gaps alone. -/
theorem source_eq_iff (h : ReadFrom vocabulary pair source target)
    (h' : ReadFrom vocabulary pair' source' target') :
    pair'.source = pair.source ↔
      unmarked (Text.tokens source') = unmarked (Text.tokens source) := by
  rw [h.source_eq, h'.source_eq]
  exact symbols_phraseOf_eq_iff h'.source_known h.source_known 0

/-- Target phrases have the same symbols just when they differ in the marks of gaps alone. -/
theorem target_eq_iff (h : ReadFrom vocabulary pair source target)
    (h' : ReadFrom vocabulary pair' source' target') :
    pair'.target = pair.target ↔
      unmarked (Text.tokens target') = unmarked (Text.tokens target) := by
  rw [h.target_eq, h'.target_eq]
  exact symbols_phraseOf_eq_iff h'.target_known h.target_known 0

/-- The separator is no symbol of a source phrase with fewer than a million gaps. -/
theorem separator_not_mem (h : ReadFrom vocabulary pair source target)
    (hgaps : (Text.tokens source).countP isGapToken < 1000000) : pairSeparator ∉ pair.source := by
  rw [h.source_eq]
  exact separator_not_mem_symbols hgaps

end ReadFrom

/-- Both phrases of a line are printed with their gaps numbered in the order in which they stand. A
later line gives the same symbols if it has the same words and gaps at the same places. Then it has
the same numbers, and if there are not too many gaps, it has the same number of the pair only
then. -/
theorem gaps_parse {vocabulary after : Vocabulary} {line : String} {pair : PhrasePair}
    (h : parse vocabulary line = (after, .ok pair)) :
    ∃ source target alignment : String, Text.fields line = [source, target, alignment] ∧
      PrintedInOrder pair.sourceText source ∧ PrintedInOrder pair.targetText target ∧
      ∀ {later after' : Vocabulary} {line' : String} {pair' : PhrasePair}, later.Extends after →
        parse later line' = (after', .ok pair') →
        ∃ source' target' alignment' : String,
          Text.fields line' = [source', target', alignment'] ∧
          (pair'.source = pair.source ↔
            unmarked (Text.tokens source') = unmarked (Text.tokens source)) ∧
          (pair'.target = pair.target ↔
            unmarked (Text.tokens target') = unmarked (Text.tokens target)) ∧
          ∀ index laterIndex : PhraseIndex, laterIndex.Extends (index.insert pair).1 →
            (pair'.source = pair.source → pair'.target = pair.target →
              (laterIndex.insert pair').2.ids = (index.insert pair).2.ids) ∧
            ((Text.tokens source).countP isGapToken < 1000000 →
              (Text.tokens source').countP isGapToken < 1000000 →
              ((laterIndex.insert pair').2.ids.pair = (index.insert pair).2.ids.pair ↔
                pair'.source = pair.source ∧ pair'.target = pair.target)) := by
  obtain ⟨source, target, alignment, hfields, hread⟩ := exists_readFrom h
  refine ⟨source, target, alignment, hfields, hread.printedInOrder.1, hread.printedInOrder.2, ?_⟩
  intro later after' line' pair' hlater h'
  have hafter' : after'.Extends later := by
    have hextends := extends_parse later line'
    rwa [h'] at hextends
  obtain ⟨source', target', alignment', hfields', hread'⟩ := exists_readFrom h'
  -- both lines are told by the vocabulary behind the later one
  have hreadLater := hread.extend (hafter'.trans hlater)
  refine ⟨source', target', alignment', hfields', hreadLater.source_eq_iff hread',
    hreadLater.target_eq_iff hread', ?_⟩
  intro index laterIndex hindex
  obtain ⟨hpair, hsource, htarget⟩ := PhraseIndex.ids_insert_eq_iff hindex pair'
  constructor
  · intro hsame hsame'
    have hkey : pair'.pairKey = pair.pairKey := by
      unfold AlignedPair.pairKey
      rw [hsame, hsame']
    generalize (laterIndex.insert pair').2.ids = ids' at hpair hsource htarget ⊢
    generalize (index.insert pair).2.ids = ids at hpair hsource htarget ⊢
    cases ids
    cases ids'
    rw [PhraseIds.mk.injEq]
    exact ⟨hpair.2 hkey, hsource.2 hsame, htarget.2 hsame'⟩
  · intro hgaps hgaps'
    rw [hpair, AlignedPair.pairKey_eq_iff (hread'.separator_not_mem hgaps')
      (hreadLater.separator_not_mem hgaps)]
    unfold AlignedPair.symbols
    rw [Prod.mk.injEq]

/-- A pair whose gaps are marked 1 and 2, and the same pair with both marks exchanged and with a
link. The second pair is read as the first one, and is given the same numbers. -/
theorem gaps_parse_swapped :
    ∃ (after after' : Vocabulary) (pair pair' : PhrasePair),
      parse .empty "a ||| [X,1] b [X,2] ||| " = (after, .ok pair) ∧
      parse after "a ||| [X,2] b [X,1] ||| 0-1" = (after', .ok pair') ∧
      pair.targetText = "[X,1] b [X,2]" ∧ pair'.target = pair.target ∧
      (((PhraseIndex.empty.insert pair).1).insert pair').2.ids =
        (PhraseIndex.empty.insert pair).2.ids := by
  have hread : (parse .empty "a ||| [X,1] b [X,2] ||| ").2.toOption.isSome = true := by
    decide +kernel
  have hread' : (parse (parse .empty "a ||| [X,1] b [X,2] ||| ").1
      "a ||| [X,2] b [X,1] ||| 0-1").2.toOption.isSome = true := by
    decide +kernel
  rcases hparse : parse .empty "a ||| [X,1] b [X,2] ||| " with ⟨after, error | pair⟩
  · rw [hparse] at hread
    cases hread
  rw [hparse] at hread'
  rcases hparse' : parse after "a ||| [X,2] b [X,1] ||| 0-1" with ⟨after', error | pair'⟩
  · rw [hparse'] at hread'
    cases hread'
  have hfirst : Text.fields "a ||| [X,1] b [X,2] ||| " = ["a", "[X,1] b [X,2]", ""] := by
    decide +kernel
  have hsecond : Text.fields "a ||| [X,2] b [X,1] ||| 0-1" = ["a", "[X,2] b [X,1]", "0-1"] := by
    decide +kernel
  obtain ⟨source, target, alignment, hfields, -, hprinted, hlater⟩ := gaps_parse hparse
  obtain ⟨source', target', alignment', hfields', hsource, htarget, hids⟩ :=
    hlater (.refl after) hparse'
  rw [hfirst] at hfields
  rw [hsecond] at hfields'
  cases hfields
  cases hfields'
  have horder : GapsInOrder (Text.tokens "[X,1] b [X,2]") := by decide +kernel
  have hsame : pair'.target = pair.target := htarget.2 (by decide +kernel)
  exact ⟨after, after', pair, pair', rfl, hparse',
    (hprinted.own_tokens.2 horder).trans (by decide +kernel), hsame,
    (hids .empty _ (.refl _)).1 (hsource.2 rfl) hsame⟩

/-- Two lines with the gaps of their target phrases in different orders give one pair, which is
printed as the first of them. -/
theorem parse_swapped_gaps :
    (PhraseIndex.empty.insertAll
        (["a ||| [X,1] b [X,2] ||| ", "a ||| [X,2] b [X,1] ||| "].filterMap fun line =>
          (parse (.ofWords ["a", "b"]) line).2.toOption)).2.map
      (fun pair => (pair.target, pair.targetText, pair.ids)) =
      [([-1, 2, -2], "[X,1] b [X,2]", ⟨0, 0, 0⟩), ([-1, 2, -2], "[X,1] b [X,2]", ⟨0, 0, 0⟩)] := by
  decide +kernel

end PhrasePair

end PhraseTable
