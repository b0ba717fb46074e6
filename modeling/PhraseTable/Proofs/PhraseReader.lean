import Mathlib.Data.List.Forall2
import PhraseTable.Proofs.AlignedPair
import PhraseTable.Proofs.Outcome
import PhraseTable.Proofs.Vocabulary
import PhraseTable.Run.Options

/-!
# What a line of a phrase file says

Reading a line takes words into a vocabulary and gives a phrase pair. `phraseOf` and `ofLine` say
what is read without a vocabulary that changes: they take the symbol of every word from a function.
`parse_eq_ofLine` ties the two together, and `readPhrases_eq_ok` and `exists_readPhrases` do so for
a whole file. Whether a line can be read does not depend on the symbols (`exists_ofLine`), and a
symbol is the separator only if a phrase has a million gaps (`separator_not_mem_symbols`).
-/

set_option autoImplicit false

namespace PhraseTable

/-- The words among the tokens of a phrase. -/
def terminals (tokens : List String) : List String :=
  tokens.filter fun token => !isGapToken token

/-- A gap in front is no word. -/
theorem terminals_cons_of_gap {token : String} (h : isGapToken token) (rest : List String) :
    terminals (token :: rest) = terminals rest := by
  simp [terminals, h]

/-- A word in front is one. -/
theorem terminals_cons_of_word {token : String} (h : ¬isGapToken token) (rest : List String) :
    terminals (token :: rest) = token :: terminals rest := by
  simp [terminals, h]

/-- The phrase with these tokens behind a number of gaps, if words have these symbols. -/
def phraseOf (symbolOf : String → Int) (gaps : Nat) : List String → Phrase
  | [] => ⟨[], []⟩
  | token :: rest =>
    if isGapToken token then
      ⟨gapSymbol ((gaps : Int) + 1) :: (phraseOf symbolOf (gaps + 1) rest).symbols,
        (phraseOf symbolOf (gaps + 1) rest).words⟩
    else
      ⟨symbolOf token :: (phraseOf symbolOf gaps rest).symbols,
        token :: (phraseOf symbolOf gaps rest).words⟩

/-- A phrase has a symbol for every token. -/
@[simp] theorem length_symbols_phraseOf (symbolOf : String → Int) (gaps : Nat)
    (tokens : List String) : (phraseOf symbolOf gaps tokens).symbols.length = tokens.length := by
  induction tokens generalizing gaps with
  | nil => rfl
  | cons token rest ih =>
    unfold phraseOf
    split <;> simp [ih]

/-- The words of a phrase are those among its tokens. -/
theorem words_phraseOf (symbolOf : String → Int) (gaps : Nat) (tokens : List String) :
    (phraseOf symbolOf gaps tokens).words = terminals tokens := by
  induction tokens generalizing gaps with
  | nil => rfl
  | cons token rest ih =>
    unfold phraseOf
    split
    · rename_i hgap
      rw [terminals_cons_of_gap hgap]
      exact ih (gaps + 1)
    · rename_i hword
      rw [terminals_cons_of_word hword, ih]

/-- A symbol of a phrase is that of a word, or it counts a gap. -/
theorem mem_symbols_phraseOf {symbolOf : String → Int} {gaps : Nat} {tokens : List String}
    {symbol : Int} (h : symbol ∈ (phraseOf symbolOf gaps tokens).symbols) :
    (∃ word ∈ terminals tokens, symbol = symbolOf word) ∨
      ∃ k : Nat, gaps < k ∧ k ≤ gaps + tokens.countP isGapToken ∧ symbol = gapSymbol k := by
  induction tokens generalizing gaps with
  | nil => cases h
  | cons token rest ih =>
    unfold phraseOf at h
    split at h
    · rename_i hgap
      rw [List.countP_cons_of_pos hgap]
      rcases List.mem_cons.1 h with rfl | h
      · exact Or.inr ⟨gaps + 1, by omega, by omega, by simp⟩
      · obtain ⟨word, hword, hsymbol⟩ | ⟨k, hlt, hle, hsymbol⟩ := ih h
        · exact Or.inl ⟨word, terminals_cons_of_gap hgap rest ▸ hword, hsymbol⟩
        · exact Or.inr ⟨k, by omega, by omega, hsymbol⟩
    · rename_i hword
      rw [List.countP_cons_of_neg hword, terminals_cons_of_word hword]
      rcases List.mem_cons.1 h with rfl | h
      · exact Or.inl ⟨token, List.mem_cons_self, rfl⟩
      · obtain ⟨word, hmem, hsymbol⟩ | hcounts := ih h
        · exact Or.inl ⟨word, List.mem_cons_of_mem token hmem, hsymbol⟩
        · exact Or.inr hcounts

/-- The separator is no symbol of a phrase that has less than a million gaps. -/
theorem separator_not_mem_symbols {vocabulary : Vocabulary} {tokens : List String}
    (h : tokens.countP isGapToken < 1000000) :
    pairSeparator ∉ (phraseOf vocabulary.symbolOf 0 tokens).symbols := by
  intro hmem
  obtain ⟨word, -, hsymbol⟩ | ⟨k, -, hle, hsymbol⟩ := mem_symbols_phraseOf hmem
  · have := vocabulary.neg_one_le_symbolOf word
    unfold pairSeparator at hsymbol
    omega
  · unfold pairSeparator gapSymbol at hsymbol
    omega

namespace Vocabulary

/-- The words of a phrase leave all symbols as they are. -/
theorem extends_internPhrase (vocabulary : Vocabulary) (gaps : Nat) (tokens : List String) :
    (vocabulary.internPhrase gaps tokens).1.Extends vocabulary := by
  induction tokens generalizing vocabulary gaps with
  | nil => exact .refl vocabulary
  | cons token rest ih =>
    unfold internPhrase
    split
    · exact ih vocabulary (gaps + 1)
    · exact (ih (vocabulary.intern token).1 gaps).trans (vocabulary.extends_intern token)

/-- The words are those from before and those of the phrase. -/
theorem mem_words_internPhrase {vocabulary : Vocabulary} {gaps : Nat} {tokens : List String}
    {w : String} :
    w ∈ (vocabulary.internPhrase gaps tokens).1.words ↔
      w ∈ vocabulary.words ∨ w ∈ terminals tokens := by
  induction tokens generalizing vocabulary gaps with
  | nil => simp [internPhrase, terminals]
  | cons token rest ih =>
    unfold internPhrase
    split
    · rename_i hgap
      have hterminals := terminals_cons_of_gap hgap rest
      rw [hterminals]
      exact ih
    · rename_i hword
      have hterminals := terminals_cons_of_word hword rest
      show w ∈ ((vocabulary.intern token).1.internPhrase gaps rest).1.words ↔ _
      rw [hterminals, ih, mem_words_intern, List.mem_cons, or_assoc]

/-- The phrase has the symbols that its words have in any later vocabulary. -/
theorem snd_internPhrase {vocabulary larger : Vocabulary} {gaps : Nat} {tokens : List String}
    (h : larger.Extends (vocabulary.internPhrase gaps tokens).1) :
    (vocabulary.internPhrase gaps tokens).2 = phraseOf larger.symbolOf gaps tokens := by
  induction tokens generalizing vocabulary gaps with
  | nil => rfl
  | cons token rest ih =>
    unfold internPhrase at h ⊢
    unfold phraseOf
    split
    · rename_i hgap
      rw [if_pos hgap] at h
      have hrest := ih h
      dsimp only
      rw [hrest]
    · rename_i hword
      rw [if_neg hword] at h
      have hrest := ih h
      have hfirst := snd_intern
        (Extends.trans h (extends_internPhrase (vocabulary.intern token).1 gaps rest))
      dsimp only
      rw [hrest, hfirst]

/-- A phrase of known words changes nothing. -/
theorem internPhrase_of_mem {vocabulary : Vocabulary} {tokens : List String}
    (h : ∀ word ∈ terminals tokens, word ∈ vocabulary.words) (gaps : Nat) :
    vocabulary.internPhrase gaps tokens =
      (vocabulary, phraseOf vocabulary.symbolOf gaps tokens) := by
  have hfst : (vocabulary.internPhrase gaps tokens).1 = vocabulary := by
    induction tokens generalizing gaps with
    | nil => rfl
    | cons token rest ih =>
      unfold internPhrase
      split
      · rename_i hgap
        have hterminals := terminals_cons_of_gap hgap rest
        exact ih (by rwa [hterminals] at h) (gaps + 1)
      · rename_i hword
        have hterminals := terminals_cons_of_word hword rest
        rw [hterminals, List.forall_mem_cons] at h
        dsimp only
        rw [fst_intern_of_mem h.1]
        exact ih h.2 gaps
  have hsame : vocabulary.Extends (vocabulary.internPhrase gaps tokens).1 := by
    rw [hfst]
    exact .refl vocabulary
  exact Prod.ext hfst (snd_internPhrase hsame)

end Vocabulary

namespace PhrasePair

/-- The pair that a line holds, if words have these symbols. -/
def ofLine (symbolOf : String → Int) (line : String) : Except PhraseError PhrasePair :=
  match Text.fields line with
  | [source, target, alignment] =>
    ofPhrases (phraseOf symbolOf 0 (Text.tokens source)) (phraseOf symbolOf 0 (Text.tokens target))
      alignment
  | fields => .error (.wrongFieldCount fields.length line)

/-- The words of the phrases on a line. -/
def lineTerminals (line : String) : List String :=
  match Text.fields line with
  | [source, target, _] => terminals (Text.tokens source) ++ terminals (Text.tokens target)
  | _ => []

/-- A pair that is built stores the words of its source phrase and then those of its target phrase,
even if it is refused. -/
theorem fst_build (vocabulary : Vocabulary) (source target alignment : String) :
    (build vocabulary source target alignment).1 =
      ((vocabulary.internPhrase 0 (Text.tokens source)).1.internPhrase 0
        (Text.tokens target)).1 := by
  unfold build Vocabulary.readPhrase
  rfl

/-- The pair is built from the two phrases that were read. -/
theorem snd_build (vocabulary : Vocabulary) (source target alignment : String) :
    (build vocabulary source target alignment).2 =
      ofPhrases (vocabulary.internPhrase 0 (Text.tokens source)).2
        ((vocabulary.internPhrase 0 (Text.tokens source)).1.internPhrase 0 (Text.tokens target)).2
        alignment := by
  unfold build Vocabulary.readPhrase
  rfl

/-- A pair that is built leaves all symbols as they are. -/
theorem extends_build (vocabulary : Vocabulary) (source target alignment : String) :
    (build vocabulary source target alignment).1.Extends vocabulary := by
  rw [fst_build]
  exact (Vocabulary.extends_internPhrase _ 0 _).trans (vocabulary.extends_internPhrase 0 _)

/-- The words are those from before and those of both phrases. -/
theorem mem_words_build {vocabulary : Vocabulary} {source target alignment w : String} :
    w ∈ (build vocabulary source target alignment).1.words ↔
      w ∈ vocabulary.words ∨
        w ∈ terminals (Text.tokens source) ++ terminals (Text.tokens target) := by
  rw [fst_build, Vocabulary.mem_words_internPhrase, Vocabulary.mem_words_internPhrase,
    List.mem_append, or_assoc]

/-- What is built is told by any vocabulary that comes later. -/
theorem snd_build_eq_ofPhrases {vocabulary larger : Vocabulary} {source target alignment : String}
    (h : larger.Extends (build vocabulary source target alignment).1) :
    (build vocabulary source target alignment).2 =
      ofPhrases (phraseOf larger.symbolOf 0 (Text.tokens source))
        (phraseOf larger.symbolOf 0 (Text.tokens target)) alignment := by
  rw [fst_build] at h
  have hsource := Vocabulary.snd_internPhrase
    (h.trans (Vocabulary.extends_internPhrase _ 0 (Text.tokens target)))
  have htarget := Vocabulary.snd_internPhrase h
  rw [snd_build, hsource, htarget]

/-- Nothing is taken in if all words are known. -/
theorem fst_build_of_mem {vocabulary : Vocabulary} {source target : String}
    (h : ∀ word ∈ terminals (Text.tokens source) ++ terminals (Text.tokens target),
      word ∈ vocabulary.words) (alignment : String) :
    (build vocabulary source target alignment).1 = vocabulary := by
  obtain ⟨hsource, htarget⟩ := List.forall_mem_append.1 h
  rw [fst_build, Vocabulary.internPhrase_of_mem hsource, Vocabulary.internPhrase_of_mem htarget]

/-- A line that is parsed leaves all symbols as they are. -/
theorem extends_parse (vocabulary : Vocabulary) (line : String) :
    (parse vocabulary line).1.Extends vocabulary := by
  unfold parse
  match Text.fields line with
  | [source, target, alignment] => exact extends_build vocabulary source target alignment
  | [] | [_] | [_, _] | _ :: _ :: _ :: _ :: _ => exact .refl vocabulary

/-- The words are those from before and those of the line. -/
theorem mem_words_parse {vocabulary : Vocabulary} {line w : String} :
    w ∈ (parse vocabulary line).1.words ↔ w ∈ vocabulary.words ∨ w ∈ lineTerminals line := by
  unfold parse lineTerminals
  match Text.fields line with
  | [source, target, alignment] => exact mem_words_build
  | [] | [_] | [_, _] | _ :: _ :: _ :: _ :: _ => simp

/-- A line is parsed with the symbols that its words have in any later vocabulary. -/
theorem parse_eq_ofLine {vocabulary larger : Vocabulary} {line : String}
    (h : larger.Extends (parse vocabulary line).1) :
    (parse vocabulary line).2 = ofLine larger.symbolOf line := by
  revert h
  unfold parse ofLine
  match Text.fields line with
  | [source, target, alignment] => exact snd_build_eq_ofPhrases
  | [] | [_] | [_, _] | _ :: _ :: _ :: _ :: _ => exact fun _ => rfl

/-- What is known of a pair that was read: its phrases are the first two fields of the line, and its
links are those of the third. -/
theorem ofLine_eq_ok_iff {symbolOf : String → Int} {line : String} {pair : PhrasePair} :
    ofLine symbolOf line = .ok pair ↔
      ∃ source target alignment : String, Text.fields line = [source, target, alignment] ∧
        ∃ links : List RawLink,
          PhraseAlignment.parse alignment (Number.wrapped (Text.tokens source).length) =
            .ok links ∧
          ofLinks (phraseOf symbolOf 0 (Text.tokens source)).symbols
            (phraseOf symbolOf 0 (Text.tokens target)).symbols
            (terminals (Text.tokens source)) (terminals (Text.tokens target)) links = .ok pair := by
  constructor
  · intro h
    unfold ofLine at h
    split at h
    · rename_i source target alignment hfields
      refine ⟨source, target, alignment, hfields, ?_⟩
      unfold ofPhrases at h
      rw [length_symbols_phraseOf, words_phraseOf, words_phraseOf] at h
      split at h
      · cases h
      · rename_i links hlinks
        refine ⟨links, hlinks, ?_⟩
        generalize ofLinks _ _ _ _ links = outcome at h ⊢
        cases outcome with
        | error error => cases h
        | ok built => cases h; rfl
    · cases h
  · rintro ⟨source, target, alignment, hfields, links, hlinks, hpair⟩
    unfold ofLine ofPhrases
    rw [hfields]
    dsimp only
    rw [length_symbols_phraseOf, words_phraseOf, words_phraseOf, hlinks]
    dsimp only
    rw [hpair]
    rfl

/-- The parts of a pair that was read, and the links that it was given. -/
structure HasParts (symbolOf : String → Int) (pair : PhrasePair) (source target : String)
    (raws : List RawLink) : Prop where
  source_eq : pair.source = (phraseOf symbolOf 0 (Text.tokens source)).symbols
  target_eq : pair.target = (phraseOf symbolOf 0 (Text.tokens target)).symbols
  sourceWords_eq : pair.sourceWords = terminals (Text.tokens source)
  targetWords_eq : pair.targetWords = terminals (Text.tokens target)
  ids_eq : pair.ids = .unassigned
  mem_links : ∀ link : Link, link ∈ pair.links ↔ link.raw ∈ raws

/-- A line that is read has three fields, and the pair has its parts from them. -/
theorem exists_parts {symbolOf : String → Int} {line : String} {pair : PhrasePair}
    (h : ofLine symbolOf line = .ok pair) :
    ∃ source target alignment : String, Text.fields line = [source, target, alignment] ∧
      ∃ raws : List RawLink,
        PhraseAlignment.parse alignment (Number.wrapped (Text.tokens source).length) = .ok raws ∧
        HasParts symbolOf pair source target raws := by
  obtain ⟨source, target, alignment, hfields, raws, hraws, hbuilt⟩ := ofLine_eq_ok_iff.1 h
  obtain ⟨haligned, hsourceWords, htargetWords, hids⟩ := ofLinks_eq_ok_iff.1 hbuilt
  obtain ⟨hsource, htarget, -⟩ := AlignedPair.ofLinks_eq_ok haligned
  exact ⟨source, target, alignment, hfields, raws, hraws,
    { source_eq := hsource
      target_eq := htarget
      sourceWords_eq := hsourceWords
      targetWords_eq := htargetWords
      ids_eq := hids
      mem_links := fun _ => AlignedPair.mem_links_ofLinks haligned }⟩

/-- The words of a pair that was read are those of its line. -/
theorem words_of_ofLine {symbolOf : String → Int} {line : String} {pair : PhrasePair}
    (h : ofLine symbolOf line = .ok pair) :
    pair.sourceWords ++ pair.targetWords = lineTerminals line := by
  obtain ⟨source, target, alignment, hfields, raws, -, hparts⟩ := exists_parts h
  unfold lineTerminals
  rw [hfields, hparts.sourceWords_eq, hparts.targetWords_eq]

/-- A pair that was read has no numbers yet. -/
theorem ids_of_ofLine {symbolOf : String → Int} {line : String} {pair : PhrasePair}
    (h : ofLine symbolOf line = .ok pair) : pair.ids = .unassigned := by
  obtain ⟨_, _, _, _, _, _, hparts⟩ := exists_parts h
  exact hparts.ids_eq

/-- Whether two phrases form a pair does not depend on their symbols, only on how many there are. -/
theorem exists_ofPhrases {source source' target target' : Phrase} {alignment : String}
    {pair : PhrasePair} (hsource : source'.symbols.length = source.symbols.length)
    (htarget : target'.symbols.length = target.symbols.length)
    (h : ofPhrases source target alignment = .ok pair) :
    ∃ pair' : PhrasePair, ofPhrases source' target' alignment = .ok pair' := by
  unfold ofPhrases at h ⊢
  rw [hsource]
  split at h
  · cases h
  · rename_i links hlinks
    rw [mapError_eq_ok_iff, ofLinks_eq_ok_iff] at h
    have hinside := AlignedPair.inRange_of_ofLinks h.1
    rw [← hsource, ← htarget] at hinside
    obtain ⟨aligned, haligned⟩ := AlignedPair.exists_ofLinks hinside
    refine ⟨{ aligned with
      sourceWords := source'.words, targetWords := target'.words, ids := .unassigned }, ?_⟩
    exact mapError_eq_ok_iff.2 (ofLinks_eq_ok_iff.2 ⟨haligned, rfl, rfl, rfl⟩)

/-- Whether a pair can be built does not depend on the symbols of its words. -/
theorem exists_ofPhrases_phraseOf {symbolOf : String → Int} {source target : List String}
    {alignment : String} {pair : PhrasePair}
    (h : ofPhrases (phraseOf symbolOf 0 source) (phraseOf symbolOf 0 target) alignment = .ok pair)
    (symbolOf' : String → Int) :
    ∃ pair' : PhrasePair,
      ofPhrases (phraseOf symbolOf' 0 source) (phraseOf symbolOf' 0 target) alignment = .ok pair' :=
  exists_ofPhrases (by simp) (by simp) h

/-- Whether a line can be read does not depend on the symbols of its words. -/
theorem exists_ofLine {symbolOf : String → Int} {line : String} {pair : PhrasePair}
    (h : ofLine symbolOf line = .ok pair) (symbolOf' : String → Int) :
    ∃ pair' : PhrasePair, ofLine symbolOf' line = .ok pair' := by
  unfold ofLine at h ⊢
  split at h
  · exact exists_ofPhrases_phraseOf h symbolOf'
  · cases h

/-- The separator is no symbol of a pair whose phrases have less than a million gaps. -/
theorem separator_not_mem_ofLine {vocabulary : Vocabulary} {line : String} {pair : PhrasePair}
    (h : ofLine vocabulary.symbolOf line = .ok pair)
    (hgaps : ∀ phrase ∈ (Text.fields line).take 2,
      (Text.tokens phrase).countP isGapToken < 1000000) :
    pairSeparator ∉ pair.source := by
  obtain ⟨source, target, alignment, hfields, links, -, hparts⟩ := exists_parts h
  rw [hfields] at hgaps
  rw [hparts.source_eq]
  exact separator_not_mem_symbols (hgaps source List.mem_cons_self)

end PhrasePair

/-! ## Reading a phrase file -/

namespace Run

/-- The lines that hold phrase pairs. -/
def phraseLines (lines : List String) : List String :=
  lines.filter fun line => !line.isEmpty

/-- An empty line is passed over. -/
theorem phraseLines_cons_of_isEmpty {line : String} (h : line.isEmpty) (rest : List String) :
    phraseLines (line :: rest) = phraseLines rest := by
  simp [phraseLines, h]

/-- A line that is not empty is one of the phrase file. -/
theorem phraseLines_cons_of_not_isEmpty {line : String} (h : ¬line.isEmpty) (rest : List String) :
    phraseLines (line :: rest) = line :: phraseLines rest := by
  simp [phraseLines, h]

/-- These pairs stand on these lines, if words have these symbols. -/
def ReadAs (symbolOf : String → Int) (lines : List String) (pairs : List PhrasePair) : Prop :=
  List.Forall₂ (fun line pair => PhrasePair.ofLine symbolOf line = .ok pair) lines pairs

/-- The lines behind the first one are read only if that one is, with the words that it has
stored. -/
theorem readPhrases_cons (name : String) (vocabulary : Vocabulary) (lineNumber : Nat)
    {line : String} (rest : List String) (hline : ¬line.isEmpty) :
    readPhrases name vocabulary lineNumber (line :: rest) =
      match (PhrasePair.parse vocabulary line).2 with
      | .error error => .error (.phrase name lineNumber error)
      | .ok pair =>
        (readPhrases name (PhrasePair.parse vocabulary line).1 (lineNumber + 1) rest).map
          fun read => (read.1, pair :: read.2) := by
  rw [readPhrases, if_neg hline]
  generalize PhrasePair.parse vocabulary line = parsed
  obtain ⟨vocabulary', outcome⟩ := parsed
  cases outcome with
  | error error => rfl
  | ok pair =>
    dsimp only
    cases readPhrases name vocabulary' (lineNumber + 1) rest <;> rfl

/-- What is known of a phrase file that was read: the pair on every line that is not empty, and the
words of all of them. -/
theorem readPhrases_eq_ok {name : String} {vocabulary after : Vocabulary} {lineNumber : Nat}
    {lines : List String} {pairs : List PhrasePair}
    (h : readPhrases name vocabulary lineNumber lines = .ok (after, pairs)) :
    after.Extends vocabulary ∧
      (∀ word : String, word ∈ after.words ↔
        word ∈ vocabulary.words ∨ word ∈ (phraseLines lines).flatMap PhrasePair.lineTerminals) ∧
      ∀ larger : Vocabulary, larger.Extends after →
        ReadAs larger.symbolOf (phraseLines lines) pairs := by
  induction lines generalizing vocabulary lineNumber pairs with
  | nil =>
    cases h
    exact ⟨.refl _, fun word => by simp [phraseLines], fun larger _ => .nil⟩
  | cons line rest ih =>
    by_cases hline : line.isEmpty
    · have hlines := phraseLines_cons_of_isEmpty hline rest
      rw [readPhrases, if_pos hline] at h
      rw [hlines]
      exact ih h
    · have hlines := phraseLines_cons_of_not_isEmpty hline rest
      rw [readPhrases_cons name vocabulary lineNumber rest hline] at h
      split at h
      · cases h
      · rename_i pair hpair
        cases hrest :
          readPhrases name (PhrasePair.parse vocabulary line).1 (lineNumber + 1) rest with
        | error error =>
          rw [hrest] at h
          cases h
        | ok read =>
          rw [hrest] at h
          cases h
          obtain ⟨hextends, hwords, hread⟩ := ih hrest
          refine ⟨hextends.trans (PhrasePair.extends_parse vocabulary line), ?_, ?_⟩
          · intro word
            rw [hwords, PhrasePair.mem_words_parse, hlines, List.flatMap_cons, List.mem_append,
              or_assoc]
          · intro larger hlarger
            rw [hlines]
            refine .cons ?_ (hread larger hlarger)
            rw [← PhrasePair.parse_eq_ofLine (hlarger.trans hextends)]
            exact hpair

/-- A phrase file can be read with any vocabulary, or with none. -/
theorem exists_readPhrases {symbolOf : String → Int} {lines : List String}
    {pairs : List PhrasePair} (h : ReadAs symbolOf (phraseLines lines) pairs) (name : String)
    (vocabulary : Vocabulary) (lineNumber : Nat) :
    ∃ (after : Vocabulary) (pairs' : List PhrasePair),
      readPhrases name vocabulary lineNumber lines = .ok (after, pairs') := by
  induction lines generalizing vocabulary lineNumber pairs with
  | nil => exact ⟨vocabulary, [], rfl⟩
  | cons line rest ih =>
    by_cases hline : line.isEmpty
    · have hlines := phraseLines_cons_of_isEmpty hline rest
      rw [hlines] at h
      rw [readPhrases, if_pos hline]
      exact ih h vocabulary (lineNumber + 1)
    · have hlines := phraseLines_cons_of_not_isEmpty hline rest
      rw [hlines] at h
      cases h with
      | cons hpair hrest =>
        obtain ⟨pair', hpair'⟩ :=
          PhrasePair.exists_ofLine hpair (PhrasePair.parse vocabulary line).1.symbolOf
        obtain ⟨after, pairs', hread⟩ :=
          ih hrest (PhrasePair.parse vocabulary line).1 (lineNumber + 1)
        refine ⟨after, pair' :: pairs', ?_⟩
        rw [readPhrases_cons name vocabulary lineNumber rest hline,
          PhrasePair.parse_eq_ofLine (.refl _), hpair']
        dsimp only
        rw [hread]
        rfl

/-- No phrase has a million gaps or more. -/
def FewGaps (lines : List String) : Prop :=
  ∀ line ∈ lines, ∀ phrase ∈ (Text.fields line).take 2,
    (Text.tokens phrase).countP isGapToken < 1000000

instance (lines : List String) : Decidable (FewGaps lines) :=
  inferInstanceAs (Decidable (∀ line ∈ lines, ∀ phrase ∈ (Text.fields line).take 2,
    (Text.tokens phrase).countP isGapToken < 1000000))

namespace ReadAs

variable {symbolOf : String → Int} {lines : List String} {pairs : List PhrasePair}

/-- Every pair was read from one of the lines. -/
theorem exists_line (h : ReadAs symbolOf lines pairs) {pair : PhrasePair} (hpair : pair ∈ pairs) :
    ∃ line ∈ lines, PhrasePair.ofLine symbolOf line = .ok pair :=
  forall₂_mem_right h hpair

/-- Pairs are read without numbers. -/
theorem ids_eq (h : ReadAs symbolOf lines pairs) {pair : PhrasePair} (hpair : pair ∈ pairs) :
    pair.ids = .unassigned := by
  obtain ⟨line, -, hline⟩ := h.exists_line hpair
  exact PhrasePair.ids_of_ofLine hline

/-- The separator is no source symbol, if no line has too many gaps. -/
theorem separator_not_mem {vocabulary : Vocabulary} (h : ReadAs vocabulary.symbolOf lines pairs)
    (hgaps : FewGaps lines) {pair : PhrasePair} (hpair : pair ∈ pairs) :
    pairSeparator ∉ pair.source := by
  obtain ⟨line, hmem, hline⟩ := h.exists_line hpair
  exact PhrasePair.separator_not_mem_ofLine hline (hgaps line hmem)

end ReadAs

end Run

end PhraseTable
