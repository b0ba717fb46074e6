import PhraseTable.Phrase.Pair

/-!
# A phrase and its positions

A whole phrase is written with its words taken off one by one, a single position with the terminals
in front of it counted again. Both agree because behind the first symbol either way goes on with the
same words (`wordsBehind`), also when there are none left: `surface_cons` says so of the whole
phrase and `wordAt_cons_succ` of a position.
-/

set_option autoImplicit false

namespace PhraseTable

namespace Surface

/-- The words that are left behind a symbol. -/
def wordsBehind (symbol : Int) (words : List String) : List String :=
  if isGap symbol then words else words.tail

/-- The first position has its own word, and the others go on with the words behind it. -/
theorem surface_cons (symbol : Int) (rest : List Int) (words : List String) :
    surface (symbol :: rest) words =
      wordAt (symbol :: rest) words 0 :: surface rest (wordsBehind symbol words) := by
  by_cases hgap : isGap symbol
  · simp [surface, wordAt, wordsBehind, hgap]
  · cases words with
    | nil => simp [surface, wordAt, wordsBehind, hgap]
    | cons word words => simp [surface, wordAt, wordsBehind, hgap]

/-- Counting terminals from the second symbol on is counting them among the words left behind the
first. -/
theorem wordAt_cons_succ (symbol : Int) (rest : List Int) (words : List String) (position : Nat) :
    wordAt (symbol :: rest) words (position + 1) =
      wordAt rest (wordsBehind symbol words) position := by
  unfold wordAt wordsBehind
  rw [List.getD_cons_succ, List.take_succ_cons, List.countP_cons]
  by_cases hgap : isGap symbol
  · simp [hgap]
  · cases words with
    | nil => simp [hgap]
    | cons word words => simp [hgap]

/-- Writing a whole phrase writes each of its positions, however many words there are. -/
theorem surface_eq_map_wordAt (symbols : List Int) (words : List String) :
    surface symbols words = (List.range symbols.length).map (wordAt symbols words) := by
  induction symbols generalizing words with
  | nil => rfl
  | cons symbol rest ih =>
    have hbehind : (List.range rest.length).map (wordAt (symbol :: rest) words ∘ Nat.succ) =
        surface rest (wordsBehind symbol words) := by
      rw [ih]
      exact List.map_congr_left fun position _ => wordAt_cons_succ symbol rest words position
    rw [surface_cons, List.length_cons, List.range_succ_eq_map, List.map_cons, List.map_map,
      hbehind]

end Surface

/-- **A phrase is the row of its positions.** Whatever symbols and words the phrases of a pair have,
the text of each phrase is the texts of its positions with single spaces between them. -/
theorem PhrasePair.texts_eq_wordsAt (pair : PhrasePair) :
    pair.sourceText =
        " ".intercalate ((List.range pair.source.length).map pair.sourceWordAt) ∧
      pair.targetText =
        " ".intercalate ((List.range pair.target.length).map pair.targetWordAt) := by
  unfold sourceText targetText Surface.text
  rw [Surface.surface_eq_map_wordAt, Surface.surface_eq_map_wordAt]
  exact ⟨rfl, rfl⟩

/-- When the words have run out, terminals are written as their numbers in either way. -/
example : Surface.text [5, -1, 7, -2, 9] ["a", "b"] = "a [X,1] b [X,2] 9" ∧
    (List.range 5).map (Surface.wordAt [5, -1, 7, -2, 9] ["a", "b"]) =
      ["a", "[X,1]", "b", "[X,2]", "9"] := by
  decide +kernel

end PhraseTable
