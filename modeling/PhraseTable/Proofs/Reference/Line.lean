import PhraseTable.Proofs.PhraseReader
import PhraseTable.Reference.Check

/-!
# What a line of a reference table says

A line of a reference table is read with a vocabulary that grows, and told by any vocabulary that
comes later (`ReferenceLine.snd_read`), also when it is read again (`ReferenceLine.read_again`).
Which lines are malformed does not depend on the vocabulary (`ReferenceLine.exists_ofLine`,
`ReferenceLine.Malformed.ofLine_ne_ok`).
-/

set_option autoImplicit false

namespace PhraseTable

namespace ReferenceLine

/-- A line from its fields, the phrase pair in it and the text of its values. -/
def ofPair (fields : List String) (built : Except PhraseError PhrasePair) (values : String) :
    Except ReferenceFault ReferenceLine := do
  let pair ← built.mapError .phrase
  let readings ← ((Text.tokens values).mapM Number.read).mapError .number
  return ⟨fields, pair, readings⟩

/-- The line that is read if words have these symbols. -/
def ofLine (symbolOf : String → Int) (line : String) : Except ReferenceFault ReferenceLine :=
  match Text.fields line with
  | [source, target, alignment, second, values] =>
    ofPair [source, target, alignment, second, values]
      (PhrasePair.ofPhrases (phraseOf symbolOf 0 (Text.tokens source))
        (phraseOf symbolOf 0 (Text.tokens target)) alignment) values
  | fields => .error (.wrongFieldCount fields.length)

/-- The line has not five fields, its first three fields are no phrase pair, or one of its values is
no number. -/
inductive Malformed (line : String) : Prop where
  | fieldCount (h : (Text.fields line).length ≠ 5)
  | phrase {source target alignment second values : String}
      (hfields : Text.fields line = [source, target, alignment, second, values])
      {vocabulary : Vocabulary} {error : PhraseError}
      (h : (PhrasePair.build vocabulary source target alignment).2 = .error error)
  | value {source target alignment second values : String}
      (hfields : Text.fields line = [source, target, alignment, second, values])
      {token : String} (htoken : token ∈ Text.tokens values) {error : Number.NumeralError}
      (h : Number.read token = .error error)

/-- A line is made from its fields just when its pair was built and all its values are numbers. -/
theorem ofPair_eq_ok_iff {fields : List String} {built : Except PhraseError PhrasePair}
    {values : String} {line : ReferenceLine} :
    ofPair fields built values = .ok line ↔
      line.fields = fields ∧ built = .ok line.pair ∧
        (Text.tokens values).mapM Number.read = .ok line.values := by
  unfold ofPair
  constructor
  · intro h
    obtain ⟨pair, hpair, h⟩ := exists_of_bind_eq_ok h
    obtain ⟨readings, hreadings, h⟩ := exists_of_bind_eq_ok h
    cases h
    exact ⟨rfl, mapError_eq_ok_iff.1 hpair, mapError_eq_ok_iff.1 hreadings⟩
  · obtain ⟨lineFields, pair, readings⟩ := line
    rintro ⟨rfl, rfl, hreadings⟩
    rw [hreadings]
    rfl

section Read

variable {vocabulary larger : Vocabulary} {line : String}

/-- A line with five fields is read from the pair of three of them and the values of the last
one. -/
theorem read_of_fields {source target alignment second values : String}
    (hfields : Text.fields line = [source, target, alignment, second, values])
    (vocabulary : Vocabulary) :
    read vocabulary line =
      ((PhrasePair.build vocabulary source target alignment).1,
        ofPair [source, target, alignment, second, values]
          (PhrasePair.build vocabulary source target alignment).2 values) := by
  unfold read
  rw [hfields]
  dsimp only
  obtain ⟨after, error | pair⟩ := PhrasePair.build vocabulary source target alignment
  · rfl
  · unfold ofPair
    dsimp only
    cases (Text.tokens values).mapM Number.read <;> rfl

/-- A line with another number of fields is refused with this number, and stores nothing. -/
theorem read_of_length_ne (h : (Text.fields line).length ≠ 5) (vocabulary : Vocabulary) :
    read vocabulary line = (vocabulary, .error (.wrongFieldCount (Text.fields line).length)) := by
  unfold read
  split
  · rename_i hfields
    rw [hfields] at h
    exact absurd rfl h
  · rfl

/-- A line with five fields, as it is read when words have these symbols. -/
theorem ofLine_of_fields {source target alignment second values : String}
    (hfields : Text.fields line = [source, target, alignment, second, values])
    (symbolOf : String → Int) :
    ofLine symbolOf line =
      ofPair [source, target, alignment, second, values]
        (PhrasePair.ofPhrases (phraseOf symbolOf 0 (Text.tokens source))
          (phraseOf symbolOf 0 (Text.tokens target)) alignment) values := by
  unfold ofLine
  rw [hfields]

/-- A line with another number of fields is refused, whatever symbols words have. -/
theorem ofLine_of_length_ne (h : (Text.fields line).length ≠ 5) (symbolOf : String → Int) :
    ofLine symbolOf line = .error (.wrongFieldCount (Text.fields line).length) := by
  unfold ofLine
  split
  · rename_i hfields
    rw [hfields] at h
    exact absurd rfl h
  · rfl

/-- A line has five fields or another number of them. -/
theorem fields_cases (line : String) :
    (∃ source target alignment second values : String,
      Text.fields line = [source, target, alignment, second, values]) ∨
      (Text.fields line).length ≠ 5 := by
  match Text.fields line with
  | [source, target, alignment, second, values] =>
    exact Or.inl ⟨source, target, alignment, second, values, rfl⟩
  | [] | [_] | [_, _] | [_, _, _] | [_, _, _, _] | _ :: _ :: _ :: _ :: _ :: _ :: _ =>
    exact Or.inr (by simp)

/-- A line that is read leaves all symbols as they are. -/
theorem extends_read (vocabulary : Vocabulary) (line : String) :
    (read vocabulary line).1.Extends vocabulary := by
  obtain ⟨source, target, alignment, second, values, hfields⟩ | hcount := fields_cases line
  · rw [read_of_fields hfields]
    exact PhrasePair.extends_build vocabulary source target alignment
  · rw [read_of_length_ne hcount]
    exact .refl vocabulary

/-- What is read is told by any vocabulary that comes later. -/
theorem snd_read (h : larger.Extends (read vocabulary line).1) :
    (read vocabulary line).2 = ofLine larger.symbolOf line := by
  obtain ⟨source, target, alignment, second, values, hfields⟩ | hcount := fields_cases line
  · rw [read_of_fields hfields] at h ⊢
    rw [ofLine_of_fields hfields, PhrasePair.snd_build_eq_ofPhrases h]
  · rw [read_of_length_ne hcount, ofLine_of_length_ne hcount]

/-- A line that was read once, whether it is malformed or not, is read again without a new word. -/
theorem read_again {after : Vocabulary} {outcome : Except ReferenceFault ReferenceLine}
    (h : read vocabulary line = (after, outcome)) (hlarger : larger.Extends after) :
    read larger line = (larger, outcome) := by
  have hafter : larger.Extends (read vocabulary line).1 := by
    rw [h]
    exact hlarger
  have hwords : (read larger line).1 = larger := by
    obtain ⟨source, target, alignment, second, values, hfields⟩ | hcount := fields_cases line
    · rw [read_of_fields hfields] at hafter ⊢
      refine PhrasePair.fst_build_of_mem (fun word hword => ?_) alignment
      have hmem : word ∈ (PhrasePair.build vocabulary source target alignment).1.words :=
        PhrasePair.mem_words_build.2 (Or.inr hword)
      exact DenseIndex.Extends.mem hafter hmem
    · rw [read_of_length_ne hcount]
  have hsame : larger.Extends (read larger line).1 := by
    rw [hwords]
    exact .refl larger
  have houtcome : (read larger line).2 = outcome := by
    rw [snd_read hsame, ← snd_read hafter, h]
  exact Prod.ext hwords houtcome

/-- A malformed line is read with no symbols at all. -/
theorem Malformed.ofLine_ne_ok (h : Malformed line) (symbolOf : String → Int)
    (found : ReferenceLine) : ofLine symbolOf line ≠ .ok found := by
  intro hfound
  cases h with
  | fieldCount hcount =>
    rw [ofLine_of_length_ne hcount] at hfound
    cases hfound
  | phrase hfields hbuild =>
    rw [ofLine_of_fields hfields, ofPair_eq_ok_iff] at hfound
    rw [PhrasePair.snd_build_eq_ofPhrases (.refl _)] at hbuild
    obtain ⟨pair, hpair⟩ := PhrasePair.exists_ofPhrases_phraseOf hfound.2.1 _
    rw [hpair] at hbuild
    cases hbuild
  | value hfields htoken hread =>
    rw [ofLine_of_fields hfields, ofPair_eq_ok_iff, mapM_eq_ok_iff] at hfound
    obtain ⟨reading, -, hreading⟩ := forall₂_mem_left hfound.2.2 htoken
    rw [hread] at hreading
    cases hreading

/-- A line that is not malformed is read with any symbols. -/
theorem exists_ofLine (h : ¬Malformed line) (symbolOf : String → Int) :
    ∃ found : ReferenceLine, ofLine symbolOf line = .ok found := by
  obtain ⟨source, target, alignment, second, values, hfields⟩ | hcount := fields_cases line
  · have hbuilt : ∀ error : PhraseError,
        (PhrasePair.build .empty source target alignment).2 ≠ .error error :=
      fun _ hbuild => h (.phrase hfields hbuild)
    obtain ⟨pair, hpair⟩ := exists_ok_of_ne_error hbuilt
    obtain ⟨readings, hreadings⟩ := exists_mapM_eq_ok fun token htoken =>
      exists_ok_of_ne_error fun _ hread => h (.value hfields htoken hread)
    rw [PhrasePair.snd_build_eq_ofPhrases (.refl _)] at hpair
    obtain ⟨pair', hpair'⟩ := PhrasePair.exists_ofPhrases_phraseOf hpair symbolOf
    refine ⟨⟨[source, target, alignment, second, values], pair', readings⟩, ?_⟩
    rw [ofLine_of_fields hfields]
    exact ofPair_eq_ok_iff.2 ⟨rfl, hpair', hreadings⟩
  · exact absurd (.fieldCount hcount) h

/-- A line that is not malformed is read, and any vocabulary that comes later tells as what. -/
theorem exists_read (h : ¬Malformed line) (vocabulary : Vocabulary) :
    ∃ found : ReferenceLine, read vocabulary line = ((read vocabulary line).1, .ok found) ∧
      ∀ larger : Vocabulary, larger.Extends (read vocabulary line).1 →
        ofLine larger.symbolOf line = .ok found := by
  obtain ⟨found, hfound⟩ := exists_ofLine h (read vocabulary line).1.symbolOf
  rw [← snd_read (.refl _)] at hfound
  refine ⟨found, Prod.ext rfl hfound, ?_⟩
  intro larger hlarger
  rw [← snd_read hlarger]
  exact hfound

/-- A malformed line is refused with any vocabulary. -/
theorem exists_read_of_malformed (h : Malformed line) (vocabulary : Vocabulary) :
    ∃ fault : ReferenceFault,
      read vocabulary line = ((read vocabulary line).1, .error fault) := by
  cases hread : (read vocabulary line).2 with
  | error fault => exact ⟨fault, Prod.ext rfl hread⟩
  | ok found =>
    rw [snd_read (.refl _)] at hread
    exact absurd hread (h.ofLine_ne_ok _ found)

/-- There are as many values as there are tokens in the last field. -/
theorem length_values_of_ofLine {symbolOf : String → Int} {found : ReferenceLine}
    (h : ofLine symbolOf line = .ok found) :
    found.values.length = (Text.tokens ((Text.fields line).getD 4 "")).length := by
  obtain ⟨source, target, alignment, second, values, hfields⟩ | hcount := fields_cases line
  · rw [ofLine_of_fields hfields, ofPair_eq_ok_iff, mapM_eq_ok_iff] at h
    rw [hfields]
    exact h.2.2.length_eq.symm
  · rw [ofLine_of_length_ne hcount] at h
    cases h

/-- Either no line is malformed, or there is a first one. Empty lines do not count. -/
theorem exists_first_malformed (lines : List String) :
    (∀ line ∈ Run.phraseLines lines, ¬Malformed line) ∨
      ∃ (front : List String) (line : String) (back : List String),
        lines = front ++ line :: back ∧ ¬line.isEmpty ∧ Malformed line ∧
          ∀ earlier ∈ Run.phraseLines front, ¬Malformed earlier := by
  induction lines with
  | nil => exact Or.inl nofun
  | cons line rest ih =>
    by_cases hbad : ¬line.isEmpty ∧ Malformed line
    · exact Or.inr ⟨[], line, rest, rfl, hbad.1, hbad.2, nofun⟩
    · have hcons : ∀ others : List String, (∀ other ∈ Run.phraseLines others, ¬Malformed other) →
          ∀ other ∈ Run.phraseLines (line :: others), ¬Malformed other := by
        intro others hothers other hother
        by_cases hline : line.isEmpty
        · rw [Run.phraseLines_cons_of_isEmpty hline] at hother
          exact hothers other hother
        · rw [Run.phraseLines_cons_of_not_isEmpty hline] at hother
          rcases List.mem_cons.1 hother with rfl | hother
          · exact fun hmalformed => hbad ⟨hline, hmalformed⟩
          · exact hothers other hother
      obtain hformed | ⟨front, first, back, rfl, hfirst, hmalformed, hfront⟩ := ih
      · exact Or.inl (hcons rest hformed)
      · exact Or.inr ⟨line :: front, first, back, rfl, hfirst, hmalformed, hcons front hfront⟩

end Read

end ReferenceLine

end PhraseTable
