import PhraseTable.Phrase.Index
import PhraseTable.Proofs.DenseIndex
import PhraseTable.Vocabulary

/-!
# Reading words into a vocabulary

A vocabulary only grows, and a word that is in it keeps its number (`Extends.symbolOf`). So what
has been read can be said afterwards, in terms of the vocabulary at the end: every word was read as
the symbol that it has there (`snd_internAll`).
-/

set_option autoImplicit false

namespace PhraseTable.Vocabulary

/-- A word stands at the number that is found for it. -/
theorem word?_eq_some_iff {vocabulary : Vocabulary} {id : Nat} {word : String} :
    vocabulary.word? id = some word ↔ vocabulary.find? word = some id := by
  unfold word? find?
  rw [DenseIndex.find?_eq_some_iff, DenseIndex.getElem?_toList]

/-- The symbol of a word, or -1 for a word that the vocabulary has not. -/
def symbolOf (vocabulary : Vocabulary) (word : String) : Int :=
  idOrUnassigned (vocabulary.find? word)

/-- A word that is found has its number as its symbol. -/
theorem symbolOf_of_find? {vocabulary : Vocabulary} {word : String} {id : Nat}
    (h : vocabulary.find? word = some id) : vocabulary.symbolOf word = id := by
  unfold symbolOf
  rw [h]
  rfl

/-- A word that is not stored has the symbol -1. -/
theorem symbolOf_of_not_mem {vocabulary : Vocabulary} {word : String}
    (h : word ∉ vocabulary.words) : vocabulary.symbolOf word = -1 := by
  have hfind : vocabulary.find? word = none := DenseIndex.find?_eq_none_iff.2 h
  unfold symbolOf
  rw [hfind]
  rfl

/-- A stored word has a number below the size as its symbol, and stands under it. -/
theorem exists_symbolOf {vocabulary : Vocabulary} {word : String} (h : word ∈ vocabulary.words) :
    ∃ id < vocabulary.size, vocabulary.word? id = some word ∧ vocabulary.symbolOf word = id := by
  obtain ⟨id, hlt, hid⟩ := DenseIndex.exists_find? h
  refine ⟨id, hlt, ?_, symbolOf_of_find? hid⟩
  rw [DenseIndex.find?_eq_some_iff, DenseIndex.getElem?_toList] at hid
  exact hid

/-- A stored word has no gap's symbol. -/
theorem symbolOf_nonneg {vocabulary : Vocabulary} {word : String} (h : word ∈ vocabulary.words) :
    0 ≤ vocabulary.symbolOf word := by
  obtain ⟨id, -, -, hid⟩ := exists_symbolOf h
  omega

/-- No word has a symbol below -1. -/
theorem neg_one_le_symbolOf (vocabulary : Vocabulary) (word : String) :
    -1 ≤ vocabulary.symbolOf word := by
  by_cases h : word ∈ vocabulary.words
  · have := symbolOf_nonneg h
    omega
  · exact Int.le_of_eq (symbolOf_of_not_mem h).symm

/-- The null word is always there. -/
theorem words_empty : empty.words = [nullText] := by
  show ((DenseIndex.empty Hash.text 16).insert nullText).1.toList = _
  rw [DenseIndex.toList_insert]
  simp

/-- The null word is stored in every vocabulary. -/
theorem null_mem_words (vocabulary : Vocabulary) : nullText ∈ vocabulary.words := by
  have hfirst := vocabulary.null_first
  rw [← DenseIndex.getElem?_toList] at hfirst
  exact List.mem_of_getElem? hfirst

/-- The text of the null word has its symbol. -/
@[simp] theorem symbolOf_nullText (vocabulary : Vocabulary) :
    vocabulary.symbolOf nullText = nullWord := by
  have hfirst := vocabulary.null_first
  rw [← DenseIndex.getElem?_toList] at hfirst
  exact symbolOf_of_find? (DenseIndex.find?_eq_some_iff.2 hfirst)

/-- No other word has the symbol of a word of the vocabulary. -/
theorem symbolOf_eq_iff {vocabulary : Vocabulary} {word : String} (h : word ∈ vocabulary.words)
    {other : String} : vocabulary.symbolOf word = vocabulary.symbolOf other ↔ word = other := by
  obtain ⟨id, -, hword, hid⟩ := exists_symbolOf h
  refine ⟨fun heq => ?_, fun heq => heq ▸ rfl⟩
  by_cases hmem : other ∈ vocabulary.words
  · obtain ⟨id', -, hother, hid'⟩ := exists_symbolOf hmem
    obtain rfl : id = id' := by omega
    exact Option.some.inj (hword.symm.trans hother)
  · rw [symbolOf_of_not_mem hmem] at heq
    omega

/-- The larger vocabulary has the words of the vocabulary under the same numbers. -/
def Extends (larger vocabulary : Vocabulary) : Prop :=
  larger.index.Extends vocabulary.index

/-- A vocabulary extends itself. -/
theorem Extends.refl (vocabulary : Vocabulary) : vocabulary.Extends vocabulary :=
  DenseIndex.Extends.refl _

/-- What extends an extension extends the vocabulary. -/
theorem Extends.trans {vocabulary larger largest : Vocabulary} (h : largest.Extends larger)
    (h' : larger.Extends vocabulary) : largest.Extends vocabulary :=
  DenseIndex.Extends.trans h h'

/-- A stored word has the same symbol in a larger vocabulary. -/
theorem Extends.symbolOf {larger vocabulary : Vocabulary} (h : larger.Extends vocabulary)
    {word : String} (hword : word ∈ vocabulary.words) :
    larger.symbolOf word = vocabulary.symbolOf word := by
  obtain ⟨id, -, hid⟩ := DenseIndex.exists_find? hword
  have hlarger : larger.find? word = some id := DenseIndex.Extends.find? h hid
  rw [symbolOf_of_find? hlarger, symbolOf_of_find? hid]

/-- A word is stored in the index of the vocabulary. -/
theorem intern_eq (vocabulary : Vocabulary) (word : String) :
    (vocabulary.intern word).1.index = (vocabulary.index.insert word).1 ∧
      (vocabulary.intern word).2 = (vocabulary.index.insert word).2 := by
  unfold intern
  split
  rename_i index id h
  exact ⟨(congrArg Prod.fst h).symm, (congrArg Prod.snd h).symm⟩

/-- A word that is stored takes no number away. -/
theorem extends_intern (vocabulary : Vocabulary) (word : String) :
    (vocabulary.intern word).1.Extends vocabulary := by
  unfold Extends
  rw [(vocabulary.intern_eq word).1]
  exact DenseIndex.extends_insert _ word

/-- The words are those from before and the one that was stored. -/
theorem mem_words_intern {vocabulary : Vocabulary} {word w : String} :
    w ∈ (vocabulary.intern word).1.words ↔ w ∈ vocabulary.words ∨ w = word := by
  unfold words
  rw [(vocabulary.intern_eq word).1]
  exact DenseIndex.mem_insert

/-- A word is given the symbol that it has in any later vocabulary. -/
theorem snd_intern {vocabulary larger : Vocabulary} {word : String}
    (h : larger.Extends (vocabulary.intern word).1) :
    ((vocabulary.intern word).2 : Int) = larger.symbolOf word := by
  rw [h.symbolOf (mem_words_intern.2 (Or.inr rfl))]
  have hfind := vocabulary.index.find?_insert_self word
  rw [← (vocabulary.intern_eq word).1, ← (vocabulary.intern_eq word).2] at hfind
  exact (symbolOf_of_find? hfind).symm

/-- A word that is there already changes nothing. -/
theorem fst_intern_of_mem {vocabulary : Vocabulary} {word : String} (h : word ∈ vocabulary.words) :
    (vocabulary.intern word).1 = vocabulary := by
  obtain ⟨id, -, hid⟩ := DenseIndex.exists_find? h
  have hindex := (vocabulary.intern_eq word).1
  rw [DenseIndex.insert_of_find? hid] at hindex
  generalize (vocabulary.intern word).1 = after at hindex ⊢
  cases after
  cases vocabulary
  cases hindex
  rfl

/-- Words that are stored take no number away. -/
theorem extends_internAll (vocabulary : Vocabulary) (words : List String) :
    (vocabulary.internAll words).1.Extends vocabulary := by
  induction words generalizing vocabulary with
  | nil => exact .refl vocabulary
  | cons word rest ih =>
    exact (ih (vocabulary.intern word).1).trans (vocabulary.extends_intern word)

/-- The words are those from before and those that were stored. -/
theorem mem_words_internAll {vocabulary : Vocabulary} {words : List String} {w : String} :
    w ∈ (vocabulary.internAll words).1.words ↔ w ∈ vocabulary.words ∨ w ∈ words := by
  induction words generalizing vocabulary with
  | nil => simp [internAll]
  | cons word rest ih =>
    show w ∈ ((vocabulary.intern word).1.internAll rest).1.words ↔ _
    rw [ih, mem_words_intern, List.mem_cons, or_assoc]

/-- Words are read as the symbols that they have in any vocabulary that comes later. -/
theorem snd_internAll {vocabulary larger : Vocabulary} {words : List String}
    (h : larger.Extends (vocabulary.internAll words).1) :
    (vocabulary.internAll words).2 = words.map larger.symbolOf := by
  induction words generalizing vocabulary with
  | nil => rfl
  | cons word rest ih =>
    have hword := snd_intern (h.trans (extends_internAll (vocabulary.intern word).1 rest))
    rw [List.map_cons, ← hword, ← ih h]
    rfl

end PhraseTable.Vocabulary
