import PhraseTable.Proofs.CorpusOutcome

/-!
# Numbers stand for words

A vocabulary may be asked for the number of a word in two ways: `intern` stores a word that is not
there yet, and `find?` does not. Whatever is asked in whatever order, the words stand in the order
in which they were first stored, behind the null word (`words_calls`), and every reply is the place
of its word in that row (`getElem?_calls`). Looking words up leaves no trace, so vocabularies are
equal just if the same words were first stored in the same order (`calls_number_words`).
-/

set_option autoImplicit false

namespace PhraseTable.Vocabulary

/-- A call on a vocabulary. -/
inductive Call where
  /-- Asks for the number of a word, and stores a word that has none. -/
  | intern (word : String)
  /-- Asks for the number of a word. -/
  | find (word : String)
deriving DecidableEq, Repr

namespace Call

/-- The word that a call asks for. -/
def word : Call → String
  | .intern word => word
  | .find word => word

/-- The word that a call stores. -/
def stored? : Call → Option String
  | .intern word => some word
  | .find _ => none

end Call

/-- Carries out a call. A word without a number has no reply. -/
def call (vocabulary : Vocabulary) : Call → Vocabulary × Option Nat
  | .intern word =>
    let (after, id) := vocabulary.intern word
    (after, some id)
  | .find word => (vocabulary, vocabulary.find? word)

/-- Carries out calls one after the other. -/
def calls (vocabulary : Vocabulary) : List Call → Vocabulary × List (Option Nat)
  | [] => (vocabulary, [])
  | made :: rest =>
    let (next, reply) := vocabulary.call made
    let (last, replies) := next.calls rest
    (last, reply :: replies)

/-- The words that calls store, each where it is first stored, and without the null word. -/
def storedWords (made : List Call) : List String :=
  firstsBy id [nullText] (made.filterMap Call.stored?)

/-! ## Runs of calls -/

/-- Only the calls that store a word change the vocabulary. -/
theorem fst_calls (vocabulary : Vocabulary) (made : List Call) :
    (vocabulary.calls made).1 = (vocabulary.internAll (made.filterMap Call.stored?)).1 := by
  induction made generalizing vocabulary with
  | nil => rfl
  | cons first rest ih =>
    cases first with
    | intern word => exact ih (vocabulary.intern word).1
    | find word => exact ih vocabulary

/-- The words are the null word and those that calls have stored. -/
theorem words_calls (made : List Call) :
    (empty.calls made).1.words = nullText :: storedWords made := by
  rw [fst_calls, words_internAll, newWords, words_empty]
  rfl

/-- A call replies with the number that its word has when the call is over. -/
theorem snd_call (vocabulary : Vocabulary) (made : Call) :
    (vocabulary.call made).2 = (vocabulary.call made).1.find? made.word := by
  cases made with
  | intern word =>
    have hfind := vocabulary.index.find?_insert_self word
    rw [← (vocabulary.intern_eq word).1, ← (vocabulary.intern_eq word).2] at hfind
    exact hfind.symm
  | find word => rfl

/-- Of the calls that come later, none changes the reply. -/
theorem getElem?_calls (vocabulary : Vocabulary) (front : List Call) (made : Call)
    (back : List Call) :
    (vocabulary.calls (front ++ made :: back)).2[front.length]? =
      some ((vocabulary.calls (front ++ [made])).1.find? made.word) := by
  induction front generalizing vocabulary with
  | nil => exact congrArg some (vocabulary.snd_call made)
  | cons first rest ih => exact ih (vocabulary.call first).1

/-- Calls take no number away. -/
theorem extends_calls (vocabulary : Vocabulary) (made : List Call) :
    (vocabulary.calls made).1.Extends vocabulary := by
  rw [fst_calls]
  exact extends_internAll vocabulary _

/-- A word has the number of its place in the list. -/
theorem find?_eq_idxOf? (vocabulary : Vocabulary) (word : String) :
    vocabulary.find? word = vocabulary.words.idxOf? word :=
  vocabulary.index.find?_eq_idxOf? word

/-- The stored words are those that some call stores, without the null word. -/
theorem mem_storedWords {made : List Call} {word : String} :
    word ∈ storedWords made ↔ .intern word ∈ made ∧ word ≠ nullText := by
  have hstored : word ∈ made.filterMap Call.stored? ↔ .intern word ∈ made := by
    rw [List.mem_filterMap]
    constructor
    · rintro ⟨call, hcall, hword⟩
      cases call with
      | intern stored =>
        cases hword
        exact hcall
      | find asked => cases hword
    · exact fun hcall => ⟨_, hcall, rfl⟩
  have hmem : word ∈ (storedWords made).map id ↔
      word ∈ (made.filterMap Call.stored?).map id ∧ word ∉ [nullText] :=
    mem_map_firstsBy
  simpa [hstored] using hmem

/-! ## One vocabulary and two -/

/-- What holds of a vocabulary after every run of calls, if these words were first stored in this
order behind the null word. -/
structure NumbersWords (vocabulary : Vocabulary) (stored : List String) : Prop where
  words_eq : vocabulary.words = nullText :: stored
  size_eq : vocabulary.size = stored.length + 1
  /-- No word has two numbers. -/
  nodup : (nullText :: stored).Nodup
  /-- The number that a word is given is the number of this word. -/
  word?_intern : ∀ word : String,
    (vocabulary.intern word).1.word? (vocabulary.intern word).2 = some word
  /-- Every number up to the size belongs to a word, and is found for it. -/
  find?_word? : ∀ id < vocabulary.size,
    ∃ word : String, vocabulary.word? id = some word ∧ vocabulary.find? word = some id
  find?_eq_none_iff : ∀ word : String,
    vocabulary.find? word = none ↔ word ≠ nullText ∧ word ∉ stored
  /-- A number stays with its word, whatever is asked later. -/
  word?_calls : ∀ (later : List Call) (id : Nat) (word : String),
    vocabulary.word? id = some word →
      (vocabulary.calls later).1.word? id = some word ∧
        (vocabulary.calls later).1.find? word = some id

/-- A vocabulary numbers the words behind the null word in their order. -/
theorem numbersWords_of_words_eq {vocabulary : Vocabulary} {stored : List String}
    (h : vocabulary.words = nullText :: stored) : vocabulary.NumbersWords stored where
  words_eq := h
  size_eq := by
    have hlength : vocabulary.words.length = vocabulary.size := vocabulary.index.length_toList
    rw [← hlength, h, List.length_cons]
  nodup := h ▸ vocabulary.index.nodup_toList
  word?_intern := by
    intro word
    have hfind := snd_call vocabulary (.intern word)
    exact word?_eq_some_iff.2 hfind.symm
  find?_word? := by
    intro id hid
    have hlt : id < vocabulary.index.toList.length := by
      rwa [DenseIndex.length_toList]
    have hword : vocabulary.word? id = some vocabulary.index.toList[id] := by
      rw [word?, ← DenseIndex.getElem?_toList, List.getElem?_eq_getElem hlt]
    exact ⟨_, hword, word?_eq_some_iff.1 hword⟩
  find?_eq_none_iff := by
    intro word
    have hnone : vocabulary.find? word = none ↔ word ∉ vocabulary.words :=
      DenseIndex.find?_eq_none_iff
    rw [hnone, h, List.mem_cons, not_or]
  word?_calls := by
    intro later id word hword
    have hlater := DenseIndex.Extends.find? (vocabulary.extends_calls later)
      (word?_eq_some_iff.1 hword)
    exact ⟨word?_eq_some_iff.2 hlater, hlater⟩

/-- Vocabularies are equal just when they have the same words in the same order. -/
theorem beq_iff_words {v w : Vocabulary} : (v == w) = true ↔ v.words = w.words := by
  show (v.words == w.words) = true ↔ _
  exact beq_iff_eq

/-- Equal vocabularies find the same numbers, and the numbers tell the words. -/
theorem beq_iff_find? {v w : Vocabulary} :
    (v == w) = true ↔ ∀ word : String, v.find? word = w.find? word := by
  rw [beq_iff_words]
  constructor
  · intro h word
    rw [find?_eq_idxOf?, find?_eq_idxOf?, h]
  · intro h
    apply List.ext_getElem?
    intro id
    ext word
    have hplace (u : Vocabulary) : u.words[id]? = some word ↔ u.find? word = some id :=
      DenseIndex.find?_eq_some_iff.symm
    rw [hplace, hplace, h word]

/-- **The vocabulary is a stable numbering.** After every run of calls on the empty vocabulary, the
words stand behind the null word in the order in which they were first stored, and their places are
their numbers, for good. Every reply is the number that the word has at that time, a look-up changes
nothing, and two runs leave equal vocabularies, with the same numbers for all words, just if they
stored the same words in the same order. -/
theorem calls_number_words (made : List Call) :
    (empty.calls made).1.NumbersWords (storedWords made) ∧
      (∀ word : String, word ∈ storedWords made ↔ .intern word ∈ made ∧ word ≠ nullText) ∧
      (∀ (front : List Call) (call : Call) (back : List Call),
        (empty.calls (front ++ call :: back)).2[front.length]? =
          some ((nullText :: storedWords (front ++ [call])).idxOf? call.word)) ∧
      (∀ word : String, ((empty.calls made).1.call (.find word)).1 = (empty.calls made).1) ∧
      ∀ other : List Call,
        (((empty.calls made).1 == (empty.calls other).1) = true ↔
          storedWords made = storedWords other) ∧
        (((empty.calls made).1 == (empty.calls other).1) = true ↔
          ∀ word : String, (empty.calls made).1.find? word = (empty.calls other).1.find? word) := by
  refine ⟨numbersWords_of_words_eq (words_calls made), fun word => mem_storedWords, ?_,
    fun word => rfl, fun other => ⟨?_, beq_iff_find?⟩⟩
  · intro front call back
    rw [getElem?_calls, find?_eq_idxOf?, words_calls]
  · rw [beq_iff_words, words_calls, words_calls, List.cons_eq_cons]
    exact and_iff_right rfl

/-- The null word keeps its number when it is stored, and the empty word is a word like others. -/
example :
    (empty.calls [.intern "b", .find "a", .intern nullText, .intern "b", .intern ""]).2 =
      [some 1, none, some 0, some 1, some 2] := by
  decide

end PhraseTable.Vocabulary
