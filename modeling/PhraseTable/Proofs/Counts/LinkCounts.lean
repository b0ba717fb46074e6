import Mathlib.Algebra.BigOperators.Group.Finset.Piecewise
import PhraseTable.Proofs.AlignedPair
import PhraseTable.Proofs.Counts.Accounting

/-!
# Word counts in terms of links

What a sentence pair adds to a joint count is said here without any order: its links are a set, and
every link joins two positions. `SentenceContent.pairCount` counts the links between positions of
the two words, and for the null word the positions that no link touches. `countP_wordPairs` says
that counting a sentence pair position by position comes to the same, and
`pairCount_eq_sum_links` that this is so for all sentences of a run together.
-/

set_option autoImplicit false

namespace PhraseTable

/-- A sentence pair as it is given, with links in any order and with repetitions. -/
structure LinkedSentence where
  source : List Int
  target : List Int
  links : List RawLink

/-- What a sentence pair says, whatever the order and the repetitions of its links. -/
structure SentenceContent where
  source : List Int
  target : List Int
  links : Finset RawLink
deriving DecidableEq

namespace SentenceContent

/-- The number of links between positions of the two words. -/
def linked (content : SentenceContent) (source target : Int) : Nat :=
  (content.links.filter fun link =>
    content.source[link.source.toNat]? = some source ∧
      content.target[link.target.toNat]? = some target).card

/-- The number of positions of a source word that occur in no link. -/
def unlinkedSource (content : SentenceContent) (source : Int) : Nat :=
  ((Finset.range content.source.length).filter fun i : Nat =>
    content.source[i]? = some source ∧ ∀ link ∈ content.links, link.source ≠ i).card

/-- The number of positions of a target word that occur in no link. -/
def unlinkedTarget (content : SentenceContent) (target : Int) : Nat :=
  ((Finset.range content.target.length).filter fun j : Nat =>
    content.target[j]? = some target ∧ ∀ link ∈ content.links, link.target ≠ j).card

/-- What a sentence pair adds to the joint count of two words. -/
def pairCount (content : SentenceContent) (source target : Int) : Nat :=
  content.linked source target +
    (if target = nullWord then content.unlinkedSource source else 0) +
    (if source = nullWord then content.unlinkedTarget target else 0)

end SentenceContent

namespace LinkedSentence

/-- All links lie inside the sentence pair. -/
def InRange (sentence : LinkedSentence) : Prop :=
  ∀ link ∈ sentence.links, link.InRange sentence.source.length sentence.target.length

instance (sentence : LinkedSentence) : Decidable sentence.InRange :=
  inferInstanceAs (Decidable (∀ link ∈ sentence.links, _))

/-- What a sentence with links says: its words, and the set of its links. -/
def content (sentence : LinkedSentence) : SentenceContent :=
  ⟨sentence.source, sentence.target, sentence.links.toFinset⟩

/-- What sentence pairs together add to the joint count of two words. -/
def pairTotal (sentences : List LinkedSentence) (source target : Int) : Nat :=
  (sentences.map fun sentence => sentence.content.pairCount source target).sum

/-- The sentence pair that is counted. -/
def build (sentence : LinkedSentence) : Except SentenceError SentencePair :=
  SentencePair.ofLinks sentence.source sentence.target sentence.links

end LinkedSentence

/-! ## Counting in lists and in sets -/

/-- The members of a list are counted by counting them key by key. -/
theorem sum_countP_key {α : Type} (xs : List α) (key : α → Nat) (p : α → Bool) {n : Nat}
    (hkey : ∀ x ∈ xs, key x < n) :
    ∑ i ∈ Finset.range n, xs.countP (fun x => decide (key x = i) && p x) = xs.countP p := by
  induction xs with
  | nil => simp
  | cons x rest ih =>
    have hlt := hkey x List.mem_cons_self
    have hone : ∑ i ∈ Finset.range n, (if (decide (key x = i) && p x) = true then 1 else 0) =
        if p x = true then 1 else 0 := by
      cases p x with
      | false => simp
      | true => simp [hlt]
    simp only [List.countP_cons, Finset.sum_add_distrib]
    rw [ih fun y hy => hkey y (List.mem_cons_of_mem x hy), hone]

/-- A list without repetitions counts as its set does. -/
theorem card_filter_toFinset {α : Type} [DecidableEq α] {xs : List α} (hxs : xs.Nodup)
    (p : α → Prop) [DecidablePred p] :
    (xs.toFinset.filter p).card = xs.countP fun x => decide (p x) := by
  rw [List.countP_eq_length_filter, ← List.toFinset_card_of_nodup (hxs.filter _)]
  congr 1
  ext x
  simp

/-- Positions are counted by a sum over all of them. -/
theorem countP_range (n : Nat) (p : Nat → Bool) :
    (List.range n).countP p = ∑ i ∈ Finset.range n, if p i then 1 else 0 := by
  induction n with
  | zero => rfl
  | succ n ih =>
    rw [List.range_succ, List.countP_append, ih, Finset.sum_range_succ, List.countP_singleton]

/-! ## One sentence pair -/

namespace AlignedPair

variable {pair : AlignedPair}

/-- The word at a source position within the pair is found in its list. -/
theorem sourceAt_eq_iff {i : Nat} (hi : i < pair.source.length) {word : Int} :
    pair.sourceAt i = word ↔ pair.source[i]? = some word := by
  simp [sourceAt, List.getElem?_eq_getElem hi]

/-- The word at a target position within the pair is found in its list. -/
theorem targetAt_eq_iff {j : Nat} (hj : j < pair.target.length) {word : Int} :
    pair.targetAt j = word ↔ pair.target[j]? = some word := by
  simp [targetAt, List.getElem?_eq_getElem hj]

/-- A source position without targets is one without links. -/
theorem targetsOf_eq_nil_iff {i : Nat} :
    pair.targetsOf i = [] ↔ ∀ link ∈ pair.links, link.source ≠ i := by
  simp [targetsOf, List.filterMap_eq_nil_iff]

/-- A target position without sources is one without links. -/
theorem sourcesOf_eq_nil_iff {j : Nat} :
    pair.sourcesOf j = [] ↔ ∀ link ∈ pair.links, link.target ≠ j := by
  simp [sourcesOf, List.filterMap_eq_nil_iff]

/-- The targets of a position are counted by its links. -/
theorem countP_targetsOf (i : Nat) (p : Nat → Bool) :
    (pair.targetsOf i).countP p =
      pair.links.countP fun link => decide (link.source = i) && p link.target := by
  unfold targetsOf
  rw [List.countP_filterMap]
  refine List.countP_congr fun link _ => ?_
  by_cases h : link.source = i <;> simp [h]

/-- A source position counts its links to the target word, or itself if it has no links and is
asked for with the null word. -/
theorem countP_wordPairsAt (i : Nat) (source target : Int) :
    (pair.wordPairsAt i).countP (· = (source, target)) =
      (pair.links.countP fun link => decide (link.source = i) &&
        decide (pair.sourceAt link.source = source ∧ pair.targetAt link.target = target)) +
      if pair.targetsOf i = [] ∧ pair.sourceAt i = source ∧ nullWord = target then 1 else 0 := by
  have hlinks : (pair.links.countP fun link => decide (link.source = i) &&
        decide (pair.sourceAt link.source = source ∧ pair.targetAt link.target = target)) =
      (pair.targetsOf i).countP fun j =>
        decide (pair.sourceAt i = source ∧ pair.targetAt j = target) := by
    rw [countP_targetsOf]
    refine List.countP_congr fun link _ => ?_
    by_cases h : link.source = i
    · subst h
      rfl
    · simp [h]
  rw [hlinks]
  unfold wordPairsAt
  split
  · rename_i hnil
    rw [hnil]
    by_cases h : pair.sourceAt i = source ∧ nullWord = target <;> simp [h]
  · rename_i hsome
    rw [if_neg fun h => hsome h.1, List.countP_map]
    refine List.countP_congr fun j _ => ?_
    simp

/-- What a sentence pair says of its links. -/
def content (pair : AlignedPair) : SentenceContent :=
  ⟨pair.source, pair.target, (pair.links.map Link.raw).toFinset⟩

/-- What holds of the links of a pair is said of their numbers. -/
theorem forall_mem_content_links {p : RawLink → Prop} :
    (∀ link ∈ pair.content.links, p link) ↔ ∀ link ∈ pair.links, p link.raw := by
  simp [content]

/-- The links between two words are counted in the list of links. -/
theorem linked_content (source target : Int) :
    pair.content.linked source target = pair.links.countP fun link =>
      decide (pair.sourceAt link.source = source ∧ pair.targetAt link.target = target) := by
  have himage : pair.content.links = pair.links.toFinset.image Link.raw := by
    ext raw
    simp [content]
  unfold SentenceContent.linked
  rw [himage, Finset.filter_image,
    Finset.card_image_of_injective _ fun _ _ => Link.raw_injective,
    card_filter_toFinset pair.nodup]
  refine List.countP_congr fun link hlink => ?_
  obtain ⟨hi, hj⟩ := pair.within link hlink
  rw [decide_eq_true_eq, decide_eq_true_eq, sourceAt_eq_iff hi, targetAt_eq_iff hj]
  rfl

/-- The source positions without links are counted by a sum over all positions. -/
theorem unlinkedSource_content (source : Int) :
    pair.content.unlinkedSource source =
      ∑ i ∈ Finset.range pair.source.length,
        if pair.targetsOf i = [] ∧ pair.sourceAt i = source then 1 else 0 := by
  unfold SentenceContent.unlinkedSource
  rw [Finset.card_filter]
  refine Finset.sum_congr rfl fun i hi => if_congr ?_ rfl rfl
  rw [forall_mem_content_links, sourceAt_eq_iff (Finset.mem_range.1 hi), targetsOf_eq_nil_iff,
    and_comm]
  simp [content, Link.raw]

/-- The target positions without links are counted by a sum over all positions. -/
theorem unlinkedTarget_content (target : Int) :
    pair.content.unlinkedTarget target =
      ∑ j ∈ Finset.range pair.target.length,
        if pair.sourcesOf j = [] ∧ pair.targetAt j = target then 1 else 0 := by
  unfold SentenceContent.unlinkedTarget
  rw [Finset.card_filter]
  refine Finset.sum_congr rfl fun j hj => if_congr ?_ rfl rfl
  rw [forall_mem_content_links, targetAt_eq_iff (Finset.mem_range.1 hj), sourcesOf_eq_nil_iff,
    and_comm]
  simp [content, Link.raw]

/-- The word pairs of the source positions are the links and the source positions without links. -/
theorem countP_wordPairsAt_range (source target : Int) :
    ((List.range pair.source.length).flatMap pair.wordPairsAt).countP (· = (source, target)) =
      pair.content.linked source target +
        if target = nullWord then pair.content.unlinkedSource source else 0 := by
  have hsum : ((List.range pair.source.length).flatMap pair.wordPairsAt).countP
        (· = (source, target)) =
      ∑ i ∈ Finset.range pair.source.length,
        (pair.wordPairsAt i).countP (· = (source, target)) := by
    rw [List.countP_flatMap]
    rfl
  simp only [hsum, countP_wordPairsAt, Finset.sum_add_distrib]
  rw [sum_countP_key pair.links Link.source _ fun link hlink => (pair.within link hlink).1,
    ← linked_content, unlinkedSource_content]
  congr 1
  split
  · rename_i hnull
    exact Finset.sum_congr rfl fun i _ => if_congr (by simp [hnull]) rfl rfl
  · rename_i hnull
    exact Finset.sum_eq_zero fun i _ => if_neg fun h => hnull h.2.2.symm

/-- The word pairs of the target positions without links all have the null word. -/
theorem countP_unlinkedTargets (source target : Int) :
    ((((List.range pair.target.length).filter fun j => (pair.sourcesOf j).isEmpty).map
      fun j => (nullWord, pair.targetAt j)).countP (· = (source, target))) =
      if source = nullWord then pair.content.unlinkedTarget target else 0 := by
  rw [List.countP_map, List.countP_filter, countP_range, unlinkedTarget_content]
  split
  · rename_i hnull
    refine Finset.sum_congr rfl fun j _ => if_congr ?_ rfl rfl
    simp [hnull, and_comm]
  · rename_i hnull
    refine Finset.sum_eq_zero fun j _ => if_neg ?_
    simp [Ne.symm hnull]

/-- Counting a sentence pair position by position, its words are counted as its links say. -/
theorem countP_wordPairs (source target : Int) :
    pair.wordPairs.countP (· = (source, target)) = pair.content.pairCount source target := by
  unfold wordPairs
  rw [List.countP_append, countP_wordPairsAt_range, countP_unlinkedTargets]
  rfl

end AlignedPair

/-! ## All sentence pairs of a run -/

namespace LinkedSentence

/-- A sentence pair can be built if all of its links lie inside. -/
theorem exists_build {sentence : LinkedSentence} (h : sentence.InRange) :
    ∃ pair : SentencePair, sentence.build = .ok pair := by
  obtain ⟨pair, hpair⟩ := AlignedPair.exists_ofLinks h
  refine ⟨pair, ?_⟩
  unfold build SentencePair.ofLinks
  rw [hpair]
  rfl

/-- What is built says what was given. -/
theorem content_of_build {sentence : LinkedSentence} {pair : SentencePair}
    (h : sentence.build = .ok pair) : AlignedPair.content pair = sentence.content := by
  have hpair : AlignedPair.ofLinks sentence.source sentence.target sentence.links = .ok pair := by
    unfold build SentencePair.ofLinks at h
    cases hof : AlignedPair.ofLinks sentence.source sentence.target sentence.links with
    | error link =>
      rw [hof] at h
      cases h
    | ok built =>
      rw [hof] at h
      cases h
      rfl
  obtain ⟨hsource, htarget, links, hraws, hlinks⟩ := AlignedPair.ofLinks_eq_ok hpair
  unfold AlignedPair.content content
  rw [hsource, htarget, hlinks, ← hraws]
  congr 1
  ext raw
  simp

/-- Each of these sentence pairs was built from the sentence at its place. -/
def Built (sentences : List LinkedSentence) (pairs : List SentencePair) : Prop :=
  List.Forall₂ (fun sentence pair => sentence.build = .ok pair) sentences pairs

/-- Sentences with all links in range are built. -/
theorem exists_built {sentences : List LinkedSentence}
    (h : ∀ sentence ∈ sentences, sentence.InRange) :
    ∃ pairs : List SentencePair, Built sentences pairs := by
  induction sentences with
  | nil => exact ⟨[], .nil⟩
  | cons sentence rest ih =>
    obtain ⟨pair, hpair⟩ := exists_build (h sentence List.mem_cons_self)
    obtain ⟨pairs, hpairs⟩ := ih fun other hother => h other (List.mem_cons_of_mem sentence hother)
    exact ⟨pair :: pairs, .cons hpair hpairs⟩

/-- The pairs say what the sentences say that they were built from. -/
theorem Built.map_content {sentences : List LinkedSentence} {pairs : List SentencePair}
    (h : Built sentences pairs) : pairs.map AlignedPair.content = sentences.map content := by
  induction h with
  | nil => rfl
  | cons hpair _ ih => rw [List.map_cons, List.map_cons, ih, content_of_build hpair]

end LinkedSentence

/-- The operations count these sentence pairs, in any order and grouping, and no word pairs by
themselves. -/
structure CountOp.Cover (ops : List CountOp) (pairs : List SentencePair) : Prop where
  sentences_only : ∀ source target : Int, CountOp.addWordPair source target ∉ ops
  perm : (ops.flatMap CountOp.sentences).Perm pairs

/-- The word pairs that are counted come from the sentence pairs alone. -/
theorem CountOp.Cover.perm_wordPairs {ops : List CountOp} {pairs : List SentencePair}
    (h : Cover ops pairs) :
    (ops.flatMap CountOp.wordPairs).Perm (pairs.flatMap AlignedPair.wordPairs) := by
  have hops : ops.flatMap CountOp.wordPairs =
      (ops.flatMap CountOp.sentences).flatMap AlignedPair.wordPairs := by
    rw [List.flatMap_assoc]
    refine List.flatMap_congr fun op hop => ?_
    cases op with
    | addWordPair source target => exact absurd hop (h.sentences_only source target)
    | _ => rfl
  rw [hops]
  exact h.perm.flatMap_right _

/-- Sentence pairs that say the same, in whatever order, add the same to every joint count. -/
theorem LinkedSentence.pairTotal_congr {sentences rewritten : List LinkedSentence}
    (h : (rewritten.map content).Perm (sentences.map content)) (source target : Int) :
    pairTotal rewritten source target = pairTotal sentences source target := by
  have hsum := (h.map fun content => content.pairCount source target).sum_eq
  rw [List.map_map, List.map_map] at hsum
  exact hsum

/-- Two words stand among the counted word pairs as often as the links of all sentences say. -/
theorem LinkedSentence.Built.countP_wordPairs {sentences : List LinkedSentence}
    {pairs : List SentencePair} (h : Built sentences pairs) (source target : Int) :
    (pairs.flatMap AlignedPair.wordPairs).countP (· = (source, target)) =
      pairTotal sentences source target := by
  have hcontents : pairTotal sentences source target =
      ((pairs.map AlignedPair.content).map fun content => content.pairCount source target).sum := by
    rw [h.map_content, List.map_map]
    rfl
  rw [hcontents, List.countP_flatMap, List.map_map]
  congr 1
  exact List.map_congr_left fun pair _ => AlignedPair.countP_wordPairs source target

namespace Counts

/-- A joint count is told by the links of the sentence pairs, and missing if they tell of none. -/
theorem pairCount?_wordsAfter (config : Config) {ops : List CountOp}
    {sentences : List LinkedSentence} {pairs : List SentencePair}
    (hbuilt : LinkedSentence.Built sentences pairs) (hcover : CountOp.Cover ops pairs)
    (source target : Int) :
    (wordsAfter config ops).pairCount? source target =
      if LinkedSentence.pairTotal sentences source target = 0 then none
      else some (LinkedSentence.pairTotal sentences source target : Int) := by
  have hcounted := (counted_wordsAfter config ops).perm hcover.perm_wordPairs
  rw [← hbuilt.countP_wordPairs]
  exact Tally.Tracks.count?_eq hcounted.pairs (source, target)

/-- **Word counts mean what the links say.** Sentence pairs with all links inside can be built, and
however they are counted, a joint count is the number of different links between the two words,
with the positions without links for the null word. It stays what it is when the sentence pairs
come in another order, or their links in another order or more than once. -/
theorem pairCount_eq_sum_links (config : Config) (sentences : List LinkedSentence)
    (hrange : ∀ sentence ∈ sentences, sentence.InRange) :
    (∃ pairs : List SentencePair, LinkedSentence.Built sentences pairs) ∧
      ∀ (pairs : List SentencePair) (ops : List CountOp),
        LinkedSentence.Built sentences pairs → CountOp.Cover ops pairs →
        (∀ source target : Int, ((wordsAfter config ops).pairCount? source target).getD 0 =
          (LinkedSentence.pairTotal sentences source target : Int)) ∧
        ∀ (rewritten : List LinkedSentence) (pairs' : List SentencePair) (ops' : List CountOp),
          (rewritten.map LinkedSentence.content).Perm (sentences.map LinkedSentence.content) →
          LinkedSentence.Built rewritten pairs' → CountOp.Cover ops' pairs' →
          ∀ source target : Int, (wordsAfter config ops').pairCount? source target =
            (wordsAfter config ops).pairCount? source target := by
  refine ⟨LinkedSentence.exists_built hrange, fun pairs ops hbuilt hcover => ⟨?_, ?_⟩⟩
  · intro source target
    rw [pairCount?_wordsAfter config hbuilt hcover]
    split
    · rename_i hzero
      rw [hzero]
      rfl
    · rfl
  · intro rewritten pairs' ops' hsame hbuilt' hcover' source target
    rw [pairCount?_wordsAfter config hbuilt hcover, pairCount?_wordsAfter config hbuilt' hcover',
      LinkedSentence.pairTotal_congr hsame]

/-- Two sentence pairs, one of which has the null word among its own words on both sides, counted
together and one by one. -/
theorem pairCount_eq_sum_links_null_word :
    ∃ first second again : SentencePair,
      LinkedSentence.Built
        [⟨[7, 0, 7], [8, 0], [⟨0, 0⟩, ⟨2, 0⟩, ⟨0, 0⟩]⟩, ⟨[7], [9], []⟩] [first, second] ∧
      LinkedSentence.Built
        [⟨[7], [9], []⟩, ⟨[7, 0, 7], [8, 0], [⟨2, 0⟩, ⟨2, 0⟩, ⟨0, 0⟩]⟩] [second, again] ∧
      ((wordsAfter default [.countSentences [first, second]]).pairCount? 7 8).getD 0 = 2 ∧
      ((wordsAfter default [.countSentences [first, second]]).pairCount? 0 0).getD 0 = 2 ∧
      ((wordsAfter default [.countSentences [first, second]]).pairCount? 7 0).getD 0 = 1 ∧
      ((wordsAfter default [.countSentences [first, second]]).pairCount? 7 9).getD 0 = 0 ∧
      (wordsAfter default [.countSentence second, .startPass 7, .countSentence again]).pairCount?
          7 8 =
        (wordsAfter default [.countSentences [first, second]]).pairCount? 7 8 := by
  have hrange : ∀ sentence ∈ ([⟨[7, 0, 7], [8, 0], [⟨0, 0⟩, ⟨2, 0⟩, ⟨0, 0⟩]⟩,
      ⟨[7], [9], []⟩, ⟨[7, 0, 7], [8, 0], [⟨2, 0⟩, ⟨2, 0⟩, ⟨0, 0⟩]⟩] : List LinkedSentence),
      sentence.InRange := by
    decide
  obtain ⟨first, hfirst⟩ := LinkedSentence.exists_build (hrange _ (.head _))
  obtain ⟨second, hsecond⟩ := LinkedSentence.exists_build (hrange _ (.tail _ (.head _)))
  obtain ⟨again, hagain⟩ := LinkedSentence.exists_build (hrange _ (.tail _ (.tail _ (.head _))))
  have hbuilt : LinkedSentence.Built [_, _] [first, second] := .cons hfirst (.cons hsecond .nil)
  have hbuilt' : LinkedSentence.Built [_, _] [second, again] := .cons hsecond (.cons hagain .nil)
  obtain ⟨htotal, hsame⟩ := (pairCount_eq_sum_links default _ (by decide)).2 _
    [.countSentences [first, second]] hbuilt ⟨by simp, .refl _⟩
  exact ⟨first, second, again, hbuilt, hbuilt', htotal 7 8, htotal 0 0, htotal 7 0, htotal 7 9,
    hsame _ _ _ (by decide) hbuilt' ⟨by simp, .refl _⟩ 7 8⟩

end Counts

end PhraseTable
