import PhraseTable.Proofs.Counts.LinkCounts
import PhraseTable.Score.Feature

/-!
# The two directions of translation

Everything that is counted or scored in one direction is counted or scored in the other one as well.
The mirror of a pair has its two sides and the ends of its links exchanged, and keeps the order of
the links. `score_mirror` says that a feature of a pair is the opposite feature of its mirror, and
`Counted.mirror` that word counts of mirrored sentence pairs are those of the sentence pairs with
the two sides exchanged. A sentence pair is counted source side first, so its mirror counts the
mirrored word pairs in another order (`perm_wordPairs_mirror`).
-/

set_option autoImplicit false

namespace PhraseTable

/-! ## Mirrored pairs -/

/-- The link with its ends exchanged, by its numbers. -/
def RawLink.mirror (link : RawLink) : RawLink := ⟨link.target, link.source⟩

/-- The link with its ends exchanged. -/
def Link.mirror (link : Link) : Link := ⟨link.target, link.source⟩

/-- Different links stay different in the mirror. -/
theorem Link.mirror_injective : Function.Injective mirror := by
  intro link other h
  cases link
  cases other
  simp only [mirror, Link.mk.injEq] at h
  rw [h.1, h.2]

namespace AlignedPair

/-- The pair with its sides and the ends of its links exchanged. -/
def mirror (pair : AlignedPair) : AlignedPair where
  source := pair.target
  target := pair.source
  links := pair.links.map Link.mirror
  within := by
    intro link hlink
    obtain ⟨other, hother, rfl⟩ := List.mem_map.1 hlink
    have hin := pair.within other hother
    exact ⟨hin.2, hin.1⟩
  nodup := pair.nodup.map Link.mirror_injective

variable {source target : List Int} {raws : List RawLink} {pair : AlignedPair}

/-- Mirrored links make the mirrored pair, with repetitions left out in the same places. -/
theorem ofLinks_mirror (h : ofLinks source target raws = .ok pair) :
    ofLinks target source (raws.map RawLink.mirror) = .ok pair.mirror := by
  obtain ⟨hsource, htarget, links, hraws, hlinks⟩ := ofLinks_eq_ok h
  refine ofLinks_eq_ok_iff.2 ⟨htarget, hsource, links.map Link.mirror, ?_, ?_⟩
  · rw [← hraws, List.map_map, List.map_map]
    rfl
  · rw [eraseDups_map Link.mirror_injective, ← hlinks]
    rfl

/-- Targets in the mirror are sources. -/
@[simp] theorem targetsOf_mirror (pair : AlignedPair) (j : Nat) :
    pair.mirror.targetsOf j = pair.sourcesOf j :=
  List.filterMap_map

/-- Sources in the mirror are targets. -/
@[simp] theorem sourcesOf_mirror (pair : AlignedPair) (i : Nat) :
    pair.mirror.sourcesOf i = pair.targetsOf i :=
  List.filterMap_map

/-- Source symbols in the mirror are target symbols. -/
@[simp] theorem sourceAt_mirror (pair : AlignedPair) (j : Nat) :
    pair.mirror.sourceAt j = pair.targetAt j := rfl

/-- Target symbols in the mirror are source symbols. -/
@[simp] theorem targetAt_mirror (pair : AlignedPair) (i : Nat) :
    pair.mirror.targetAt i = pair.sourceAt i := rfl

/-- The mirrored pair adds as much to the joint count of the exchanged words. -/
theorem pairCount_content_mirror (pair : AlignedPair) (source target : Int) :
    pair.mirror.content.pairCount target source = pair.content.pairCount source target := by
  have hlinked : pair.mirror.content.linked target source = pair.content.linked source target := by
    rw [linked_content, linked_content]
    show (pair.links.map Link.mirror).countP _ = _
    rw [List.countP_map]
    apply List.countP_congr
    intro link _
    show decide (pair.targetAt link.target = target ∧ pair.sourceAt link.source = source) ↔
      decide (pair.sourceAt link.source = source ∧ pair.targetAt link.target = target)
    rw [decide_eq_true_iff, decide_eq_true_iff, and_comm]
  have hsource : pair.mirror.content.unlinkedSource target =
      pair.content.unlinkedTarget target := by
    rw [unlinkedSource_content, unlinkedTarget_content]
    simp only [targetsOf_mirror, sourceAt_mirror]
    rfl
  have htarget : pair.mirror.content.unlinkedTarget source =
      pair.content.unlinkedSource source := by
    rw [unlinkedSource_content, unlinkedTarget_content]
    simp only [sourcesOf_mirror, targetAt_mirror]
    rfl
  unfold SentenceContent.pairCount
  rw [hlinked, hsource, htarget]
  omega

/-- The mirror counts the same word pairs with their words exchanged, in some order. -/
theorem perm_wordPairs_mirror (pair : AlignedPair) :
    pair.mirror.wordPairs.Perm (pair.wordPairs.map Prod.swap) := by
  apply (@List.perm_iff_count _ instBEqOfDecidableEq _ _ _).2
  rintro ⟨target, source⟩
  calc pair.mirror.wordPairs.countP (· = (target, source))
      = pair.wordPairs.countP (· = (source, target)) := by
        rw [countP_wordPairs, countP_wordPairs, pairCount_content_mirror]
    _ = (pair.wordPairs.map Prod.swap).countP (· = (target, source)) := by
        rw [List.countP_map]
        apply List.countP_congr
        rintro ⟨f, e⟩ _
        simp [and_comm]

end AlignedPair

/-! ## Counts of mirrored sentence pairs -/

namespace LinkedSentence

/-- The sentence pair with its sides and the ends of its links exchanged. -/
def mirror (sentence : LinkedSentence) : LinkedSentence :=
  ⟨sentence.target, sentence.source, sentence.links.map RawLink.mirror⟩

/-- A sentence is built as the aligned pair of its links. -/
theorem build_eq_ok_iff {sentence : LinkedSentence} {pair : SentencePair} :
    sentence.build = .ok pair ↔
      AlignedPair.ofLinks sentence.source sentence.target sentence.links = .ok pair := by
  unfold build SentencePair.ofLinks
  cases AlignedPair.ofLinks sentence.source sentence.target sentence.links with
  | error link => exact iff_of_false nofun nofun
  | ok built => simp [Except.mapError]

/-- A mirrored sentence builds the mirrored pair. -/
theorem build_mirror {sentence : LinkedSentence} {pair : SentencePair}
    (h : sentence.build = .ok pair) : sentence.mirror.build = .ok (AlignedPair.mirror pair) :=
  build_eq_ok_iff.2 (AlignedPair.ofLinks_mirror (build_eq_ok_iff.1 h))

/-- Mirrored sentences build the mirrored pairs. -/
theorem Built.mirror {sentences : List LinkedSentence} {pairs : List SentencePair}
    (h : Built sentences pairs) :
    Built (sentences.map LinkedSentence.mirror) (pairs.map AlignedPair.mirror) := by
  induction h with
  | nil => exact .nil
  | cons hpair _ ih => exact .cons (build_mirror hpair) ih

end LinkedSentence

/-- The table for the opposite direction. -/
def LexicalTable.mirror (table : LexicalTable) : LexicalTable where
  sourceGivenTarget f e := table.targetGivenSource e f
  targetGivenSource f e := table.sourceGivenTarget e f

namespace WordCounts

/-- The counts of one direction are those of the other one. -/
structure Mirrors (words words' : WordCounts) : Prop where
  pairCount : ∀ source target : Int,
    words'.pairCount? target source = words.pairCount? source target
  sourceCount : ∀ target : Int, words'.sourceCount? target = words.targetCount? target
  targetCount : ∀ source : Int, words'.targetCount? source = words.sourceCount? source

/-- Words that counted exchanged pairs are mirrored word counts. -/
theorem Counted.mirror {words words' : WordCounts} {pairs : List (Int × Int)}
    (h : words.Counted pairs) (h' : words'.Counted (pairs.map Prod.swap)) :
    words.Mirrors words' where
  pairCount source target :=
    Tally.Tracks.count?_map Prod.swap_injective h.pairs h'.pairs (source, target)
  sourceCount target := by
    have hwords : (pairs.map Prod.swap).map Prod.fst = pairs.map Prod.snd := List.map_map
    have hsources := h'.sources
    rw [hwords] at hsources
    exact Tally.Tracks.count?_congr hsources h.targets target
  targetCount source := by
    have hwords : (pairs.map Prod.swap).map Prod.snd = pairs.map Prod.fst := List.map_map
    have htargets := h'.targets
    rw [hwords] at htargets
    exact Tally.Tracks.count?_congr htargets h.sources source

/-- Mirrored word counts make the mirrored table. -/
theorem Mirrors.table {words words' : WordCounts} (h : words.Mirrors words') :
    words'.table = words.table.mirror := by
  unfold WordCounts.table LexicalTable.mirror
  simp only [LexicalTable.mk.injEq]
  constructor
  · funext f e
    rw [h.pairCount, h.targetCount]
  · funext f e
    rw [h.pairCount, h.sourceCount]

end WordCounts

/-! ## Features of mirrored phrase pairs -/

namespace PhrasePair

/-- The pair with its sides, their words and numbers, and the ends of its links exchanged. -/
def mirror (pair : PhrasePair) : PhrasePair :=
  { pair.toAlignedPair.mirror with
    sourceWords := pair.targetWords
    targetWords := pair.sourceWords
    ids := ⟨pair.ids.pair, pair.ids.target, pair.ids.source⟩ }

/-- A phrase pair is built from mirrored links as the mirror of the pair. -/
theorem ofLinks_mirror {source target : List Int} {sourceWords targetWords : List String}
    {raws : List RawLink} {pair : PhrasePair}
    (h : ofLinks source target sourceWords targetWords raws = .ok pair) :
    ofLinks target source targetWords sourceWords (raws.map RawLink.mirror) = .ok pair.mirror := by
  obtain ⟨hpair, hsourceWords, htargetWords, hids⟩ := ofLinks_eq_ok_iff.1 h
  refine ofLinks_eq_ok_iff.2 ⟨AlignedPair.ofLinks_mirror hpair, htargetWords, hsourceWords, ?_⟩
  unfold mirror
  rw [hids]
  rfl

/-- What supports a source word in the mirror supports it as a target word. -/
@[simp] theorem sourceSupports_mirror (pair : PhrasePair) (table : LexicalTable) :
    pair.mirror.sourceSupports table.mirror = pair.targetSupports table := by
  unfold sourceSupports targetSupports mirror
  simp only [AlignedPair.targetsOf_mirror, AlignedPair.sourceAt_mirror,
    AlignedPair.targetAt_mirror]
  rfl

/-- What supports a target word in the mirror supports it as a source word. -/
@[simp] theorem targetSupports_mirror (pair : PhrasePair) (table : LexicalTable) :
    pair.mirror.targetSupports table.mirror = pair.sourceSupports table := by
  unfold sourceSupports targetSupports mirror
  simp only [AlignedPair.sourcesOf_mirror, AlignedPair.sourceAt_mirror,
    AlignedPair.targetAt_mirror]
  rfl

/-- The candidates of a source word in the mirror are those of it as a target word. -/
@[simp] theorem sourceCandidates_mirror (pair : PhrasePair) (table : LexicalTable) :
    pair.mirror.sourceCandidates table.mirror = pair.targetCandidates table := rfl

/-- The candidates of a target word in the mirror are those of it as a source word. -/
@[simp] theorem targetCandidates_mirror (pair : PhrasePair) (table : LexicalTable) :
    pair.mirror.targetCandidates table.mirror = pair.sourceCandidates table := rfl

end PhrasePair

/-- The warnings, which one direction writes and the other one does not, change no weight. -/
theorem Support.value_product (config : Config) (warns : Bool) (supports : List Support) :
    (product config warns supports).value =
      supports.foldl (fun product support => product * support.floored config.minLexProb)
        (.ofFloat 1) :=
  Logged.value_foldlM _ _ _

/-- In a product a weight counts without its word. -/
theorem Support.value_product_map (config : Config) (warns : Bool) (supports : List Support) :
    (product config warns supports).value =
      (supports.map fun support => support.floored config.minLexProb).foldl (· * ·)
        (.ofFloat 1) := by
  rw [List.foldl_map]
  exact value_product config warns supports

/-- The product over all words is that of their greatest probabilities, in turn. -/
theorem Candidates.value_product_map (config : Config) (rows : List Candidates) :
    (product config rows).value =
      (rows.map fun row => Score.ofFloat (greatest config.minLexProb row.probabilities)).foldl
        (· * ·) (.ofFloat 1) := by
  rw [List.foldl_map]
  exact Logged.value_foldlM _ _ _

/-- The counts as they are for the mirrored pair. -/
def Occurrences.mirror (occurrences : Occurrences) : Occurrences :=
  ⟨occurrences.pair, occurrences.target, occurrences.source⟩

namespace Feature

/-- The same feature in the opposite direction. -/
def mirror : Feature → Feature
  | .phiSourceGivenTarget => .phiTargetGivenSource
  | .phiTargetGivenSource => .phiSourceGivenTarget
  | .lexSourceGivenTarget => .lexTargetGivenSource
  | .lexTargetGivenSource => .lexSourceGivenTarget
  | .maxLexSourceGivenTarget => .maxLexTargetGivenSource
  | .maxLexTargetGivenSource => .maxLexSourceGivenTarget

/-- A feature scores a pair as the mirrored feature scores the mirrored pair. -/
theorem score_mirror (table : LexicalTable) (config : Config) (occurrences : Occurrences)
    (pair : PhrasePair) (feature : Feature) :
    (feature.mirror.score table.mirror config occurrences.mirror pair.mirror).value =
      (feature.score table config occurrences pair).value := by
  cases feature with
  | phiSourceGivenTarget => rfl
  | phiTargetGivenSource => rfl
  | lexSourceGivenTarget =>
    show (Support.product config false (pair.mirror.targetSupports table.mirror)).value =
      (Support.product config true (pair.sourceSupports table)).value
    rw [PhrasePair.targetSupports_mirror, Support.value_product, Support.value_product]
  | lexTargetGivenSource =>
    show (Support.product config true (pair.mirror.sourceSupports table.mirror)).value =
      (Support.product config false (pair.targetSupports table)).value
    rw [PhrasePair.sourceSupports_mirror, Support.value_product, Support.value_product]
  | maxLexSourceGivenTarget => rfl
  | maxLexTargetGivenSource => rfl

end Feature

namespace Counts

/-- Operations that cover sentence pairs count the word pairs of these. -/
theorem counted_of_cover (config : Config) {ops : List CountOp} {pairs : List SentencePair}
    (h : CountOp.Cover ops pairs) :
    (wordsAfter config ops).Counted (pairs.flatMap AlignedPair.wordPairs) :=
  (counted_wordsAfter config ops).perm h.perm_wordPairs

/-- Operations that cover the mirrored sentence pairs leave mirrored word counts. -/
theorem mirrors_of_cover (config config' : Config) {ops ops' : List CountOp}
    {pairs : List SentencePair} (h : CountOp.Cover ops pairs)
    (h' : CountOp.Cover ops' (pairs.map AlignedPair.mirror)) :
    (wordsAfter config ops).Mirrors (wordsAfter config' ops') := by
  apply (counted_of_cover config h).mirror
  apply (counted_of_cover config' h').perm
  rw [List.flatMap_map, List.map_flatMap]
  exact List.Perm.flatMap (.refl pairs) fun pair _ => pair.perm_wordPairs_mirror

/-- **The directions are mirror images.** Sentence pairs are counted on one side and their mirrors
on the other, both in any order and grouping. Then the joint counts agree, the counts of source and
target words are exchanged, so are the word probabilities, and every feature of a phrase pair is
the opposite feature of the mirrored pair, as the same double. -/
theorem mirrored_counts_and_features (config config' : Config) {sentences : List LinkedSentence}
    {pairs : List SentencePair} (hbuilt : LinkedSentence.Built sentences pairs) :
    ∃ mirrored : List SentencePair,
      LinkedSentence.Built (sentences.map LinkedSentence.mirror) mirrored ∧
      ∀ ops ops' : List CountOp, CountOp.Cover ops pairs → CountOp.Cover ops' mirrored →
        (wordsAfter config ops).Mirrors (wordsAfter config' ops') ∧
        (∀ f e : Int, (wordsAfter config' ops').table.targetGivenSource e f =
          (wordsAfter config ops).table.sourceGivenTarget f e) ∧
        (∀ f e : Int, (wordsAfter config' ops').table.sourceGivenTarget e f =
          (wordsAfter config ops).table.targetGivenSource f e) ∧
        ∀ (source target : List Int) (sourceWords targetWords : List String)
          (links : List RawLink) (pair : PhrasePair),
          PhrasePair.ofLinks source target sourceWords targetWords links = .ok pair →
          ∃ opposite : PhrasePair,
            PhrasePair.ofLinks target source targetWords sourceWords
              (links.map RawLink.mirror) = .ok opposite ∧
            ∀ (scoring : Config) (occurrences : Occurrences) (feature : Feature),
              (feature.mirror.score (wordsAfter config' ops').table scoring occurrences.mirror
                opposite).value =
              (feature.score (wordsAfter config ops).table scoring occurrences pair).value := by
  refine ⟨pairs.map AlignedPair.mirror, hbuilt.mirror, ?_⟩
  intro ops ops' hcover hcover'
  have hmirrors := mirrors_of_cover config config' hcover hcover'
  rw [hmirrors.table]
  refine ⟨hmirrors, fun f e => rfl, fun f e => rfl, ?_⟩
  intro source target sourceWords targetWords links pair hpair
  refine ⟨pair.mirror, PhrasePair.ofLinks_mirror hpair, ?_⟩
  intro scoring occurrences feature
  exact Feature.score_mirror _ scoring occurrences pair feature

/-- A sentence pair with a repeated link and its mirror, which is counted in two parts of a run with
other settings, and a phrase pair with gaps and a word that has two links. -/
theorem mirrored_counts_and_features_two_links :
    ∃ pair opposite : SentencePair,
      LinkedSentence.Built [⟨[7, 0, 7], [8, 0], [⟨2, 0⟩, ⟨0, 0⟩, ⟨2, 0⟩]⟩] [pair] ∧
      LinkedSentence.Built [⟨[8, 0], [7, 0, 7], [⟨0, 2⟩, ⟨0, 0⟩, ⟨0, 2⟩]⟩] [opposite] ∧
      (wordsAfter { exact := false } [.startPass 0, .countSentence opposite]).pairCount? 8 7 =
        (wordsAfter default [.countSentences [pair]]).pairCount? 7 8 ∧
      ∃ phrases mirrored : PhrasePair,
        PhrasePair.ofLinks [7, -1, 7] [-1, 8] [] [] [⟨2, 1⟩, ⟨0, 1⟩] = .ok phrases ∧
        PhrasePair.ofLinks [-1, 8] [7, -1, 7] [] [] [⟨1, 2⟩, ⟨1, 0⟩] = .ok mirrored ∧
        (Feature.score
          (wordsAfter { exact := false } [.startPass 0, .countSentence opposite]).table default
          ⟨1, 3, 2⟩ mirrored .lexTargetGivenSource).value =
        (Feature.score (wordsAfter default [.countSentences [pair]]).table default
          ⟨1, 2, 3⟩ phrases .lexSourceGivenTarget).value := by
  have hrange : LinkedSentence.InRange ⟨[7, 0, 7], [8, 0], [⟨2, 0⟩, ⟨0, 0⟩, ⟨2, 0⟩]⟩ := by decide
  obtain ⟨pair, hpair⟩ := LinkedSentence.exists_build hrange
  have hbuilt : LinkedSentence.Built [_] [pair] := .cons hpair .nil
  obtain ⟨mirrored, hmirrored, hops⟩ :=
    mirrored_counts_and_features default { exact := false } hbuilt
  obtain ⟨opposite, hopposite⟩ : ∃ opposite : SentencePair, mirrored = [opposite] := by
    cases hmirrored with
    | cons _ hrest =>
      cases hrest
      exact ⟨_, rfl⟩
  subst hopposite
  obtain ⟨hcounts, -, -, hfeatures⟩ := hops [.countSentences [pair]]
    [.startPass 0, .countSentence opposite] ⟨by simp, .refl _⟩ ⟨by simp, .refl _⟩
  obtain ⟨phrases, hphrases⟩ : ∃ phrases : PhrasePair,
      PhrasePair.ofLinks [7, -1, 7] [-1, 8] [] [] [⟨2, 1⟩, ⟨0, 1⟩] = .ok phrases := ⟨_, rfl⟩
  obtain ⟨other, hother, hscores⟩ := hfeatures _ _ _ _ _ phrases hphrases
  exact ⟨pair, opposite, hbuilt, hmirrored, hcounts.pairCount 7 8, phrases, other, hphrases, hother,
    hscores default ⟨1, 2, 3⟩ .lexSourceGivenTarget⟩

end Counts

end PhraseTable
