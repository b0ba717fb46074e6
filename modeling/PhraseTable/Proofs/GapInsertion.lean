import PhraseTable.Proofs.Mirror

/-!
# Gaps without links

The averaged lexical weights of a phrase pair are products over its words, and a word is explained
by the symbols that it is linked to. A gap that no link touches takes no part in that, wherever it
stands: behind it all positions move on by one, in the rows and in the links alike, and the products
are over the same factors in the same order (`sourceWeights_insertSource`,
`targetWeights_insertSource`). The target side is the source side of the mirrored pair.
`lexical_weights_of_gapsInserted` has any number of gaps put in, one after the other, and the pair
built again from its rows and links.
-/

set_option autoImplicit false

namespace PhraseTable

/-! ## Positions behind an insertion -/

/-- Where a position goes when something is put in at `position`. -/
def moved (position i : Nat) : Nat :=
  if i < position then i else i + 1

/-- Different positions stay different when they move. -/
theorem moved_injective (position : Nat) : Function.Injective (moved position) := by
  intro i j h
  unfold moved at h
  split at h <;> split at h <;> omega

/-- All positions of a longer row are the new one and the old ones, which have moved. -/
theorem range_succ_eq_insertIdx {position n : Nat} (h : position ≤ n) :
    List.range (n + 1) = ((List.range n).map (moved position)).insertIdx position position := by
  apply List.ext_getElem
  · simp [List.length_insertIdx, h]
  · intro i hi hi'
    rw [List.getElem_insertIdx, List.getElem_range]
    split
    · simp [moved, *]
    · split
      · omega
      · simp only [List.getElem_map, List.getElem_range, moved]
        rw [if_neg (by omega)]
        omega

/-- The symbol of a position has moved with it. -/
theorem getD_insertIdx_moved (symbols : List Int) (position i : Nat) (symbol : Int) :
    (symbols.insertIdx position symbol).getD (moved position i) 0 = symbols.getD i 0 := by
  rw [List.getD_eq_getElem?_getD, List.getD_eq_getElem?_getD]
  unfold moved
  split
  · rename_i hlt
    rw [List.getElem?_insertIdx_of_lt hlt]
  · rename_i hge
    rw [List.getElem?_insertIdx_of_gt (by omega)]
    simp

/-- A member that is left out anyway may stand anywhere. -/
theorem filter_insertIdx_of_false {α : Type} {p : α → Bool} {x : α} (hx : p x = false)
    (position : Nat) (xs : List α) : (xs.insertIdx position x).filter p = xs.filter p := by
  induction xs generalizing position with
  | nil => cases position <;> simp [hx]
  | cons y rest ih =>
    cases position with
    | zero => simp [hx]
    | succ position => simp [List.filter_cons, ih]

/-! ## Links behind an insertion -/

/-- The written link after a source symbol was put in. -/
def RawLink.moveSource (position : Nat) (link : RawLink) : RawLink :=
  ⟨if link.source < position then link.source else link.source + 1, link.target⟩

/-- The written link after a target symbol was put in. -/
def RawLink.moveTarget (position : Nat) (link : RawLink) : RawLink :=
  ⟨link.source, if link.target < position then link.target else link.target + 1⟩

/-- The link with its source position moved. -/
def Link.moveSource (position : Nat) (link : Link) : Link :=
  ⟨moved position link.source, link.target⟩

/-- Different links stay different when they move. -/
theorem Link.moveSource_injective (position : Nat) : Function.Injective (moveSource position) := by
  intro link other h
  cases link
  cases other
  simp only [moveSource, Link.mk.injEq] at h
  rw [moved_injective position h.1, h.2]

/-- A link may be moved before or after its numbers are taken. -/
theorem Link.raw_moveSource (position : Nat) (link : Link) :
    (link.moveSource position).raw = link.raw.moveSource position := by
  simp only [raw, moveSource, RawLink.moveSource, moved, Int.ofNat_lt]
  split <;> rfl

namespace AlignedPair

variable {pair : AlignedPair} {position : Nat} {symbol : Int}

/-! ## Aligned pairs with a symbol more -/

/-- The pair with a symbol more on its source side, to which no link leads. -/
def insertSource (pair : AlignedPair) (position : Nat) (symbol : Int) : AlignedPair where
  source := pair.source.insertIdx position symbol
  target := pair.target
  links := pair.links.map (Link.moveSource position)
  within := by
    intro link hlink
    obtain ⟨other, hother, rfl⟩ := List.mem_map.1 hlink
    obtain ⟨hsource, htarget⟩ := pair.within other hother
    refine ⟨?_, htarget⟩
    simp only [Link.moveSource, moved, List.length_insertIdx]
    split <;> split <;> omega
  nodup := pair.nodup.map (Link.moveSource_injective position)

/-- The source symbol of a position has moved with it. -/
theorem sourceAt_insertSource_moved (pair : AlignedPair) (position i : Nat) (symbol : Int) :
    (pair.insertSource position symbol).sourceAt (moved position i) = pair.sourceAt i :=
  getD_insertIdx_moved pair.source position i symbol

/-- The new symbol stands where it was inserted. -/
theorem sourceAt_insertSource_self (h : position ≤ pair.source.length) :
    (pair.insertSource position symbol).sourceAt position = symbol := by
  simp [sourceAt, insertSource, List.getD_eq_getElem?_getD, List.getElem?_insertIdx_self, h]

/-- The target symbols stay where they are. -/
theorem targetAt_insertSource (pair : AlignedPair) (position j : Nat) (symbol : Int) :
    (pair.insertSource position symbol).targetAt j = pair.targetAt j := rfl

/-- The targets of a source position have moved with it. -/
theorem targetsOf_insertSource_moved (pair : AlignedPair) (position i : Nat) (symbol : Int) :
    (pair.insertSource position symbol).targetsOf (moved position i) = pair.targetsOf i := by
  unfold targetsOf insertSource
  rw [List.filterMap_map]
  apply List.filterMap_congr
  intro link _
  simp [Link.moveSource, (moved_injective position).eq_iff]

/-- The sources of a target position are moved, and stay in order. -/
theorem sourcesOf_insertSource (pair : AlignedPair) (position j : Nat) (symbol : Int) :
    (pair.insertSource position symbol).sourcesOf j =
      (pair.sourcesOf j).map (moved position) := by
  unfold sourcesOf insertSource
  rw [List.filterMap_map, List.map_filterMap]
  apply List.filterMap_congr
  intro link _
  by_cases hj : link.target = j
  · simp [Link.moveSource, hj]
  · simp [Link.moveSource, hj]

/-- Rows that were given make the pair, so they make the larger pair with the symbol put in. -/
theorem ofLinks_insertSource {source target : List Int} {raws : List RawLink}
    (h : ofLinks source target raws = .ok pair) (position : Nat) (symbol : Int) :
    ofLinks (source.insertIdx position symbol) target (raws.map (RawLink.moveSource position)) =
      .ok (pair.insertSource position symbol) := by
  obtain ⟨rfl, rfl, links, rfl, hlinks⟩ := ofLinks_eq_ok h
  refine ofLinks_eq_ok_iff.2 ⟨rfl, rfl, links.map (Link.moveSource position), ?_, ?_⟩
  · simp [Link.raw_moveSource]
  · rw [eraseDups_map (Link.moveSource_injective position), ← hlinks]
    rfl

/-! ## The factors of the averaged weights -/

/-- The factors of the averaged weight of the source phrase. -/
def sourceWeights (pair : AlignedPair) (table : LexicalTable) (least : Float) : List Score :=
  ((List.range pair.source.length).filter fun i => !Surface.isGap (pair.sourceAt i)).map fun i =>
    Support.floored least
      { word := ""
        null := table.sourceGivenTarget (pair.sourceAt i) nullWord
        linked := (pair.targetsOf i).map fun j =>
          table.sourceGivenTarget (pair.sourceAt i) (pair.targetAt j) }

/-- The factors of the averaged weight of the target phrase, which is the source phrase of the
mirrored pair. -/
def targetWeights (pair : AlignedPair) (table : LexicalTable) (least : Float) : List Score :=
  pair.mirror.sourceWeights table.mirror least

/-- A gap in the source phrase leaves the weights of the source words as they are. -/
theorem sourceWeights_insertSource (hposition : position ≤ pair.source.length)
    (hsymbol : symbol < 0) (table : LexicalTable) (least : Float) :
    (pair.insertSource position symbol).sourceWeights table least =
      pair.sourceWeights table least := by
  have hrange : List.range (pair.insertSource position symbol).source.length =
      ((List.range pair.source.length).map (moved position)).insertIdx position position := by
    rw [← range_succ_eq_insertIdx hposition]
    simp [insertSource, List.length_insertIdx, hposition]
  -- The new position is passed over; the others bring the factors that they had before.
  have hgap : (!Surface.isGap ((pair.insertSource position symbol).sourceAt position)) = false := by
    simp [sourceAt_insertSource_self hposition, Surface.isGap, hsymbol]
  have hpassed := filter_insertIdx_of_false
    (p := fun i => !Surface.isGap ((pair.insertSource position symbol).sourceAt i)) hgap position
    ((List.range pair.source.length).map (moved position))
  unfold sourceWeights
  rw [hrange, hpassed, List.filter_map, List.map_map]
  simp only [Function.comp_def, sourceAt_insertSource_moved, targetsOf_insertSource_moved,
    targetAt_insertSource]

/-- A gap in the source phrase leaves the weights of the target words as they are. -/
theorem targetWeights_insertSource (pair : AlignedPair) (position : Nat) (symbol : Int)
    (table : LexicalTable) (least : Float) :
    (pair.insertSource position symbol).targetWeights table least =
      pair.targetWeights table least := by
  unfold targetWeights sourceWeights
  simp only [targetsOf_mirror, sourceAt_mirror, targetAt_mirror, sourcesOf_insertSource,
    List.map_map, Function.comp_def, sourceAt_insertSource_moved]
  rfl

/-- A pair that is mirrored twice is the pair itself. -/
theorem mirror_mirror (pair : AlignedPair) : pair.mirror.mirror = pair := by
  apply ext
  · rfl
  · rfl
  · have hlinks : Link.mirror ∘ Link.mirror = id := rfl
    simp [mirror, hlinks]

/-- The target words of the mirrored pair weigh what the source words weigh. -/
theorem targetWeights_mirror (pair : AlignedPair) (table : LexicalTable) (least : Float) :
    pair.mirror.targetWeights table.mirror least = pair.sourceWeights table least := by
  unfold targetWeights
  rw [mirror_mirror]
  rfl

/-- The pair with a symbol more on its target side, to which no link leads. -/
def insertTarget (pair : AlignedPair) (position : Nat) (symbol : Int) : AlignedPair :=
  (pair.mirror.insertSource position symbol).mirror

/-- A pair with a gap in its target phrase is built from the moved links. -/
theorem ofLinks_insertTarget {source target : List Int} {raws : List RawLink}
    (h : ofLinks source target raws = .ok pair) (position : Nat) (symbol : Int) :
    ofLinks source (target.insertIdx position symbol) (raws.map (RawLink.moveTarget position)) =
      .ok (pair.insertTarget position symbol) := by
  have hmirror := ofLinks_mirror (ofLinks_insertSource (ofLinks_mirror h) position symbol)
  rw [List.map_map, List.map_map] at hmirror
  exact hmirror

/-- A gap in the target phrase leaves the weights of the target words as they are. -/
theorem targetWeights_insertTarget (hposition : position ≤ pair.target.length)
    (hsymbol : symbol < 0) (table : LexicalTable) (least : Float) :
    (pair.insertTarget position symbol).targetWeights table least =
      pair.targetWeights table least := by
  unfold insertTarget targetWeights
  rw [mirror_mirror, sourceWeights_insertSource hposition hsymbol]

/-- A gap in the target phrase leaves the weights of the source words as they are. -/
theorem sourceWeights_insertTarget (pair : AlignedPair) (position : Nat) (symbol : Int)
    (table : LexicalTable) (least : Float) :
    (pair.insertTarget position symbol).sourceWeights table least =
      pair.sourceWeights table least := by
  rw [← targetWeights_mirror, insertTarget, mirror_mirror, targetWeights_insertSource,
    targetWeights_mirror]

end AlignedPair

/-! ## Weights of phrase pairs -/

namespace PhrasePair

/-- The lexical weight of the source words is the product of what they weigh, in turn. -/
theorem value_lexSourceGivenTarget (pair : PhrasePair) (table : LexicalTable) (config : Config) :
    (pair.lexSourceGivenTarget table config).value =
      (pair.sourceWeights table config.minLexProb).foldl (· * ·) (.ofFloat 1) := by
  show (Support.product config true (pair.sourceSupports table)).value = _
  rw [Support.value_product, sourceSupports, AlignedPair.sourceWeights, List.foldl_map,
    List.foldl_map]
  rfl

/-- The lexical weight of the target words is the product of what they weigh, in turn. -/
theorem value_lexTargetGivenSource (pair : PhrasePair) (table : LexicalTable) (config : Config) :
    (pair.lexTargetGivenSource table config).value =
      (pair.targetWeights table config.minLexProb).foldl (· * ·) (.ofFloat 1) := by
  have hmirror := Feature.score_mirror table config ⟨0, 0, 0⟩ pair .lexTargetGivenSource
  have hsource := pair.mirror.value_lexSourceGivenTarget table.mirror config
  exact hmirror.symm.trans hsource

/-- Both averaged weights are the same doubles, in all settings and under all numbers. -/
def WeighAlike (pair other : PhrasePair) : Prop :=
  ∀ (table : LexicalTable) (config : Config) (occurrences occurrences' : Occurrences)
    (ids ids' : PhraseIds) (feature : Feature),
    feature = .lexSourceGivenTarget ∨ feature = .lexTargetGivenSource →
      (feature.score table config occurrences (pair.withIds ids)).value =
        (feature.score table config occurrences' (other.withIds ids')).value

/-- Pairs whose words weigh the same weigh alike. -/
theorem weighAlike_of_weights {pair other : PhrasePair}
    (h : ∀ (table : LexicalTable) (least : Float),
      pair.sourceWeights table least = other.sourceWeights table least ∧
        pair.targetWeights table least = other.targetWeights table least) :
    pair.WeighAlike other := by
  intro table config occurrences occurrences' ids ids' feature hfeature
  obtain ⟨hsource, htarget⟩ := h table config.minLexProb
  obtain rfl | rfl := hfeature
  · show ((pair.withIds ids).lexSourceGivenTarget table config).value =
      ((other.withIds ids').lexSourceGivenTarget table config).value
    rw [value_lexSourceGivenTarget, value_lexSourceGivenTarget]
    exact congrArg (List.foldl _ _) hsource
  · show ((pair.withIds ids).lexTargetGivenSource table config).value =
      ((other.withIds ids').lexTargetGivenSource table config).value
    rw [value_lexTargetGivenSource, value_lexTargetGivenSource]
    exact congrArg (List.foldl _ _) htarget

end PhrasePair

/-! ## Rows as they are given -/

/-- Two rows of symbols with links between them, as a phrase pair is built from them. -/
structure LinkedRows where
  source : List Int
  target : List Int
  links : List RawLink

namespace LinkedRows

/-- The rows with a symbol put into the source side, and the links moved with their symbols. -/
def insertSource (rows : LinkedRows) (position : Nat) (symbol : Int) : LinkedRows where
  source := rows.source.insertIdx position symbol
  target := rows.target
  links := rows.links.map (RawLink.moveSource position)

/-- The rows with a symbol put into the target side, and the links moved with their symbols. -/
def insertTarget (rows : LinkedRows) (position : Nat) (symbol : Int) : LinkedRows where
  source := rows.source
  target := rows.target.insertIdx position symbol
  links := rows.links.map (RawLink.moveTarget position)

/-- The aligned pair of the rows. -/
def build (rows : LinkedRows) : Except RawLink AlignedPair :=
  AlignedPair.ofLinks rows.source rows.target rows.links

/-- Rows with any number of gaps put in, at any places of both sides. -/
inductive GapsInserted (rows : LinkedRows) : LinkedRows → Prop
  | refl : GapsInserted rows rows
  | source {more : LinkedRows} {position : Nat} {symbol : Int} (h : GapsInserted rows more)
      (hposition : position ≤ more.source.length) (hsymbol : symbol < 0) :
      GapsInserted rows (more.insertSource position symbol)
  | target {more : LinkedRows} {position : Nat} {symbol : Int} (h : GapsInserted rows more)
      (hposition : position ≤ more.target.length) (hsymbol : symbol < 0) :
      GapsInserted rows (more.insertTarget position symbol)

/-- With gaps put in the rows still make a pair, which has the same factors. -/
theorem GapsInserted.exists_build {rows more : LinkedRows} (h : GapsInserted rows more)
    {pair : AlignedPair} (hpair : rows.build = .ok pair) :
    ∃ larger : AlignedPair, more.build = .ok larger ∧
      ∀ (table : LexicalTable) (least : Float),
        larger.sourceWeights table least = pair.sourceWeights table least ∧
          larger.targetWeights table least = pair.targetWeights table least := by
  induction h with
  | refl => exact ⟨pair, hpair, fun _ _ => ⟨rfl, rfl⟩⟩
  | source _ hposition hsymbol ih =>
    obtain ⟨larger, hlarger, hweights⟩ := ih
    refine ⟨_, AlignedPair.ofLinks_insertSource hlarger _ _, ?_⟩
    intro table least
    rw [← (AlignedPair.ofLinks_eq_ok hlarger).1] at hposition
    rw [AlignedPair.sourceWeights_insertSource hposition hsymbol,
      AlignedPair.targetWeights_insertSource]
    exact hweights table least
  | target _ hposition hsymbol ih =>
    obtain ⟨larger, hlarger, hweights⟩ := ih
    refine ⟨_, AlignedPair.ofLinks_insertTarget hlarger _ _, ?_⟩
    intro table least
    rw [← (AlignedPair.ofLinks_eq_ok hlarger).2.1] at hposition
    rw [AlignedPair.targetWeights_insertTarget hposition hsymbol,
      AlignedPair.sourceWeights_insertTarget]
    exact hweights table least

/-- **Gaps without links do not count.** A phrase pair is built from its rows, so one is built from
these rows with gaps put in. Both averaged weights of the two pairs are the same doubles, whatever
words and numbers the pairs have. -/
theorem lexical_weights_of_gapsInserted {rows more : LinkedRows} (h : GapsInserted rows more)
    {sourceWords targetWords : List String} {pair : PhrasePair}
    (hpair : PhrasePair.ofLinks rows.source rows.target sourceWords targetWords rows.links =
      .ok pair) (sourceWords' targetWords' : List String) :
    ∃ larger : PhrasePair,
      PhrasePair.ofLinks more.source more.target sourceWords' targetWords' more.links =
        .ok larger ∧
      larger.WeighAlike pair := by
  have hbuilt := (PhrasePair.ofLinks_eq_ok_iff.1 hpair).1
  obtain ⟨larger, hlarger, hweights⟩ := h.exists_build hbuilt
  refine ⟨{ larger with
    sourceWords := sourceWords', targetWords := targetWords', ids := .unassigned },
    PhrasePair.ofLinks_eq_ok_iff.2 ⟨hlarger, rfl, rfl, rfl⟩, ?_⟩
  exact PhrasePair.weighAlike_of_weights hweights

/-- A gap in front of the source phrase, one inside the target phrase and one at the end of the
source phrase, in a pair with a repeated link and a linked gap. -/
theorem lexical_weights_of_gapsInserted_three_gaps :
    ∃ pair larger : PhrasePair,
      PhrasePair.ofLinks [3, -1] [4, 5] ["a"] ["b", "c"] [⟨0, 1⟩, ⟨1, 0⟩, ⟨0, 1⟩] = .ok pair ∧
      PhrasePair.ofLinks [-2, 3, -1, -3] [4, -2, 5] ["a"] ["b", "c"] [⟨1, 2⟩, ⟨2, 0⟩, ⟨1, 2⟩] =
        .ok larger ∧
      larger.WeighAlike pair := by
  have hinserted : GapsInserted ⟨[3, -1], [4, 5], [⟨0, 1⟩, ⟨1, 0⟩, ⟨0, 1⟩]⟩
      ((LinkedRows.mk [3, -1] [4, 5] [⟨0, 1⟩, ⟨1, 0⟩, ⟨0, 1⟩]).insertSource 0 (-2)
        |>.insertTarget 1 (-2) |>.insertSource 3 (-3)) := by
    apply GapsInserted.source
    · apply GapsInserted.target
      · exact .source .refl (by simp) (by simp)
      · simp [insertSource]
      · simp
    · simp [insertSource, insertTarget]
    · simp
  obtain ⟨pair, hpair⟩ : ∃ pair : PhrasePair,
      PhrasePair.ofLinks [3, -1] [4, 5] ["a"] ["b", "c"] [⟨0, 1⟩, ⟨1, 0⟩, ⟨0, 1⟩] = .ok pair :=
    ⟨_, rfl⟩
  obtain ⟨larger, hlarger, halike⟩ :=
    lexical_weights_of_gapsInserted hinserted hpair ["a"] ["b", "c"]
  exact ⟨pair, larger, hpair, hlarger, halike⟩

end LinkedRows

end PhraseTable
