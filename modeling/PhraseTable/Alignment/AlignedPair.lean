import PhraseTable.Alignment.Link

/-!
# Aligned pairs

An aligned pair consists of two rows of symbols and the links between their positions. Every link
lies inside the pair and none is repeated: `ofLinks` refuses links that lie outside and keeps the
first of several equal ones. The links can be followed from either side, in the order in which they
were given.
-/

set_option autoImplicit false

namespace PhraseTable

/-- Two rows of symbols with links between them. -/
structure AlignedPair where
  source : List Int
  target : List Int
  /-- The links, in the order in which they were given. -/
  links : List Link
  within : ∀ link ∈ links, link.Within source.length target.length
  nodup : links.Nodup

namespace AlignedPair

/-- The pair without symbols. -/
def empty : AlignedPair := ⟨[], [], [], by simp, by simp⟩

instance : Inhabited AlignedPair := ⟨empty⟩

/-- The pair with these links, or the first link that lies outside. -/
def ofLinks (source target : List Int) (raws : List RawLink) : Except RawLink AlignedPair :=
  match h : admitLinks source.length target.length raws with
  | .error raw => .error raw
  | .ok links =>
    .ok
      { source
        target
        links := links.eraseDups
        within := fun link hlink => within_of_admitLinks h link (List.mem_eraseDups.1 hlink)
        nodup := nodup_eraseDups links }

/-- The target positions that are linked to a source position. -/
def targetsOf (pair : AlignedPair) (i : Nat) : List Nat :=
  pair.links.filterMap fun link => if link.source = i then some link.target else none

/-- The source positions that are linked to a target position. -/
def sourcesOf (pair : AlignedPair) (j : Nat) : List Nat :=
  pair.links.filterMap fun link => if link.target = j then some link.source else none

/-- The linked target positions of every source position. -/
def targetLists (pair : AlignedPair) : List (List Nat) :=
  (List.range pair.source.length).map pair.targetsOf

/-- The linked source positions of every target position. -/
def sourceLists (pair : AlignedPair) : List (List Nat) :=
  (List.range pair.target.length).map pair.sourcesOf

/-- The symbol at a source position. -/
def sourceAt (pair : AlignedPair) (i : Nat) : Int :=
  pair.source.getD i 0

/-- The symbol at a target position. -/
def targetAt (pair : AlignedPair) (j : Nat) : Int :=
  pair.target.getD j 0

/-- Two pairs are equal if they have the same symbols and every position has the same linked
positions in the same order. The order of links of different positions does not count. -/
instance : BEq AlignedPair where
  beq p q :=
    p.source == q.source && p.target == q.target &&
      p.targetLists == q.targetLists && p.sourceLists == q.sourceLists

/-- The links as a text: each with a dash between its positions, and spaces between them. -/
def linkText (pair : AlignedPair) : String :=
  " ".intercalate (pair.links.map fun link => link.raw.text)

end AlignedPair

end PhraseTable
