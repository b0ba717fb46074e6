import Mathlib.Data.List.Forall2
import Mathlib.Data.List.Induction
import PhraseTable.Proofs.AlignedPair
import PhraseTable.Proofs.Outcome
import PhraseTable.Sentence

/-!
# Links followed from both sides

The lists of linked positions of a pair can be built up link by link: a link is appended to the list
of its source position and to that of its target position, and whether it was met before is looked
up in the first of these two lists alone. `LinkLists.add` does this. After any number of links the
lists are those of the links without repetitions (`LinkLists.add_ofLinks`), so the second list has
none either, and at the end they are the lists of the pair (`AlignedPair.addAll_empty`). What a list
says of the links that were given is `PartnersOf`: it holds every linked position once, in the order
in which the links came first. Pairs of sentences and of phrases have the same lists, and the order
and the repetitions of the links matter for nothing but the order of the lists (`ofLinks_lists`).
-/

set_option autoImplicit false

namespace PhraseTable

/-! ## Repetitions -/

/-- A member is kept where it stands first. -/
theorem eraseDups_concat {α : Type} [DecidableEq α] (xs : List α) (x : α) :
    (xs ++ [x]).eraseDups = if x ∈ xs then xs.eraseDups else xs.eraseDups ++ [x] := by
  rw [List.eraseDups_append]
  by_cases h : x ∈ xs
  · simp [List.removeAll, h]
  · simp [List.removeAll, h, List.eraseDups_cons]

/-- The kept members stand in the order of their first places. -/
theorem pairwise_idxOf_eraseDups {α : Type} [DecidableEq α] (xs : List α) :
    xs.eraseDups.Pairwise fun x y => xs.idxOf x < xs.idxOf y := by
  induction xs using List.reverseRecOn with
  | nil => exact .nil
  | append_singleton xs x ih =>
    have hsame : ∀ y ∈ xs.eraseDups, (xs ++ [x]).idxOf y = xs.idxOf y := fun y hy =>
      List.idxOf_append_of_mem (List.mem_eraseDups.1 hy)
    have hkept : xs.eraseDups.Pairwise fun y z => (xs ++ [x]).idxOf y < (xs ++ [x]).idxOf z := by
      refine ih.imp_of_mem fun {y z} hy hz hlt => ?_
      rwa [hsame y hy, hsame z hz]
    rw [eraseDups_concat]
    split
    · exact hkept
    · rename_i hx
      refine List.pairwise_append.2 ⟨hkept, List.pairwise_singleton _ x, ?_⟩
      intro y hy z hz
      obtain rfl := List.mem_singleton.1 hz
      have hlt : xs.idxOf y < xs.length := List.idxOf_lt_length_of_mem (List.mem_eraseDups.1 hy)
      rw [hsame y hy, List.idxOf_append_of_notMem hx]
      omega

/-! ## Partners of a position -/

/-- The positions at the far ends of the links from a position, in the order of the links. -/
def partners (near far : Link → Nat) (links : List Link) (position : Nat) : List Nat :=
  links.filterMap fun link => if near link = position then some (far link) else none

section Partners

variable {near far : Link → Nat} {links : List Link} {position : Nat}

/-- The partners of a position are the far ends of its links. -/
theorem mem_partners {other : Nat} : other ∈ partners near far links position ↔
    ∃ link ∈ links, near link = position ∧ far link = other := by
  simp [partners]

/-- One more link gives its own position one more partner. -/
theorem partners_concat (links : List Link) (link : Link) (position : Nat) :
    partners near far (links ++ [link]) position =
      partners near far links position ++ if near link = position then [far link] else [] := by
  unfold partners
  rw [List.filterMap_append]
  by_cases h : near link = position <;> simp [h]

/-- One more link appends to the list of one position. -/
theorem map_partners_concat (size : Nat) (links : List Link) (link : Link) :
    (List.range size).map (partners near far (links ++ [link])) =
      ((List.range size).map (partners near far links)).modify (near link) (· ++ [far link]) := by
  apply List.ext_getElem?
  intro position
  rw [List.getElem?_modify, List.getElem?_map, List.getElem?_map]
  by_cases hposition : position < size
  · rw [List.getElem?_range hposition]
    simp only [Option.map_some, Option.map_eq_map, partners_concat]
    split <;> simp
  · rw [List.getElem?_eq_none (by simpa using hposition)]
    rfl

/-- What holds between links in their order holds between partners in theirs. -/
theorem pairwise_partners {R : Link → Link → Prop} {S : Nat → Nat → Prop} (h : links.Pairwise R)
    (hS : ∀ link other : Link, near link = position → near other = position → R link other →
      S (far link) (far other)) : (partners near far links position).Pairwise S := by
  refine List.pairwise_filterMap.2 (h.imp fun {link other} hR => ?_)
  simp only [Option.ite_none_right_eq_some, Option.some.injEq]
  rintro _ ⟨hlink, rfl⟩ _ ⟨hother, rfl⟩
  exact hS link other hlink hother hR

end Partners

/-! ## Lists that are built up link by link -/

/-- Links, and the positions that the positions of either side are linked to. -/
structure LinkLists where
  links : List Link
  /-- The linked target positions of every source position. -/
  targets : List (List Nat)
  /-- The linked source positions of every target position. -/
  sources : List (List Nat)
deriving DecidableEq, Repr

namespace LinkLists

/-- The lists before the first link. -/
def empty (sourceSize targetSize : Nat) : LinkLists :=
  ⟨[], List.replicate sourceSize [], List.replicate targetSize []⟩

/-- Takes in a link, unless the list of its source position has it already. -/
def add (lists : LinkLists) (link : Link) : LinkLists :=
  if link.target ∈ lists.targets.getD link.source [] then lists
  else
    { links := lists.links ++ [link]
      targets := lists.targets.modify link.source (· ++ [link.target])
      sources := lists.sources.modify link.target (· ++ [link.source]) }

/-- Takes in links one after the other, up to the first one that lies outside. -/
def addAll (sourceSize targetSize : Nat) (lists : LinkLists) :
    List RawLink → Except RawLink LinkLists
  | [] => .ok lists
  | raw :: rest =>
    match raw.admit? sourceSize targetSize with
    | none => .error raw
    | some link => (lists.add link).addAll sourceSize targetSize rest

/-- The lists that the links have in the end. -/
def ofLinks (sourceSize targetSize : Nat) (links : List Link) : LinkLists where
  links
  targets := (List.range sourceSize).map (partners Link.source Link.target links)
  sources := (List.range targetSize).map (partners Link.target Link.source links)

variable {m n : Nat}

/-- Without links all lists are empty. -/
theorem ofLinks_nil : ofLinks m n [] = empty m n := by
  have hnone : ∀ (near far : Link → Nat) (size : Nat),
      (List.range size).map (partners near far []) = List.replicate size [] := by
    intro near far size
    have hconst : partners near far [] = fun _ => [] := rfl
    rw [hconst, List.map_const', List.length_range]
  unfold ofLinks empty
  rw [hnone, hnone]

/-- Whether a link was met is seen in the list of its source position. -/
theorem mem_targets_ofLinks (links : List Link) {link : Link} (h : link.source < m) :
    link.target ∈ (ofLinks m n links).targets.getD link.source [] ↔ link ∈ links := by
  have hlist : (ofLinks m n links).targets.getD link.source [] =
      partners Link.source Link.target links link.source := by
    unfold ofLinks
    simp [h]
  rw [hlist, mem_partners]
  constructor
  · rintro ⟨other, hother, hsource, htarget⟩
    cases other
    cases link
    cases hsource
    cases htarget
    exact hother
  · exact fun hlink => ⟨link, hlink, rfl, rfl⟩

/-- After one more link the lists are again those of the links without repetitions. -/
theorem add_ofLinks (given : List Link) {link : Link} (h : link.Within m n) :
    (ofLinks m n given.eraseDups).add link = ofLinks m n (given ++ [link]).eraseDups := by
  have hmem := mem_targets_ofLinks (n := n) given.eraseDups h.1
  rw [List.mem_eraseDups] at hmem
  unfold add
  rw [eraseDups_concat]
  by_cases hlink : link ∈ given
  · rw [if_pos (hmem.2 hlink), if_pos hlink]
  · rw [if_neg fun h => hlink (hmem.1 h), if_neg hlink]
    unfold ofLinks
    rw [map_partners_concat, map_partners_concat]

/-- Links that are added to lists of links make the lists of all of them, unless one is refused. -/
theorem addAll_ofLinks (given : List Link) (raws : List RawLink) :
    (ofLinks m n given.eraseDups).addAll m n raws =
      (admitLinks m n raws).map fun links => ofLinks m n (given ++ links).eraseDups := by
  induction raws generalizing given with
  | nil =>
    rw [addAll, admitLinks, Except.map, List.append_nil]
  | cons raw rest ih =>
    rw [addAll, admitLinks]
    cases hlink : raw.admit? m n with
    | none => rfl
    | some link =>
      dsimp only
      rw [add_ofLinks given (RawLink.within_of_admit? hlink), ih]
      cases admitLinks m n rest with
      | error bad => rfl
      | ok links =>
        dsimp only [Except.map]
        rw [List.append_assoc, List.singleton_append]

end LinkLists

/-! ## The lists of a pair -/

/-- A link is refused just when it lies outside. -/
theorem RawLink.admit?_eq_none_iff {m n : Nat} {raw : RawLink} :
    raw.admit? m n = none ↔ ¬raw.InRange m n := by
  rw [inRange_iff, Option.eq_none_iff_forall_ne_some]
  simp only [ne_eq, admit?_eq_some_iff, not_exists]

/-- Links are refused for the first one that lies outside. -/
theorem admitLinks_eq_error_iff {m n : Nat} {raws : List RawLink} {raw : RawLink} :
    admitLinks m n raws = .error raw ↔
      raws.find? (fun raw => !decide (raw.InRange m n)) = some raw := by
  induction raws with
  | nil => exact iff_of_false nofun nofun
  | cons first rest ih =>
    rw [admitLinks, List.find?_cons]
    cases hfirst : first.admit? m n with
    | none => simp [RawLink.admit?_eq_none_iff.1 hfirst]
    | some link =>
      have hin : first.InRange m n :=
        RawLink.inRange_iff.2 ⟨link, RawLink.admit?_eq_some_iff.1 hfirst⟩
      simp only [hin, decide_true, Bool.not_true]
      rw [← ih]
      cases admitLinks m n rest <;> simp [Except.map]

namespace AlignedPair

variable {source target : List Int} {raws : List RawLink} {pair : AlignedPair}

/-- The links of a pair with the lists of both sides. -/
def lists (pair : AlignedPair) : LinkLists :=
  ⟨pair.links, pair.targetLists, pair.sourceLists⟩

/-- A pair is refused for the first of its links that lies outside. -/
theorem ofLinks_eq_error_iff {raw : RawLink} : ofLinks source target raws = .error raw ↔
    raws.find? (fun raw => !decide (raw.InRange source.length target.length)) = some raw := by
  rw [← admitLinks_eq_error_iff]
  unfold ofLinks
  split
  · rename_i bad hbad
    rw [hbad, Except.error.injEq, Except.error.injEq]
  · rename_i links hlinks
    exact iff_of_false nofun fun herror => nomatch hlinks.symm.trans herror

/-- The lists that are built up link by link are those of the pair. -/
theorem addAll_empty (source target : List Int) (raws : List RawLink) :
    (LinkLists.empty source.length target.length).addAll source.length target.length raws =
      (ofLinks source target raws).map lists := by
  have hbuilt := LinkLists.addAll_ofLinks (m := source.length) (n := target.length) [] raws
  have hnil : [].eraseDups = ([] : List Link) := rfl
  rw [hnil, LinkLists.ofLinks_nil] at hbuilt
  rw [hbuilt]
  cases hadmit : admitLinks source.length target.length raws with
  | error bad =>
    rw [ofLinks_eq_error_iff.2 (admitLinks_eq_error_iff.1 hadmit)]
    rfl
  | ok links =>
    obtain ⟨pair, hpair, rfl, rfl, hlinks⟩ := ofLinks_of_admitLinks hadmit
    rw [hpair]
    dsimp only [Except.map, List.nil_append]
    rw [← hlinks]
    rfl

/-- A pair keeps the links that were given, each where it came first. -/
theorem map_raw_links (h : ofLinks source target raws = .ok pair) :
    pair.links.map Link.raw = raws.eraseDups := by
  obtain ⟨-, -, links, rfl, hlinks⟩ := ofLinks_eq_ok h
  rw [hlinks, eraseDups_map fun _ _ => Link.raw_injective]

/-- A pair is built from its own links again. -/
theorem ofLinks_again (h : ofLinks source target raws = .ok pair) :
    ofLinks source target (pair.links.map Link.raw) = .ok pair := by
  obtain ⟨rfl, rfl, -⟩ := ofLinks_eq_ok h
  exact ofLinks_links pair

end AlignedPair

/-! ## What the lists say -/

/-- The list holds the positions at the far ends of the links that were given, each of them once, in
the order in which the links came first. `link` is the link to a far end. -/
structure PartnersOf (raws : List RawLink) (link : Nat → RawLink) (list : List Nat) : Prop where
  mem_iff : ∀ position : Nat, position ∈ list ↔ link position ∈ raws
  nodup : list.Nodup
  ordered : list.Pairwise fun first second =>
    raws.idxOf (link first) < raws.idxOf (link second)

/-- Links in another order, or with other repetitions, only reorder the list. -/
theorem PartnersOf.perm {raws raws' : List RawLink} {link : Nat → RawLink} {list list' : List Nat}
    (h : PartnersOf raws link list) (h' : PartnersOf raws' link list')
    (hraws : ∀ raw : RawLink, raw ∈ raws' ↔ raw ∈ raws) : list.Perm list' := by
  rw [List.perm_ext_iff_of_nodup h.nodup h'.nodup]
  intro position
  rw [h.mem_iff, h'.mem_iff, hraws]

namespace AlignedPair

variable {source target : List Int} {raws : List RawLink} {pair : AlignedPair}

/-- Links that lead from one position to its partners make a list of these. -/
theorem partnersOf_partners (h : ofLinks source target raws = .ok pair) (near far : Link → Nat)
    {position : Nat} (link : Nat → Link)
    (hlink : ∀ other : Link, near other = position → other = link (far other))
    (hnear : ∀ k : Nat, near (link k) = position) (hfar : ∀ k : Nat, far (link k) = k) :
    PartnersOf raws (fun k => (link k).raw) (partners near far pair.links position) where
  mem_iff k := by
    rw [mem_partners, ← mem_links_ofLinks h]
    constructor
    · rintro ⟨other, hother, hposition, rfl⟩
      rwa [← hlink other hposition]
    · exact fun hmem => ⟨link k, hmem, hnear k, hfar k⟩
  nodup := by
    refine pairwise_partners pair.nodup fun first second hfirst hsecond hne heq => hne ?_
    rw [hlink first hfirst, hlink second hsecond, heq]
  ordered := by
    have hfirsts : pair.links.Pairwise fun first second =>
        raws.idxOf first.raw < raws.idxOf second.raw := by
      have hraws := pairwise_idxOf_eraseDups raws
      rwa [← map_raw_links h, List.pairwise_map] at hraws
    refine pairwise_partners hfirsts fun first second hfirst hsecond hlt => ?_
    rwa [← hlink first hfirst, ← hlink second hsecond]

/-- The targets of a position are its partners among the given links. -/
theorem partnersOf_targetsOf (h : ofLinks source target raws = .ok pair) (i : Nat) :
    PartnersOf raws (fun j => ⟨i, j⟩) (pair.targetsOf i) :=
  partnersOf_partners h Link.source Link.target (fun j => ⟨i, j⟩)
    (fun other hother => by rw [← hother]) (fun _ => rfl) fun _ => rfl

/-- The sources of a position are its partners among the given links. -/
theorem partnersOf_sourcesOf (h : ofLinks source target raws = .ok pair) (j : Nat) :
    PartnersOf raws (fun i => ⟨i, j⟩) (pair.sourcesOf j) :=
  partnersOf_partners h Link.target Link.source (fun i => ⟨i, j⟩)
    (fun other hother => by rw [← hother]) (fun _ => rfl) fun _ => rfl

end AlignedPair

/-- The lists say what the links say that were given, for two rows of these lengths. -/
structure LinkLists.Follow (lists : LinkLists) (raws : List RawLink)
    (sourceSize targetSize : Nat) : Prop where
  links_eq : lists.links.map Link.raw = raws.eraseDups
  length_targets : lists.targets.length = sourceSize
  length_sources : lists.sources.length = targetSize
  targets : ∀ (i : Nat) (list : List Nat), lists.targets[i]? = some list →
    PartnersOf raws (fun j => ⟨i, j⟩) list
  sources : ∀ (j : Nat) (list : List Nat), lists.sources[j]? = some list →
    PartnersOf raws (fun i => ⟨i, j⟩) list

namespace AlignedPair

variable {source target : List Int} {raws raws' : List RawLink} {pair pair' : AlignedPair}

/-- The lists of a pair follow the links that it was built from. -/
theorem follow_lists (h : ofLinks source target raws = .ok pair) :
    pair.lists.Follow raws source.length target.length := by
  obtain ⟨rfl, rfl, -⟩ := ofLinks_eq_ok h
  have hlist : ∀ {size position : Nat} {f : Nat → List Nat} {list : List Nat},
      ((List.range size).map f)[position]? = some list → f position = list := by
    intro size position f list hfound
    simp only [List.getElem?_map, Option.map_eq_some_iff, List.getElem?_eq_some_iff,
      List.getElem_range] at hfound
    obtain ⟨_, ⟨-, rfl⟩, hvalue⟩ := hfound
    exact hvalue
  refine ⟨map_raw_links h, ?_, ?_, ?_, ?_⟩
  · exact (List.length_map _).trans List.length_range
  · exact (List.length_map _).trans List.length_range
  · intro i list hfound
    exact hlist hfound ▸ partnersOf_targetsOf h i
  · intro j list hfound
    exact hlist hfound ▸ partnersOf_sourcesOf h j

/-- With the same links in another order, or with other repetitions, every list is reordered. -/
theorem exists_ofLinks_of_mem_iff (h : ofLinks source target raws = .ok pair)
    (hraws : ∀ raw : RawLink, raw ∈ raws' ↔ raw ∈ raws) :
    ∃ pair' : AlignedPair, ofLinks source target raws' = .ok pair' ∧
      List.Forall₂ List.Perm pair.targetLists pair'.targetLists ∧
      List.Forall₂ List.Perm pair.sourceLists pair'.sourceLists := by
  obtain ⟨pair', h'⟩ : ∃ pair' : AlignedPair, ofLinks source target raws' = .ok pair' :=
    exists_ofLinks fun raw hraw => inRange_of_ofLinks h raw ((hraws raw).1 hraw)
  refine ⟨pair', h', ?_, ?_⟩
  · unfold targetLists
    rw [(ofLinks_eq_ok h).1, (ofLinks_eq_ok h').1, List.forall₂_map_left_iff,
      List.forall₂_map_right_iff, List.forall₂_same]
    exact fun i _ => (partnersOf_targetsOf h i).perm (partnersOf_targetsOf h' i) hraws
  · unfold sourceLists
    rw [(ofLinks_eq_ok h).2.1, (ofLinks_eq_ok h').2.1, List.forall₂_map_left_iff,
      List.forall₂_map_right_iff, List.forall₂_same]
    exact fun j _ => (partnersOf_sourcesOf h j).perm (partnersOf_sourcesOf h' j) hraws

end AlignedPair

/-- **Links are followed from both sides alike.** A sentence pair and a phrase pair are refused for
the first link that lies outside, if there is one. Otherwise they have the same lists, and these are
the lists that are built up link by link: they say of every position, on either side, what the links
say that were given. A phrase pair is built again from its own links, and from the links in any
other order and with any other repetitions a pair whose lists are reordered. -/
theorem ofLinks_lists (source target : List Int) (sourceWords targetWords : List String)
    (raws : List RawLink) :
    (∃ raw : RawLink,
      raws.find? (fun raw => !decide (raw.InRange source.length target.length)) = some raw ∧
      (LinkLists.empty source.length target.length).addAll source.length target.length raws =
        .error raw ∧
      SentencePair.ofLinks source target raws = .error ⟨raw, source.length, target.length⟩ ∧
      PhrasePair.ofLinks source target sourceWords targetWords raws = .error ⟨raw⟩) ∨
    (∀ raw ∈ raws, raw.InRange source.length target.length) ∧
      ∃ (sentence : SentencePair) (phrase : PhrasePair),
        SentencePair.ofLinks source target raws = .ok sentence ∧
        PhrasePair.ofLinks source target sourceWords targetWords raws = .ok phrase ∧
        sentence.targetLists = phrase.targetLists ∧ sentence.sourceLists = phrase.sourceLists ∧
        (LinkLists.empty source.length target.length).addAll source.length target.length raws =
          .ok phrase.lists ∧
        phrase.lists.Follow raws source.length target.length ∧
        PhrasePair.ofLinks source target sourceWords targetWords (phrase.links.map Link.raw) =
          .ok phrase ∧
        ∀ raws' : List RawLink, (∀ raw : RawLink, raw ∈ raws' ↔ raw ∈ raws) →
          ∃ phrase' : PhrasePair,
            PhrasePair.ofLinks source target sourceWords targetWords raws' = .ok phrase' ∧
            List.Forall₂ List.Perm phrase.targetLists phrase'.targetLists ∧
            List.Forall₂ List.Perm phrase.sourceLists phrase'.sourceLists := by
  cases hbuilt : AlignedPair.ofLinks source target raws with
  | error raw =>
    refine Or.inl ⟨raw, AlignedPair.ofLinks_eq_error_iff.1 hbuilt, ?_, ?_, ?_⟩
    · rw [AlignedPair.addAll_empty, hbuilt]
      rfl
    · unfold SentencePair.ofLinks
      rw [hbuilt]
      rfl
    · unfold PhrasePair.ofLinks
      rw [hbuilt]
  | ok pair =>
    -- the words and the missing numbers make a phrase pair of an aligned pair
    have hphrase : ∀ {raws : List RawLink} {pair : AlignedPair},
        AlignedPair.ofLinks source target raws = .ok pair →
        PhrasePair.ofLinks source target sourceWords targetWords raws =
          .ok { pair with sourceWords, targetWords, ids := .unassigned } :=
      fun h => PhrasePair.ofLinks_eq_ok_iff.2 ⟨h, rfl, rfl, rfl⟩
    refine Or.inr ⟨AlignedPair.inRange_of_ofLinks hbuilt, pair, _, ?_, hphrase hbuilt, rfl, rfl, ?_,
      AlignedPair.follow_lists hbuilt, hphrase (AlignedPair.ofLinks_again hbuilt), ?_⟩
    · unfold SentencePair.ofLinks
      rw [hbuilt]
      rfl
    · rw [AlignedPair.addAll_empty, hbuilt]
      rfl
    · intro raws' hraws
      obtain ⟨pair', hpair', htargets, hsources⟩ :=
        AlignedPair.exists_ofLinks_of_mem_iff hbuilt hraws
      exact ⟨_, hphrase hpair', htargets, hsources⟩

end PhraseTable
