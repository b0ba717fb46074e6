import PhraseTable.Alignment.AlignedPair
import PhraseTable.Phrase.Pair

/-!
# Links as they are given and as they are kept

Links are admitted just if all of them lie inside the pair (`admitLinks_eq_ok_iff`), so an aligned
pair can be built from such links (`exists_ofLinks`). A pair that was built has its two rows of
symbols as they were given, and keeps the links that were given, each of them once
(`mem_links_ofLinks`). A phrase pair adds words to an aligned pair.
-/

set_option autoImplicit false

namespace PhraseTable

/-- Different links have different numbers. -/
theorem Link.raw_injective {link link' : Link} (h : link.raw = link'.raw) : link = link' := by
  cases link
  cases link'
  simp only [raw, RawLink.mk.injEq, Int.ofNat_inj] at h
  rw [h.1, h.2]

/-- Does the written link lie inside two rows of these lengths? -/
def RawLink.InRange (raw : RawLink) (sourceSize targetSize : Nat) : Prop :=
  (0 ≤ raw.source ∧ raw.source < sourceSize) ∧ 0 ≤ raw.target ∧ raw.target < targetSize

instance (raw : RawLink) (m n : Nat) : Decidable (raw.InRange m n) :=
  inferInstanceAs (Decidable (_ ∧ _))

/-- The links in range are the numbers of a link within both sides. -/
theorem RawLink.inRange_iff {m n : Nat} {raw : RawLink} :
    raw.InRange m n ↔ ∃ link : Link, link.raw = raw ∧ link.Within m n := by
  obtain ⟨source, target⟩ := raw
  simp only [InRange, Link.Within, Link.raw, RawLink.mk.injEq]
  constructor
  · rintro ⟨⟨hs, hm⟩, ht, hn⟩
    refine ⟨⟨source.toNat, target.toNat⟩, ⟨?_, ?_⟩, ?_, ?_⟩ <;> dsimp only <;> omega
  · rintro ⟨⟨i, j⟩, ⟨rfl, rfl⟩, hi, hj⟩
    dsimp only at hi hj ⊢
    omega

/-- A link is admitted just as the link within both sides that has its numbers. -/
theorem RawLink.admit?_eq_some_iff {m n : Nat} {raw : RawLink} {link : Link} :
    raw.admit? m n = some link ↔ link.raw = raw ∧ link.Within m n := by
  constructor
  · intro h
    refine ⟨?_, within_of_admit? h⟩
    unfold admit? at h
    split at h
    · split at h
      · cases h
        rfl
      · cases h
    · cases h
  · rintro ⟨rfl, hin⟩
    exact if_pos hin

/-- Links are admitted just if each of them is a link inside. -/
theorem admitLinks_eq_ok_iff {m n : Nat} {raws : List RawLink} {links : List Link} :
    admitLinks m n raws = .ok links ↔
      links.map Link.raw = raws ∧ ∀ link ∈ links, link.Within m n := by
  constructor
  · intro h
    refine ⟨?_, within_of_admitLinks h⟩
    induction raws generalizing links with
    | nil =>
      cases h
      rfl
    | cons raw rest ih =>
      unfold admitLinks at h
      split at h
      · cases h
      · rename_i first hfirst
        cases hrest : admitLinks m n rest with
        | error bad =>
          rw [hrest] at h
          cases h
        | ok others =>
          rw [hrest] at h
          cases h
          rw [List.map_cons, ih hrest, (RawLink.admit?_eq_some_iff.1 hfirst).1]
  · rintro ⟨rfl, hin⟩
    induction links with
    | nil => rfl
    | cons link rest ih =>
      have hlink := RawLink.admit?_eq_some_iff.2 ⟨rfl, hin link List.mem_cons_self⟩
      have hrest := ih fun other hother => hin other (List.mem_cons_of_mem link hother)
      rw [List.map_cons, admitLinks, hlink, hrest]
      rfl

/-- Members are repeated just where their images under an injective function are. -/
theorem eraseDups_map {α β : Type} [DecidableEq α] [DecidableEq β] {f : α → β}
    (hf : Function.Injective f) (xs : List α) : (xs.map f).eraseDups = xs.eraseDups.map f := by
  generalize hn : xs.length = n
  induction n using Nat.strongRecOn generalizing xs with
  | ind n ih =>
    cases xs with
    | nil => rfl
    | cons x rest =>
      have hlt : (rest.filter fun y => !y == x).length < n := by
        have := List.length_filter_le (fun y => !y == x) rest
        rw [List.length_cons] at hn
        omega
      have hfilter : (rest.map f).filter (fun y => !y == f x) =
          (rest.filter fun y => !y == x).map f := by
        rw [List.filter_map]
        congr 1
        apply List.filter_congr
        intro y _
        have heq : f y = f x ↔ y = x := ⟨fun h => hf h, congrArg f⟩
        rw [Bool.eq_iff_iff]
        simp [heq]
      rw [List.map_cons, List.eraseDups_cons, List.eraseDups_cons, List.map_cons, hfilter,
        ih _ hlt _ rfl]

/-- Nothing is erased from a list without repetitions. -/
theorem eraseDups_of_nodup {α : Type} [DecidableEq α] {xs : List α} (h : xs.Nodup) :
    xs.eraseDups = xs := by
  induction xs with
  | nil => rfl
  | cons x rest ih =>
    obtain ⟨hx, hrest⟩ := List.nodup_cons.1 h
    have hfilter : rest.filter (fun y => !y == x) = rest := by
      rw [List.filter_eq_self]
      intro y hy
      simpa using ne_of_mem_of_not_mem hy hx
    rw [List.eraseDups_cons, hfilter, ih hrest]

namespace AlignedPair

variable {source target : List Int} {raws : List RawLink} {pair : AlignedPair}

/-- Aligned pairs with the same words and the same links are equal. -/
theorem ext {p q : AlignedPair} (hsource : p.source = q.source) (htarget : p.target = q.target)
    (hlinks : p.links = q.links) : p = q := by
  cases p
  cases q
  simp only at hsource htarget hlinks
  subst hsource htarget hlinks
  rfl

/-- When all links are admitted the pair is made, and keeps each of them once. -/
theorem ofLinks_of_admitLinks {links : List Link}
    (h : admitLinks source.length target.length raws = .ok links) :
    ∃ pair : AlignedPair, ofLinks source target raws = .ok pair ∧ pair.source = source ∧
      pair.target = target ∧ pair.links = links.eraseDups := by
  unfold ofLinks
  split
  · rename_i bad hbad
    rw [h] at hbad
    cases hbad
  · rename_i admitted hadmitted
    rw [h] at hadmitted
    cases hadmitted
    exact ⟨_, rfl, rfl, rfl, rfl⟩

/-- A pair can be built from links that all lie inside. -/
theorem exists_ofLinks (h : ∀ raw ∈ raws, raw.InRange source.length target.length) :
    ∃ pair : AlignedPair, ofLinks source target raws = .ok pair := by
  have hlinks : ∃ links : List Link, links.map Link.raw = raws ∧
      ∀ link ∈ links, link.Within source.length target.length := by
    induction raws with
    | nil => exact ⟨[], rfl, nofun⟩
    | cons raw rest ih =>
      obtain ⟨link, hraw, hin⟩ := RawLink.inRange_iff.1 (h raw List.mem_cons_self)
      obtain ⟨links, hraws, hins⟩ := ih fun other hother =>
        h other (List.mem_cons_of_mem raw hother)
      refine ⟨link :: links, ?_, ?_⟩
      · rw [List.map_cons, hraw, hraws]
      · intro other hother
        rcases List.mem_cons.1 hother with rfl | hother
        · exact hin
        · exact hins other hother
  obtain ⟨links, hlinks⟩ := hlinks
  obtain ⟨pair, hpair, -⟩ := ofLinks_of_admitLinks (admitLinks_eq_ok_iff.2 hlinks)
  exact ⟨pair, hpair⟩

/-- What is known of a pair that was built. -/
theorem ofLinks_eq_ok (h : ofLinks source target raws = .ok pair) :
    pair.source = source ∧ pair.target = target ∧
      ∃ links : List Link, links.map Link.raw = raws ∧ pair.links = links.eraseDups := by
  cases hchecked : admitLinks source.length target.length raws with
  | error bad =>
    unfold ofLinks at h
    split at h
    · cases h
    · rename_i links hlinks
      rw [hchecked] at hlinks
      cases hlinks
  | ok links =>
    obtain ⟨built, hbuilt, hsource, htarget, hlinks⟩ := ofLinks_of_admitLinks hchecked
    rw [h] at hbuilt
    cases hbuilt
    exact ⟨hsource, htarget, links, (admitLinks_eq_ok_iff.1 hchecked).1, hlinks⟩

/-- Links that were taken lie inside. -/
theorem inRange_of_ofLinks (h : ofLinks source target raws = .ok pair) :
    ∀ raw ∈ raws, raw.InRange source.length target.length := by
  obtain ⟨rfl, rfl, links, rfl, hlinks⟩ := ofLinks_eq_ok h
  intro raw hraw
  obtain ⟨link, hlink, rfl⟩ := List.mem_map.1 hraw
  refine RawLink.inRange_iff.2 ⟨link, rfl, pair.within link ?_⟩
  rwa [hlinks, List.mem_eraseDups]

/-- A pair is built just from its own symbols and from links that, without repetitions, are its
own. -/
theorem ofLinks_eq_ok_iff : ofLinks source target raws = .ok pair ↔
    pair.source = source ∧ pair.target = target ∧
      ∃ links : List Link, links.map Link.raw = raws ∧ pair.links = links.eraseDups := by
  constructor
  · exact ofLinks_eq_ok
  · rintro ⟨rfl, rfl, links, hraws, hlinks⟩
    have hadmit : admitLinks pair.source.length pair.target.length raws = .ok links := by
      refine admitLinks_eq_ok_iff.2 ⟨hraws, ?_⟩
      intro link hlink
      apply pair.within
      rwa [hlinks, List.mem_eraseDups]
    obtain ⟨built, hbuilt, hsource, htarget, hblinks⟩ := ofLinks_of_admitLinks hadmit
    rw [hbuilt, ext hsource htarget (hblinks.trans hlinks.symm)]

/-- A pair is built again from its own symbols and links. -/
theorem ofLinks_links (pair : AlignedPair) :
    ofLinks pair.source pair.target (pair.links.map Link.raw) = .ok pair :=
  ofLinks_eq_ok_iff.2 ⟨rfl, rfl, pair.links, rfl, (eraseDups_of_nodup pair.nodup).symm⟩

/-- A pair keeps the links that were given, and no others. -/
theorem mem_links_ofLinks (h : ofLinks source target raws = .ok pair) {link : Link} :
    link ∈ pair.links ↔ link.raw ∈ raws := by
  obtain ⟨-, -, links, rfl, hlinks⟩ := ofLinks_eq_ok h
  rw [hlinks, List.mem_eraseDups, List.mem_map]
  constructor
  · intro hmem
    exact ⟨link, hmem, rfl⟩
  · rintro ⟨other, hother, hraw⟩
    rwa [← Link.raw_injective hraw]

end AlignedPair

/-- A phrase pair is built just if its aligned pair is, with the words that were given. -/
theorem PhrasePair.ofLinks_eq_ok_iff {source target : List Int}
    {sourceWords targetWords : List String} {raws : List RawLink} {pair : PhrasePair} :
    ofLinks source target sourceWords targetWords raws = .ok pair ↔
      AlignedPair.ofLinks source target raws = .ok pair.toAlignedPair ∧
        pair.sourceWords = sourceWords ∧ pair.targetWords = targetWords ∧
        pair.ids = .unassigned := by
  unfold ofLinks
  cases AlignedPair.ofLinks source target raws with
  | error link => exact iff_of_false nofun fun h => nomatch h.1
  | ok built =>
    constructor
    · intro h
      cases h
      exact ⟨rfl, rfl, rfl, rfl⟩
    · rintro ⟨hbuilt, rfl, rfl, hids⟩
      cases hbuilt
      cases pair
      cases hids
      rfl

end PhraseTable
