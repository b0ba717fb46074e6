import PhraseTable.Proofs.Text.Fields
import PhraseTable.Text.Bytes

/-!
# Cutting characters and cutting bytes

A byte string is a row of characters up to 255, one for each byte (`ofBytes`), and a text is one by
the bytes of its encoding. Bars and white space are encoded as single bytes, and no other character
has one of these among its bytes: the encoding `Spells` them. So it is all the same whether the
characters of a text are cut or its bytes (`fieldChars_utf8`, `tokenChars_utf8`).
-/

set_option autoImplicit false

namespace PhraseTable.Text

/-! ## Spelling -/

/-- Every character is spelled with others, the marked ones with themselves, and no marked one
occurs in the spelling of another character. -/
structure Spells (spell : Char → List Char) (mark : Char → Bool) : Prop where
  ne_nil : ∀ c, spell c ≠ []
  eq_self : ∀ c, mark c = true → spell c = [c]
  unmarked : ∀ c, mark c = false → ∀ d ∈ spell c, mark d = false

section Spelling

variable {spell : Char → List Char} {mark : Char → Bool}

/-- Spellings may be turned around. -/
theorem Spells.reverse (h : Spells spell mark) :
    Spells (fun c => (spell c).reverse) mark where
  ne_nil c := by simpa using h.ne_nil c
  eq_self c hc := by rw [h.eq_self c hc, List.reverse_singleton]
  unmarked c hc d hd := h.unmarked c hc d (List.mem_reverse.1 hd)

/-- Marked characters are dropped before or after a text is spelled. -/
theorem dropWhile_flatMap (h : Spells spell mark) (cs : List Char) :
    (cs.flatMap spell).dropWhile mark = (cs.dropWhile mark).flatMap spell := by
  induction cs with
  | nil => rfl
  | cons c cs ih =>
    cases hc : mark c with
    | true =>
      rw [List.flatMap_cons, h.eq_self c hc, List.singleton_append, List.dropWhile_cons_of_pos hc,
        List.dropWhile_cons_of_pos hc, ih]
    | false =>
      obtain ⟨d, ds, hspell⟩ := List.exists_cons_of_ne_nil (h.ne_nil c)
      have hd : ¬mark d = true := by simp [h.unmarked c hc d (by simp [hspell])]
      rw [List.dropWhile_cons_of_neg (by simp [hc]), List.flatMap_cons, hspell, List.cons_append,
        List.dropWhile_cons_of_neg hd]

/-- White space is taken off before or after a text is spelled. -/
theorem trimChars_flatMap (h : Spells spell isBlank) (cs : List Char) :
    trimChars (cs.flatMap spell) = (trimChars cs).flatMap spell := by
  unfold trimChars
  rw [dropWhile_flatMap h, List.reverse_flatMap]
  -- from the back, a character is met through the reverse of its spelling
  show ((List.flatMap (fun c => (spell c).reverse) _).dropWhile isBlank).reverse = _
  rw [dropWhile_flatMap h.reverse, List.reverse_flatMap]
  simp [Function.comp_def]

/-- Unmarked characters in front belong to the first piece. -/
theorem splitOnP_append {front : List Char} (h : ∀ c ∈ front, mark c = false) (cs : List Char) :
    (front ++ cs).splitOnP mark = (cs.splitOnP mark).modifyHead (front ++ ·) := by
  induction front with
  | nil => exact (congrFun List.modifyHead_id _).symm
  | cons c front ih =>
    rw [List.forall_mem_cons] at h
    rw [List.cons_append, List.splitOnP_cons_eq_if_modifyHead, h.1, ih h.2,
      List.modifyHead_modifyHead]
    rfl

/-- A text is cut before or after it is spelled. -/
theorem splitOnP_flatMap (h : Spells spell mark) (cs : List Char) :
    (cs.flatMap spell).splitOnP mark = (cs.splitOnP mark).map (List.flatMap spell) := by
  induction cs with
  | nil => rfl
  | cons c cs ih =>
    obtain ⟨first, rest, hsplit⟩ := List.exists_cons_of_ne_nil (List.splitOnP_ne_nil mark cs)
    rw [List.splitOnP_cons_eq_if_modifyHead, List.flatMap_cons]
    cases hc : mark c with
    | true =>
      rw [h.eq_self c hc, List.singleton_append, List.splitOnP_cons_eq_if_modifyHead, hc, ih]
      rfl
    | false =>
      rw [splitOnP_append (h.unmarked c hc), ih, hsplit]
      rfl

/-- A text is cut into words before or after it is spelled. -/
theorem tokenChars_flatMap (hblank : Spells spell isBlank) (hgap : Spells spell isGap)
    (cs : List Char) :
    tokenChars (cs.flatMap spell) = (tokenChars cs).map (List.flatMap spell) := by
  have hempty : ((fun piece : List Char => !piece.isEmpty) ∘ List.flatMap spell) =
      fun piece => !piece.isEmpty := by
    funext piece
    cases piece with
    | nil => rfl
    | cons c piece => simp [hgap.ne_nil c]
  rw [tokenChars_eq_filter, trimChars_flatMap hblank, splitOnP_flatMap hgap, List.filter_map,
    hempty, tokenChars_eq_filter]

/-- Bars at the front are bars in the characters that are spelled. -/
theorem replicate_prefix_flatMap (h : Spells spell (· == '|')) {n : Nat} {cs : List Char}
    (hbars : List.replicate n '|' <+: cs.flatMap spell) : List.replicate n '|' <+: cs := by
  induction n generalizing cs with
  | zero => exact List.nil_prefix
  | succ n ih =>
    cases cs with
    | nil => simp [List.replicate_succ] at hbars
    | cons c cs =>
      rw [List.replicate_succ] at hbars ⊢
      cases hc : c == '|' with
      | true =>
        rw [List.flatMap_cons, h.eq_self c hc, List.singleton_append, List.cons_prefix_cons]
          at hbars
        exact List.cons_prefix_cons.2 ⟨hbars.1, ih hbars.2⟩
      | false =>
        obtain ⟨d, ds, hspell⟩ := List.exists_cons_of_ne_nil (h.ne_nil c)
        have hd := h.unmarked c hc d (by simp [hspell])
        rw [List.flatMap_cons, hspell, List.cons_append, List.cons_prefix_cons] at hbars
        simp [← hbars.1] at hd

/-- Characters in front that are no bars belong to the first piece. -/
theorem splitBars_append_of_not_mem {front : List Char} (h : '|' ∉ front) (cs : List Char) :
    splitBars (front ++ cs) = (splitBars cs).modifyHead (front ++ ·) := by
  induction front with
  | nil => exact (congrFun List.modifyHead_id _).symm
  | cons c front ih =>
    rw [List.mem_cons, not_or] at h
    have hnot : ¬['|', '|', '|'] <+: c :: (front ++ cs) := by
      rw [List.cons_prefix_cons]
      exact fun hbars => h.1 hbars.1
    rw [List.cons_append, splitBars_cons hnot, ih h.2, List.modifyHead_modifyHead]
    rfl

/-- A line is cut at its bars before or after it is spelled. -/
theorem splitBars_flatMap (h : Spells spell (· == '|')) (cs : List Char) :
    splitBars (cs.flatMap spell) = (splitBars cs).map (List.flatMap spell) := by
  have hbar : spell '|' = ['|'] := h.eq_self '|' rfl
  induction cs using splitBars.induct with
  | case1 => rfl
  | case2 cs ih =>
    simp only [List.flatMap_cons, hbar, List.singleton_append, splitBars, ih, List.map_cons,
      List.flatMap_nil]
  | case3 c cs hbars ih =>
    obtain ⟨first, rest, hsplit, -⟩ := exists_splitBars cs
    have hnot : ¬List.replicate 3 '|' <+: c :: cs := not_bars_prefix hbars
    rw [splitBars_cons hnot, hsplit]
    cases hc : c == '|' with
    | true =>
      have hcs := fun hspelled => hnot (replicate_prefix_flatMap h hspelled)
      rw [List.flatMap_cons, h.eq_self c hc, List.singleton_append] at hcs ⊢
      rw [splitBars_cons hcs, ih, hsplit]
      simp [h.eq_self c hc]
    | false =>
      have hmem : '|' ∉ spell c := fun hmem => by simpa using h.unmarked c hc '|' hmem
      rw [List.flatMap_cons, splitBars_append_of_not_mem hmem, ih, hsplit]
      rfl

/-- A line is cut into fields before or after it is spelled. -/
theorem fieldChars_flatMap (hblank : Spells spell isBlank) (hbar : Spells spell (· == '|'))
    (cs : List Char) :
    fieldChars (cs.flatMap spell) = (fieldChars cs).map (List.flatMap spell) := by
  unfold fieldChars
  rw [splitBars_flatMap hbar, List.map_map, List.map_map]
  exact List.map_congr_left fun piece _ => trimChars_flatMap hblank piece

end Spelling

/-! ## Bytes -/

/-- The encoding of a character as a byte string. -/
def utf8Char (c : Char) : List Char :=
  ofBytes (String.utf8EncodeChar c)

/-- A text is encoded character by character. -/
theorem utf8_eq_flatMap (s : String) : utf8 s = s.toList.flatMap utf8Char := by
  have hencode : s.toUTF8 = (s.toList.flatMap String.utf8EncodeChar).toByteArray :=
    String.utf8Encode_toList.symm
  unfold utf8 ofBytes
  rw [hencode, List.toList_data_toByteArray, List.map_flatMap]
  rfl

/-- A byte keeps its number. -/
theorem toNat_ofUInt8 (byte : UInt8) : (Char.ofUInt8 byte).toNat = byte.toNat :=
  UInt8.toNat_toUInt32 byte

/-- A character below 128 is its own byte. -/
theorem utf8Char_of_lt {c : Char} (h : c.toNat < 128) : utf8Char c = [c] := by
  have hsingle : String.utf8EncodeChar c = [UInt8.ofNat c.toNat] :=
    if_pos (show c.toNat ≤ 127 by omega)
  have hchar : Char.ofUInt8 (UInt8.ofNat c.toNat) = c := by
    rw [← Char.toNat_inj, toNat_ofUInt8, UInt8.toNat_ofNat']
    omega
  unfold utf8Char ofBytes
  rw [hsingle, List.map_singleton, hchar]

/-- The bytes of a character beyond the first 128 all have their highest bit set. -/
theorem le_of_mem_utf8Char {c : Char} (h : 128 ≤ c.toNat) {d : Char} (hd : d ∈ utf8Char c) :
    128 ≤ d.toNat := by
  obtain ⟨byte, hbyte, rfl⟩ := List.mem_map.1 hd
  have hlow : ¬c.val.toNat ≤ 127 := fun hle => absurd h (by unfold Char.toNat; omega)
  rw [toNat_ofUInt8]
  unfold String.utf8EncodeChar at hbyte
  dsimp only at hbyte
  rw [if_neg hlow] at hbyte
  split at hbyte
  · simp only [List.mem_cons, List.not_mem_nil, or_false] at hbyte
    rcases hbyte with rfl | rfl <;> rw [UInt8.toNat_ofNat'] <;> omega
  · split at hbyte <;> simp only [List.mem_cons, List.not_mem_nil, or_false] at hbyte
    · rcases hbyte with rfl | rfl | rfl <;> rw [UInt8.toNat_ofNat'] <;> omega
    · rcases hbyte with rfl | rfl | rfl | rfl <;> rw [UInt8.toNat_ofNat'] <;> omega

/-- The encoding spells any characters that lie below 128. -/
theorem spells_utf8Char {mark : Char → Bool} (h : ∀ c, mark c = true → c.toNat < 128) :
    Spells utf8Char mark where
  ne_nil c := by simp [utf8Char, ofBytes]
  eq_self c hc := utf8Char_of_lt (h c hc)
  unmarked := by
    intro c hc d hd
    by_cases hlow : c.toNat < 128
    · rw [utf8Char_of_lt hlow, List.mem_singleton] at hd
      rwa [hd]
    · have hhigh := le_of_mem_utf8Char (Nat.le_of_not_lt hlow) hd
      by_contra hmark
      have := h d (by simpa using hmark)
      omega

/-- White space is encoded as itself. -/
theorem spells_isBlank : Spells utf8Char isBlank := by
  apply spells_utf8Char
  intro c hc
  simp only [isBlank, Bool.or_eq_true, beq_iff_eq] at hc
  rcases hc with ((((rfl | rfl) | rfl) | rfl) | rfl) | rfl <;> decide

/-- Spaces and tabs are encoded as themselves. -/
theorem spells_isGap : Spells utf8Char isGap := by
  apply spells_utf8Char
  intro c hc
  simp only [isGap, Bool.or_eq_true, beq_iff_eq] at hc
  rcases hc with rfl | rfl <;> decide

/-- The bar is encoded as itself. -/
theorem spells_bar : Spells utf8Char (· == '|') := by
  apply spells_utf8Char
  intro c hc
  rw [beq_iff_eq.1 hc]
  decide

/-- The bytes of the fields are the fields of the bytes. -/
theorem fieldChars_utf8 (s : String) : fieldChars (utf8 s) = (fields s).map utf8 := by
  rw [utf8_eq_flatMap, fieldChars_flatMap spells_isBlank spells_bar, fields, List.map_map]
  exact List.map_congr_left fun field _ => by simp [utf8_eq_flatMap]

/-- The bytes of the words are the words of the bytes. -/
theorem tokenChars_utf8 (s : String) : tokenChars (utf8 s) = (tokens s).map utf8 := by
  rw [utf8_eq_flatMap, tokenChars_flatMap spells_isBlank spells_isGap, tokens, List.map_map]
  exact List.map_congr_left fun token _ => by simp [utf8_eq_flatMap]

/-! ## Files -/

/-- What is read is written byte by byte as it was. -/
theorem written_read (bytes : ByteArray) : written (read bytes) = bytes := by
  have hbyte : ∀ byte : UInt8, UInt8.ofNat (Char.ofUInt8 byte).toNat = byte := by
    intro byte
    rw [toNat_ofUInt8, UInt8.ofNat_toNat]
  unfold written read ofBytes
  rw [String.toList_ofList, List.map_map]
  have hmap : bytes.data.toList.map ((fun c : Char => UInt8.ofNat c.toNat) ∘ Char.ofUInt8) =
      bytes.data.toList :=
    (List.map_congr_left fun byte _ => hbyte byte).trans (List.map_id _)
  rw [hmap]

/-- A text is decoded again from its byte string. -/
theorem decoded?_encoded (s : String) : decoded? (encoded s) = some s := by
  have hbytes : written (encoded s) = s.toUTF8 := written_read s.toUTF8
  unfold decoded?
  rw [hbytes]
  exact dif_pos s.isValidUTF8

end PhraseTable.Text
