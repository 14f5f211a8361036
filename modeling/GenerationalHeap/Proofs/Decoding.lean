import GenerationalHeap.Text.Utf8

namespace GenerationalHeap.Utf8

theorem within_iff (low high b : UInt8) :
    within low high b = true ↔ low.toNat ≤ b.toNat ∧ b.toNat ≤ high.toNat := by
  simp [within, UInt8.le_iff_toNat_le]

theorem toNat_byte {n : Nat} (h : n < 256) : (UInt8.ofNat n).toNat = n := UInt8.toNat_ofNat_of_lt' h

section Leads

variable {b : UInt8}

/-- A lead byte of two: its second byte may be any tail byte. -/
theorem lead?_two (hlow : 0xC2 ≤ b.toNat) (hhigh : b.toNat ≤ 0xDF) :
    lead? b = some ⟨b.toNat - 0xC0, 0x80, 0xBF, 0⟩ := by
  rw [lead?, if_pos ((within_iff 0xC2 0xDF b).mpr ⟨hlow, hhigh⟩)]

/-- A lead byte of three: after the first of them the second byte is not too low, and after the one that
leads to surrogates not too high. -/
theorem lead?_three (hlow : 0xE0 ≤ b.toNat) (hhigh : b.toNat ≤ 0xEF) :
    ∃ low high, lead? b = some ⟨b.toNat - 0xE0, low, high, 1⟩ ∧
      low.toNat = (if b.toNat = 0xE0 then 0xA0 else 0x80) ∧
      high.toNat = (if b.toNat = 0xED then 0x9F else 0xBF) := by
  have htwo : ¬ within 0xC2 0xDF b = true := by
    intro hw
    have hle : b.toNat ≤ 0xDF := ((within_iff 0xC2 0xDF b).mp hw).2
    omega
  rw [lead?, if_neg htwo]
  by_cases hfirst : b = 0xE0
  · subst hfirst
    exact ⟨_, _, rfl, rfl, rfl⟩
  by_cases hsurrogate : b = 0xED
  · subst hsurrogate
    exact ⟨_, _, rfl, rfl, rfl⟩
  have hfirst' : b.toNat ≠ 0xE0 := fun he => hfirst (UInt8.toNat_inj.mp he)
  have hsurrogate' : b.toNat ≠ 0xED := fun he => hsurrogate (UInt8.toNat_inj.mp he)
  have hrest : within 0xE1 0xEF b = true := by
    apply (within_iff 0xE1 0xEF b).mpr
    show 0xE1 ≤ b.toNat ∧ b.toNat ≤ 0xEF
    omega
  rw [if_neg hfirst, if_neg hsurrogate, if_pos hrest, if_neg hfirst', if_neg hsurrogate']
  exact ⟨_, _, rfl, rfl, rfl⟩

/-- A lead byte of four: after the first of them the second byte is not too low, and after the last not
too high. -/
theorem lead?_four (hlow : 0xF0 ≤ b.toNat) (hhigh : b.toNat ≤ 0xF4) :
    ∃ low high, lead? b = some ⟨b.toNat - 0xF0, low, high, 2⟩ ∧
      low.toNat = (if b.toNat = 0xF0 then 0x90 else 0x80) ∧
      high.toNat = (if b.toNat = 0xF4 then 0x8F else 0xBF) := by
  have htwo : ¬ within 0xC2 0xDF b = true := by
    intro hw
    have hle : b.toNat ≤ 0xDF := ((within_iff 0xC2 0xDF b).mp hw).2
    omega
  have hthree : ¬ within 0xE1 0xEF b = true := by
    intro hw
    have hle : b.toNat ≤ 0xEF := ((within_iff 0xE1 0xEF b).mp hw).2
    omega
  have hother : ∀ c : UInt8, c.toNat < 0xF0 → b ≠ c := by
    rintro c hc rfl
    omega
  rw [lead?, if_neg htwo, if_neg (hother _ (by decide)), if_neg (hother _ (by decide)), if_neg hthree]
  by_cases hfirst : b = 0xF0
  · subst hfirst
    exact ⟨_, _, rfl, rfl, rfl⟩
  by_cases hlast : b = 0xF4
  · subst hlast
    exact ⟨_, _, rfl, rfl, rfl⟩
  have hfirst' : b.toNat ≠ 0xF0 := fun he => hfirst (UInt8.toNat_inj.mp he)
  have hlast' : b.toNat ≠ 0xF4 := fun he => hlast (UInt8.toNat_inj.mp he)
  have hrest : within 0xF1 0xF3 b = true := by
    apply (within_iff 0xF1 0xF3 b).mpr
    show 0xF1 ≤ b.toNat ∧ b.toNat ≤ 0xF3
    omega
  rw [if_neg hfirst, if_pos hrest, if_neg hfirst', if_neg hlast']
  exact ⟨_, _, rfl, rfl, rfl⟩

end Leads

section Characters

variable (rest : List UInt8)

theorem readTail_byte {n code y : Nat} (hy : y < 64) :
    readTail (n + 1) code (UInt8.ofNat (y + 128) :: rest) = readTail n (code * 64 + y) rest := by
  have hbyte := toNat_byte (show y + 128 < 256 by omega)
  have htail : isTail (UInt8.ofNat (y + 128)) = true := by
    rw [isTail, within_iff, hbyte]
    show 128 ≤ y + 128 ∧ y + 128 ≤ 191
    omega
  rw [readTail, if_pos htail, hbyte, Nat.add_sub_cancel]

/-- A character of several bytes is read if its second byte is in the range that the lead byte sets. -/
theorem readChar_of_lead {b second : UInt8} {lead : Lead} (hb : 0x80 ≤ b.toNat)
    (hlead : lead? b = some lead) (hlow : lead.low.toNat ≤ second.toNat)
    (hhigh : second.toNat ≤ lead.high.toNat) {code : Nat} {more : List UInt8}
    (htail : readTail lead.tail (lead.payload * 64 + (second.toNat - 0x80)) more = (some code, rest)) :
    readChar b (second :: more) = (Char.ofNat code, rest) := by
  have hmulti : ¬ b < 0x80 := by
    rw [UInt8.lt_iff_toNat_lt, Nat.not_lt]
    exact hb
  simp only [readChar, if_neg hmulti, hlead, (within_iff _ _ _).mpr ⟨hlow, hhigh⟩, if_true, htail]

theorem readChar_one {x : Nat} (hx : x < 128) :
    readChar (UInt8.ofNat x) rest = (Char.ofNat x, rest) := by
  have hbyte := toNat_byte (show x < 256 by omega)
  have hsingle : UInt8.ofNat x < 0x80 := by
    rw [UInt8.lt_iff_toNat_lt, hbyte]
    exact hx
  unfold readChar
  rw [if_pos hsingle, hbyte]

theorem readChar_two {x y : Nat} (hx : 2 ≤ x) (hx' : x < 32) (hy : y < 64) :
    readChar (UInt8.ofNat (x + 192)) (UInt8.ofNat (y + 128) :: rest) = (Char.ofNat (x * 64 + y), rest) := by
  have hb := toNat_byte (show x + 192 < 256 by omega)
  have hsecond := toNat_byte (show y + 128 < 256 by omega)
  have hlead := lead?_two (b := UInt8.ofNat (x + 192)) (by omega) (by omega)
  refine readChar_of_lead rest (by omega) hlead ?_ ?_ ?_
  · rw [hsecond]
    exact Nat.le_add_left 128 y
  · rw [hsecond]
    show y + 128 ≤ 191
    omega
  · rw [hb, hsecond, Nat.add_sub_cancel, Nat.add_sub_cancel]
    rfl

theorem readChar_three {x y z : Nat} (hx : x < 16) (hy : y < 64) (hz : z < 64)
    (hlow : x = 0 → 32 ≤ y) (hhigh : x = 13 → y < 32) :
    readChar (UInt8.ofNat (x + 224)) (UInt8.ofNat (y + 128) :: UInt8.ofNat (z + 128) :: rest) =
      (Char.ofNat ((x * 64 + y) * 64 + z), rest) := by
  have hb := toNat_byte (show x + 224 < 256 by omega)
  have hsecond := toNat_byte (show y + 128 < 256 by omega)
  obtain ⟨low, high, hlead, hlow', hhigh'⟩ :=
    lead?_three (b := UInt8.ofNat (x + 224)) (by omega) (by omega)
  refine readChar_of_lead rest (by omega) hlead ?_ ?_ ?_
  · rw [hlow', hb, hsecond]
    split <;> omega
  · rw [hhigh', hb, hsecond]
    split <;> omega
  · rw [hb, hsecond, Nat.add_sub_cancel, Nat.add_sub_cancel, readTail_byte _ hz]
    rfl

theorem readChar_four {w x y z : Nat} (hw : w ≤ 4) (hx : x < 64) (hy : y < 64) (hz : z < 64)
    (hlow : w = 0 → 16 ≤ x) (hhigh : w = 4 → x < 16) :
    readChar (UInt8.ofNat (w + 240)) (UInt8.ofNat (x + 128) :: UInt8.ofNat (y + 128) ::
      UInt8.ofNat (z + 128) :: rest) = (Char.ofNat (((w * 64 + x) * 64 + y) * 64 + z), rest) := by
  have hb := toNat_byte (show w + 240 < 256 by omega)
  have hsecond := toNat_byte (show x + 128 < 256 by omega)
  obtain ⟨low, high, hlead, hlow', hhigh'⟩ :=
    lead?_four (b := UInt8.ofNat (w + 240)) (by omega) (by omega)
  refine readChar_of_lead rest (by omega) hlead ?_ ?_ ?_
  · rw [hlow', hb, hsecond]
    split <;> omega
  · rw [hhigh', hb, hsecond]
    split <;> omega
  · rw [hb, hsecond, Nat.add_sub_cancel, Nat.add_sub_cancel, readTail_byte _ hy, readTail_byte _ hz]
    rfl

/-- A character is read back from its bytes, and what follows them is left. -/
theorem readChar_utf8EncodeChar (c : Char) : ∃ b more, String.utf8EncodeChar c = b :: more ∧
    readChar b (more ++ rest) = (c, rest) := by
  have hvalid : c.toNat < 0xD800 ∨ 0xDFFF < c.toNat ∧ c.toNat < 0x110000 := c.valid
  have hval : c.val.toNat = c.toNat := rfl
  have hback : ∀ n, n = c.toNat → (Char.ofNat n, rest) = (c, rest) := by
    rintro n rfl
    rw [Char.ofNat_toNat]
  rw [String.utf8EncodeChar, hval]
  by_cases hone : c.toNat ≤ 127
  · rw [if_pos hone]
    exact ⟨_, _, rfl, (readChar_one rest (by omega)).trans (hback _ rfl)⟩
  rw [if_neg hone]
  by_cases htwo : c.toNat ≤ 2047
  · rw [if_pos htwo]
    exact ⟨_, _, rfl, (readChar_two rest (by omega) (by omega) (by omega)).trans (hback _ (by omega))⟩
  rw [if_neg htwo]
  -- From here on the second byte has to be in the range of its lead byte, which it is for no surrogate.
  by_cases hthree : c.toNat ≤ 65535
  · rw [if_pos hthree]
    exact ⟨_, _, rfl, (readChar_three rest (by omega) (by omega) (by omega) (by omega) (by omega)).trans
      (hback _ (by omega))⟩
  · rw [if_neg hthree]
    exact ⟨_, _, rfl, (readChar_four rest (by omega) (by omega) (by omega) (by omega) (by omega)
      (by omega)).trans (hback _ (by omega))⟩

end Characters

theorem readOnto_utf8Encode (done text : List Char) :
    readOnto done (text.flatMap String.utf8EncodeChar) = text.reverse ++ done := by
  induction text generalizing done with
  | nil => simp [readOnto]
  | cons c text ih =>
    obtain ⟨b, more, hbytes, hread⟩ := readChar_utf8EncodeChar (text.flatMap String.utf8EncodeChar) c
    rw [List.flatMap_cons, hbytes, List.cons_append, readOnto, hread, ih]
    simp

theorem toList_encode (text : String) :
    (encode text).toList = text.toList.flatMap String.utf8EncodeChar := by
  rw [encode, String.toUTF8, ← String.utf8Encode_toList, List.utf8Encode, List.data_toByteArray]

/-- A text is read back from its bytes. -/
theorem decodeLossy_encode (text : String) : decodeLossy (encode text).toList = text := by
  rw [decodeLossy, toList_encode, readOnto_utf8Encode]
  simp

end GenerationalHeap.Utf8
