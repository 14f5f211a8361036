namespace GenerationalHeap.Utf8

/-- Stands for a stretch of bytes that is no character. -/
def replacement : Char := Char.ofNat 0xFFFD

def within (low high b : UInt8) : Bool := low ≤ b && b ≤ high

def isTail (b : UInt8) : Bool := within 0x80 0xBF b

/-- How a multi-byte character goes on after its lead byte: the payload of the lead, the range of
the second byte, and the number of tail bytes after that. -/
structure Lead where
  payload : Nat
  low : UInt8
  high : UInt8
  tail : Nat

/-- The second byte is bounded so that no character has an overlong form, is a surrogate or exceeds
the last code point. -/
def lead? (b : UInt8) : Option Lead :=
  if within 0xC2 0xDF b then some ⟨b.toNat - 0xC0, 0x80, 0xBF, 0⟩
  else if b = 0xE0 then some ⟨0, 0xA0, 0xBF, 1⟩
  else if b = 0xED then some ⟨0xD, 0x80, 0x9F, 1⟩
  else if within 0xE1 0xEF b then some ⟨b.toNat - 0xE0, 0x80, 0xBF, 1⟩
  else if b = 0xF0 then some ⟨0, 0x90, 0xBF, 2⟩
  else if within 0xF1 0xF3 b then some ⟨b.toNat - 0xF0, 0x80, 0xBF, 2⟩
  else if b = 0xF4 then some ⟨4, 0x80, 0x8F, 2⟩
  else none

/-- Reads tail bytes onto a code; what is read up to the first misfit is dropped. -/
def readTail : Nat → Nat → List UInt8 → Option Nat × List UInt8
  | 0, code, rest => (some code, rest)
  | _ + 1, _, [] => (none, [])
  | n + 1, code, b :: rest =>
    if isTail b then readTail n (code * 64 + (b.toNat - 0x80)) rest else (none, b :: rest)

/-- Reads the character that starts with byte `b`, or one replacement for the longest stretch that
starts like a character. -/
def readChar (b : UInt8) (rest : List UInt8) : Char × List UInt8 :=
  if b < 0x80 then (Char.ofNat b.toNat, rest)
  else match lead? b, rest with
    | some lead, second :: more =>
      if within lead.low lead.high second then
        match readTail lead.tail (lead.payload * 64 + (second.toNat - 0x80)) more with
        | (some code, rest') => (Char.ofNat code, rest')
        | (none, rest') => (replacement, rest')
      else (replacement, rest)
    | _, _ => (replacement, rest)

theorem readTail_length (n code : Nat) (bytes : List UInt8) :
    (readTail n code bytes).2.length ≤ bytes.length := by
  induction n generalizing code bytes with
  | zero => simp [readTail]
  | succ n ih =>
    cases bytes with
    | nil => simp [readTail]
    | cons b rest =>
      simp only [readTail]
      split
      · exact Nat.le_succ_of_le (ih _ rest)
      · exact Nat.le_refl _

theorem readChar_length (b : UInt8) (rest : List UInt8) :
    (readChar b rest).2.length ≤ rest.length := by
  unfold readChar
  split
  · exact Nat.le_refl _
  · split
    · rename_i lead second more _
      split
      · have h := readTail_length lead.tail (lead.payload * 64 + (second.toNat - 0x80)) more
        split <;> rename_i he <;> rw [he] at h <;> exact Nat.le_succ_of_le h
      · exact Nat.le_refl _
    · exact Nat.le_refl _

/-- Reads all characters behind those already read, the latest first. -/
def readOnto (done : List Char) : List UInt8 → List Char
  | [] => done
  | b :: rest => readOnto ((readChar b rest).1 :: done) (readChar b rest).2
termination_by bytes => bytes.length
decreasing_by
  exact Nat.lt_succ_of_le (readChar_length b rest)

/-- Text of a byte string, every ill-formed stretch replaced. -/
def decodeLossy (bytes : List UInt8) : String :=
  String.ofList (readOnto [] bytes).reverse

/-- Bytes of a text. -/
def encode (text : String) : Array UInt8 := text.toUTF8.data

end GenerationalHeap.Utf8
