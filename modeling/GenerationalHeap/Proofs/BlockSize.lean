import Mathlib.Data.Nat.Bitwise
import GenerationalHeap.Heap.Basic

namespace GenerationalHeap

/-- Bytes of a payload as an integer, whatever the word range. -/
def PayloadKind.exactBytes : PayloadKind → Nat → Nat
  | .objects, count => nodeBytes * count
  | .bytes, count => count

/-- Size of the block of a payload: the header, and the payload padded to the minimum and up to the
next multiple of the alignment. -/
def PayloadKind.blockBytes (kind : PayloadKind) (count : Nat) : Nat :=
  headerBytes + blockAlign * ((max (kind.exactBytes count) minPayload + (blockAlign - 1)) / blockAlign)

theorem PayloadKind.blockAlign_dvd_blockBytes (kind : PayloadKind) (count : Nat) :
    blockAlign ∣ kind.blockBytes count := by
  apply Nat.dvd_add
  · exact ⟨2, rfl⟩
  · exact Nat.dvd_mul_right _ _

theorem PayloadKind.payloadBytes_eq (kind : PayloadKind) (count payload : Nat)
    (h : kind.payloadBytes count = some payload) : payload = kind.exactBytes count := by
  cases kind with
  | objects =>
    simp only [payloadBytes, Word.mul?] at h
    split at h
    · have hp : count * nodeBytes = payload := Option.some.inj h
      rw [← hp, exactBytes, Nat.mul_comm]
    · simp at h
  | bytes =>
    simp only [payloadBytes, Option.some.injEq] at h
    rw [← h, exactBytes]

namespace Word

/-- Masking off the low bits of a word is rounding down to a multiple. -/
theorem clearBelow_two_pow (k n : Nat) (hk : k ≤ 64) (hn : n < span) :
    clearBelow (2 ^ k) n = 2 ^ k * (n / 2 ^ k) := by
  have hle : 2 ^ k ≤ 2 ^ 64 := Nat.pow_le_pow_right (by decide) hk
  have hpos : 0 < 2 ^ k := Nat.two_pow_pos k
  have hspan : span = 2 ^ 64 := by decide
  have hmask : span - 2 ^ k = 2 ^ 64 - (2 ^ k - 1 + 1) := by omega
  apply Nat.eq_of_testBit_eq
  intro i
  have hhigh : 64 ≤ i → n.testBit i = false := by
    intro hi
    rw [hspan] at hn
    exact Nat.testBit_lt_two_pow (lt_of_lt_of_le hn (Nat.pow_le_pow_right (by decide) hi))
  rw [clearBelow, Nat.testBit_and, hmask, Nat.testBit_two_pow_sub_succ (by omega),
    Nat.testBit_two_pow_sub_one, Nat.testBit_two_pow_mul, Nat.testBit_div_two_pow]
  by_cases hi : k ≤ i
  · rw [Nat.sub_add_cancel hi]
    by_cases hw : i < 64
    · simp [hi, hw, Nat.not_lt.mpr hi]
    · simp [hhigh (by omega)]
  · simp [hi, Nat.lt_of_not_le hi]

/-- Rounding is the sum and the division of integers, as long as the sum is a word. -/
theorem roundUp?_two_pow (k n : Nat) (hk : k ≤ 64) :
    roundUp? (2 ^ k) n =
      if n + (2 ^ k - 1) < span then some (2 ^ k * ((n + (2 ^ k - 1)) / 2 ^ k)) else none := by
  rw [roundUp?, add?]
  by_cases h : n + (2 ^ k - 1) < span
  · rw [if_pos h, if_pos h, Option.map_some, clearBelow_two_pow k _ hk h]
  · rw [if_neg h, if_neg h, Option.map_none]

theorem roundUp?_eq (k n m : Nat) (hk : k ≤ 64) (h : roundUp? (2 ^ k) n = some m) :
    m = 2 ^ k * ((n + (2 ^ k - 1)) / 2 ^ k) ∧ n + (2 ^ k - 1) < span := by
  rw [roundUp?_two_pow k n hk] at h
  split at h
  · rename_i hlt
    exact ⟨(Option.some.inj h).symm, hlt⟩
  · simp at h

/-- A rounded word is at least the word and still a word. -/
theorem roundUp?_bounds (k n m : Nat) (hk : k ≤ 64) (h : roundUp? (2 ^ k) n = some m) :
    n ≤ m ∧ m < span := by
  obtain ⟨hm, hlt⟩ := roundUp?_eq k n m hk h
  have hdiv := Nat.div_add_mod (n + (2 ^ k - 1)) (2 ^ k)
  have hmod := Nat.mod_lt (n + (2 ^ k - 1)) (Nat.two_pow_pos k)
  omega

end Word

/-- A block has a header and its padded payload. The guards on the sums refuse nothing that the bound
on the block would accept. -/
theorem blockSize?_eq_ite (payload : Nat) :
    blockSize? payload =
      let size := headerBytes +
        blockAlign * ((max payload minPayload + (blockAlign - 1)) / blockAlign)
      if size ≤ largestBlock then some size else none := by
  have hspan : largestBlock < Word.span := by decide
  have halign : blockAlign = 2 ^ 4 := rfl
  rw [blockSize?, halign, Word.roundUp?_two_pow 4 _ (by decide)]
  generalize max payload minPayload = padded
  simp only
  by_cases hraised : padded + (2 ^ 4 - 1) < Word.span
  · rw [if_pos hraised, Option.bind_eq_bind, Option.bind_some, Word.add?]
    by_cases hsum : headerBytes + 2 ^ 4 * ((padded + (2 ^ 4 - 1)) / 2 ^ 4) < Word.span
    · rw [if_pos hsum]
      rfl
    · rw [if_neg hsum, if_neg (by omega)]
      rfl
  · rw [if_neg hraised, if_neg (by rw [headerBytes]; omega)]
    rfl

theorem blockSize?_eq_some {payload size : Nat} (h : blockSize? payload = some size) :
    size = headerBytes +
        blockAlign * ((max payload minPayload + (blockAlign - 1)) / blockAlign) ∧
      size ≤ largestBlock := by
  rw [blockSize?_eq_ite] at h
  simp only at h
  split at h
  · rename_i hle
    obtain rfl := Option.some.inj h
    exact ⟨rfl, hle⟩
  · simp at h

/-- A request that is served has a payload within the limit and a block for it. -/
theorem requestSize_eq_ok {limit count size : Nat} {kind : PayloadKind}
    (h : requestSize limit kind count = .ok size) :
    ∃ payload, kind.payloadBytes count = some payload ∧ payload ≤ limit ∧
      blockSize? payload = some size := by
  unfold requestSize at h
  split at h
  · simp at h
  · rename_i payload hp
    split at h
    · simp at h
    · rename_i hlimit
      split at h
      · simp at h
      · rename_i bytes hb
        obtain rfl := Except.ok.inj h
        exact ⟨payload, hp, Nat.le_of_not_lt hlimit, hb⟩

/-- A request is refused for its size only, and the error names the limit. -/
theorem requestSize_eq_error {limit count : Nat} {kind : PayloadKind} {e : RuntimeError}
    (h : requestSize limit kind count = .error e) :
    ∃ requested, e = .allocationTooLarge requested limit := by
  unfold requestSize at h
  split at h
  · exact ⟨_, (Except.error.inj h).symm⟩
  · split at h
    · exact ⟨_, (Except.error.inj h).symm⟩
    · split at h
      · exact ⟨_, (Except.error.inj h).symm⟩
      · simp at h

theorem requestSize_eq (limit : Nat) (kind : PayloadKind) (count size : Nat)
    (h : requestSize limit kind count = .ok size) : size = kind.blockBytes count := by
  obtain ⟨payload, hp, _, hb⟩ := requestSize_eq_ok h
  rw [(blockSize?_eq_some hb).1, PayloadKind.payloadBytes_eq _ _ _ hp]
  rfl

theorem requestSize_le {limit : Nat} {kind : PayloadKind} {count size : Nat}
    (h : requestSize limit kind count = .ok size) : kind.blockBytes count ≤ largestBlock := by
  obtain ⟨payload, _, _, hb⟩ := requestSize_eq_ok h
  rw [← requestSize_eq _ _ _ _ h]
  exact (blockSize?_eq_some hb).2

end GenerationalHeap
