import GenerationalHeap.Proofs.Words

namespace GenerationalHeap

/-- A list that is read while its members are in order agrees with another one if each member that is
read agrees. -/
theorem takeWhile_cons_isPrefix {p : Nat → Bool} {v w : Nat} {l l' : List Nat}
    (hhead : p v = true → w = v) (htail : p v = true → l.takeWhile p <+: l') :
    (v :: l).takeWhile p <+: w :: l' := by
  by_cases hv : p v = true
  · rw [List.takeWhile_cons_of_pos hv, hhead hv, List.cons_prefix_cons]
    exact ⟨rfl, htail hv⟩
  · rw [List.takeWhile_cons_of_neg hv]
    exact List.nil_prefix

namespace PayloadKind

/-- The numbers that lead to the size of a block: the payload, the payload with the term that rounds
it up, the padded payload, and the padded payload with its header. -/
def exactSteps (kind : PayloadKind) (count : Nat) : List Nat :=
  let payload := max (kind.exactBytes count) minPayload
  [kind.exactBytes count, payload + (blockAlign - 1), Word.ceilTo blockAlign payload,
    headerBytes + Word.ceilTo blockAlign payload]

/-- Payload in the words of a machine, whose product wraps. -/
def machineBytes : PayloadKind → UInt64 → UInt64
  | .objects, count => count * 24
  | .bytes, count => count

/-- The same numbers in the words of a machine, whose sums wrap. -/
def machineSteps (kind : PayloadKind) (count : UInt64) : List UInt64 :=
  let raised := max (kind.machineBytes count) 16 + (16 - 1)
  [kind.machineBytes count, raised, raised &&& ~~~(16 - 1), 32 + (raised &&& ~~~(16 - 1))]

variable (kind : PayloadKind)

theorem blockBytes_eq (count : Nat) :
    kind.blockBytes count =
      headerBytes + Word.ceilTo blockAlign (max (kind.exactBytes count) minPayload) := by
  rw [blockBytes, Word.ceilTo_eq_div (by decide)]

/-- The padded payload holds the payload and the least payload. -/
theorem le_padded (count : Nat) :
    kind.exactBytes count ≤ Word.ceilTo blockAlign (max (kind.exactBytes count) minPayload) ∧
      minPayload ≤ Word.ceilTo blockAlign (max (kind.exactBytes count) minPayload) :=
  max_le_iff.mp (Word.le_ceilTo (by decide) _)

/-- No number on the way exceeds the block size by a unit of alignment. -/
theorem lt_of_mem_exactSteps {count v : Nat} (hv : v ∈ kind.exactSteps count) :
    v < kind.blockBytes count + blockAlign := by
  have hpos : 0 < blockAlign := by decide
  have hle := Word.le_ceilTo hpos (max (kind.exactBytes count) minPayload)
  have hpayload := le_max_left (kind.exactBytes count) minPayload
  rw [blockBytes_eq]
  simp only [exactSteps, List.mem_cons, List.not_mem_nil, or_false] at hv
  have halign : blockAlign = 16 := rfl
  rcases hv with rfl | rfl | rfl | rfl <;> omega

theorem payloadBytes_exact (count : Nat) (hcount : count < Word.span) :
    kind.payloadBytes count =
      if kind.exactBytes count < Word.span then some (kind.exactBytes count) else none := by
  cases kind with
  | objects => rw [payloadBytes, Word.mul?, exactBytes, Nat.mul_comm]
  | bytes => rw [payloadBytes, exactBytes, if_pos hcount]

/-- As long as the payload is a word, the product of the machine is exact. -/
theorem toNat_machineBytes {count : UInt64} (h : kind.exactBytes count.toNat < Word.span) :
    (kind.machineBytes count).toNat = kind.exactBytes count.toNat := by
  cases kind with
  | objects =>
    rw [exactBytes, Nat.mul_comm] at h ⊢
    exact Word.toNat_mul_of_lt h
  | bytes => rfl

/-- Padding a payload and adding its header is exact up to the first number that is no word. -/
theorem paddingSteps_isPrefix (payload : UInt64) :
    [payload.toNat + (blockAlign - 1), Word.ceilTo blockAlign payload.toNat,
        headerBytes + Word.ceilTo blockAlign payload.toNat].takeWhile (· < Word.span) <+:
      [payload + (16 - 1), (payload + (16 - 1)) &&& ~~~(16 - 1),
        32 + ((payload + (16 - 1)) &&& ~~~(16 - 1))].map UInt64.toNat := by
  have hpadded (h : Word.ceilTo blockAlign payload.toNat < Word.span) :
      ((payload + (16 - 1)) &&& ~~~(16 - 1)).toNat = Word.ceilTo blockAlign payload.toNat :=
    Word.toNat_roundUp (k := 4) rfl h
  -- The steps are taken in the order of the machine: a step is looked at only if all before it are words.
  apply takeWhile_cons_isPrefix
  · intro h
    exact Word.toNat_add_of_lt (of_decide_eq_true h)
  intro _
  apply takeWhile_cons_isPrefix
  · intro h
    exact hpadded (of_decide_eq_true h)
  intro h
  rw [← hpadded (of_decide_eq_true h)]
  apply takeWhile_cons_isPrefix
  · intro h
    exact Word.toNat_add_of_lt (of_decide_eq_true h)
  intro _
  exact List.nil_prefix

/-- The words of the machine hold the exact numbers up to the first that is no word. -/
theorem exactSteps_isPrefix (count : UInt64) :
    (kind.exactSteps count.toNat).takeWhile (· < Word.span) <+:
      (kind.machineSteps count).map UInt64.toNat := by
  have hbytes (h : kind.exactBytes count.toNat < Word.span) := kind.toNat_machineBytes h
  apply takeWhile_cons_isPrefix
  · intro h
    exact hbytes (of_decide_eq_true h)
  intro h
  have hpayload : max (kind.exactBytes count.toNat) minPayload =
      (max (kind.machineBytes count) 16).toNat := by
    rw [UInt64.toNat_max, hbytes (of_decide_eq_true h)]
    rfl
  rw [hpayload]
  exact paddingSteps_isPrefix _

end PayloadKind

/-- A request is served with its exact block size, or refused with its exact payload as far as that is
a word. -/
theorem requestSize_exact (kind : PayloadKind) {count limit : Nat} (hcount : count < Word.span)
    (hlimit : limit < Word.span) :
    requestSize limit kind count =
      if kind.exactBytes count ≤ limit ∧ kind.blockBytes count ≤ largestBlock then
        .ok (kind.blockBytes count)
      else .error (.allocationTooLarge (min (kind.exactBytes count) Word.largest) limit) := by
  have hlargest : Word.largest + 1 = Word.span := rfl
  have hblock : blockSize? (kind.exactBytes count) =
      if kind.blockBytes count ≤ largestBlock then some (kind.blockBytes count) else none :=
    blockSize?_eq_ite _
  rw [requestSize, kind.payloadBytes_exact count hcount]
  by_cases hword : kind.exactBytes count < Word.span
  · rw [if_pos hword, Nat.min_eq_left (by omega)]
    simp only [hblock]
    by_cases hle : kind.exactBytes count ≤ limit
    · by_cases hfits : kind.blockBytes count ≤ largestBlock <;> simp [hle, hfits, Nat.not_lt.mpr hle]
    · simp [hle, Nat.lt_of_not_le hle]
  · have hover : ¬ kind.exactBytes count ≤ limit := by omega
    rw [if_neg hword, if_neg (by simp [hover]), Nat.min_eq_right (by omega)]

/-- Sizes are exact for every request in 64-bit words. A request is served exactly if its payload is
within the limit and its block within the bound of the system, and then with the header and the payload
rounded up to the alignment, which holds the payload; it is refused with its payload, cut to the largest
word. The words of a machine hold the exact numbers up to the first that is no word, and a request with
such a number is refused. -/
theorem request_sizes_exact (kind : PayloadKind) (count limit : UInt64) :
    let payload := kind.exactBytes count.toNat
    let size := 32 + 16 * (max payload 16 ⌈/⌉ 16)
    requestSize limit.toNat kind count.toNat =
        (if payload ≤ limit.toNat ∧ size ≤ 2 ^ 63 - 16 then .ok size
        else .error (.allocationTooLarge (min payload (2 ^ 64 - 1)) limit.toNat)) ∧
      16 ∣ size ∧ 48 ≤ size ∧ 32 + payload ≤ size ∧
      (kind.exactSteps count.toNat).takeWhile (· < 2 ^ 64) <+:
        (kind.machineSteps count).map UInt64.toNat ∧
      ((∃ v ∈ kind.exactSteps count.toNat, 2 ^ 64 ≤ v) →
        requestSize limit.toNat kind count.toNat =
          .error (.allocationTooLarge (min payload (2 ^ 64 - 1)) limit.toNat)) := by
  intro payload size
  have hsize : kind.blockBytes count.toNat = size := kind.blockBytes_eq count.toNat
  have hrequest := requestSize_exact kind (Word.toNat_lt_span count) (Word.toNat_lt_span limit)
  rw [hsize] at hrequest
  obtain ⟨hpayload, hleast⟩ := kind.le_padded count.toNat
  refine ⟨hrequest, ?_, ?_, ?_, kind.exactSteps_isPrefix count, ?_⟩
  · exact hsize ▸ kind.blockAlign_dvd_blockBytes count.toNat
  · exact Nat.add_le_add_left hleast 32
  · exact Nat.add_le_add_left hpayload 32
  · intro h
    obtain ⟨v, hv, hover⟩ := h
    have hlt := kind.lt_of_mem_exactSteps hv
    rw [hsize, blockAlign] at hlt
    rw [hrequest, if_neg]
    · rfl
    · intro hfits
      have hbound : size ≤ 2 ^ 63 - 16 := hfits.2
      omega

/-- The product of a machine is eight for so many values. The request is refused even under the largest
limit. -/
theorem request_sizes_exact_wrapped_product :
    (PayloadKind.objects.machineSteps 768614336404564651).head? = some 8 ∧
      requestSize 18446744073709551615 .objects 768614336404564651 =
        .error (.allocationTooLarge 18446744073709551615 18446744073709551615) := by
  obtain ⟨_, _, _, _, _, hrefused⟩ :=
    request_sizes_exact .objects 768614336404564651 18446744073709551615
  have hproduct : 18446744073709551624 ∈ PayloadKind.objects.exactSteps 768614336404564651 :=
    List.mem_cons_self
  exact ⟨by decide, hrefused ⟨_, hproduct, by decide⟩⟩

end GenerationalHeap
