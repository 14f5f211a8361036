import GenerationalHeap.Proofs.TidyStack

namespace GenerationalHeap.ValueStack

/-- The second stack stands on the first: all that was in use is in place, and the current frame begins
above it. -/
structure Supports (s s' : ValueStack) : Prop where
  capacity_eq : s'.capacity = s.capacity
  tidy : s'.Tidy
  le_base : s.top ≤ s'.base
  base_le : s'.base ≤ s'.top
  slot_eq : ∀ i, i < s.top → s'.slot i = s.slot i

theorem supports_pushFrame {s : ValueStack} (ht : s.Tidy) : s.Supports s.pushFrame.2 :=
  ⟨rfl, (turn_pushFrame s).tidy ht, Nat.le_refl _, Nat.le_refl _, fun _ _ => rfl⟩

section Operations

variable {t s s' : ValueStack} {node : Node}

/-- An operation that leaves the first stack's slots alone stays above it. -/
theorem Supports.turn (hs : t.Supports s) {new : List Node} (hturn : s.Turn new s')
    (hbase : t.top ≤ s'.base) (hle : s'.base ≤ s'.top)
    (hslot : ∀ i, i < t.top → s'.slot i = s.slot i) : t.Supports s' :=
  ⟨hturn.capacity_eq.trans hs.capacity_eq, hturn.tidy hs.tidy, hbase, hle,
    fun i hi => (hslot i hi).trans (hs.slot_eq i hi)⟩

theorem Supports.push (hs : t.Supports s) (h : s.push node = .ok s') : t.Supports s' := by
  have hturn := turn_push s s' node h
  have hbase := hs.le_base
  have hle := hs.base_le
  unfold ValueStack.push at h
  split at h
  · obtain rfl := Except.ok.inj h
    refine hs.turn hturn hbase (Nat.le_succ_of_le hle) fun i hi => ?_
    rw [slot_set, if_neg (by omega)]
  · simp at h

theorem Supports.pop (hs : t.Supports s) (h : s.pop = .ok (node, s')) : t.Supports s' := by
  have hturn := turn_pop s s' node h
  have hbase := hs.le_base
  have hle := hs.base_le
  unfold ValueStack.pop at h
  split at h
  · simp at h
  · rename_i hne
    obtain ⟨_, rfl⟩ := Prod.mk.inj (Except.ok.inj h)
    refine hs.turn hturn hbase (show s.base ≤ s.top - 1 by omega) fun i hi => ?_
    rw [slot_set, if_neg (by omega)]

theorem Supports.reserve (hs : t.Supports s) {count : Nat} (h : s.reserve count = .ok s') :
    t.Supports s' := by
  have hturn := turn_reserve s s' count h
  unfold ValueStack.reserve Word.add? at h
  split at h
  · rename_i top htop
    split at h
    · obtain rfl := Except.ok.inj h
      have hsum : s.top ≤ top := by
        split at htop
        · have := Option.some.inj htop
          omega
        · simp at htop
      exact hs.turn hturn hs.le_base (Nat.le_trans hs.base_le hsum) fun _ _ => rfl
    · simp at h
  · simp at h

theorem Supports.writeLocal (hs : t.Supports s) {index : Nat} (h : s.writeLocal index node = .ok s') :
    t.Supports s' := by
  have hturn := turn_writeLocal s s' index node h
  have hbase := hs.le_base
  unfold ValueStack.writeLocal position at h
  split at h
  · obtain rfl := Except.ok.inj h
    refine hs.turn hturn hbase hs.base_le fun i hi => ?_
    rw [slot_set, if_neg (by omega)]
  · simp [Except.map] at h

/-- The stack may sink as far as the frame that begins at `base`. -/
theorem Supports.truncate (hs : t.Supports s) {top base : Nat} (hbase : t.top ≤ base) (hle : base ≤ top)
    (htop : top ≤ s.top) : t.Supports { s.truncate top with base } := by
  have hturn := turn_truncate s top
  have htidy := hturn.tidy hs.tidy
  refine ⟨hturn.capacity_eq.trans hs.capacity_eq, ⟨htidy.top_le, htidy.above⟩, hbase, ?_, ?_⟩
  · show base ≤ (s.truncate top).top
    rw [top_truncate]
    omega
  · intro i hi
    show (s.truncate top).slot i = t.slot i
    rw [slot_truncate, if_neg (by omega)]
    exact hs.slot_eq i hi

theorem base_truncate (s : ValueStack) (top : Nat) : (s.truncate top).base = s.base := by
  unfold ValueStack.truncate
  split <;> rfl

theorem Supports.drop (hs : t.Supports s) {count : Nat} (h : s.drop count = .ok s') : t.Supports s' := by
  have hbase := hs.base_le
  unfold ValueStack.drop frameLength at h
  split at h
  · simp at h
  · obtain rfl := Except.ok.inj h
    have hcut : t.Supports { s.truncate (s.top - count) with base := s.base } :=
      hs.truncate hs.le_base (by omega) (by omega)
    rwa [← base_truncate s (s.top - count)] at hcut

theorem Supports.pushFrame (hs : t.Supports s) : t.Supports s.pushFrame.2 :=
  ⟨hs.capacity_eq, (turn_pushFrame s).tidy hs.tidy, Nat.le_trans hs.le_base hs.base_le,
    Nat.le_refl _, hs.slot_eq⟩

/-- A frame that begins above the first stack may end at any time, also if it ended before. -/
theorem Supports.popFrame (hs : t.Supports s) {frame : Frame} (hbase : t.top ≤ frame.base)
    (hle : frame.base ≤ frame.top) (h : s.popFrame frame = .ok s') : t.Supports s' := by
  unfold ValueStack.popFrame at h
  split at h
  · simp at h
  · obtain rfl := Except.ok.inj h
    exact hs.truncate hbase hle (by omega)

/-- Two tidy stacks are equal if they agree in all that is in use. -/
theorem eq_of_slots (hs : s.Tidy) (hs' : s'.Tidy) (hcapacity : s'.capacity = s.capacity)
    (htop : s'.top = s.top) (hbase : s'.base = s.base) (hslot : ∀ i, i < s.top → s'.slot i = s.slot i) :
    s' = s := by
  have hall : ∀ i, s'.slot i = s.slot i := by
    intro i
    by_cases hi : i < s.top
    · exact hslot i hi
    · rw [hs.above i (by omega), hs'.above i (by omega)]
  have hslots : s'.slots = s.slots := by
    apply Array.ext hcapacity
    intro i h₁ h₂
    simpa [slot, h₁, h₂] using hall i
  cases s
  cases s'
  simp_all

/-- Ending a frame gives back the stack as it stood when the frame began. -/
theorem Supports.popFrame_eq (hs : s.Supports s') (ht : s.Tidy) :
    s'.popFrame s.pushFrame.1 = .ok s := by
  have hbase := hs.le_base
  have hle := hs.base_le
  have hlt : ¬ s'.top < s.pushFrame.1.top := by
    show ¬ s'.top < s.top
    omega
  rw [ValueStack.popFrame, if_neg hlt]
  congr 1
  have hturn := turn_truncate s' s.top
  have htidy := hturn.tidy hs.tidy
  refine eq_of_slots ht ⟨htidy.top_le, htidy.above⟩ (hturn.capacity_eq.trans hs.capacity_eq) ?_ rfl ?_
  · show (s'.truncate s.top).top = s.top
    rw [top_truncate]
    omega
  · intro i hi
    show (s'.truncate s.top).slot i = s.slot i
    rw [slot_truncate, if_neg (by omega)]
    exact hs.slot_eq i hi

end Operations

end GenerationalHeap.ValueStack
