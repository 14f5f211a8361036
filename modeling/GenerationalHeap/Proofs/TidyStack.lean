import GenerationalHeap.Stack

namespace GenerationalHeap.ValueStack

/-- The top lies within the stack and every slot from it on is undefined. -/
structure Tidy (s : ValueStack) : Prop where
  top_le : s.top ≤ s.capacity
  above : ∀ i, s.top ≤ i → s.slot i = .undefined

/-- What an operation may do to a stack: it keeps the capacity and tidiness, and every slot holds
what it held, nothing, or one of the new values. -/
structure Turn (s : ValueStack) (new : List Node) (s' : ValueStack) : Prop where
  capacity_eq : s'.capacity = s.capacity
  tidy : s.Tidy → s'.Tidy
  slot : ∀ i, s'.slot i = s.slot i ∨ s'.slot i = .undefined ∨ s'.slot i ∈ new

theorem tidy_ofCapacity (capacity : Nat) : (ofCapacity capacity).Tidy := by
  constructor
  · exact Nat.zero_le _
  · intro i _
    by_cases hi : i < capacity <;> simp [slot, ofCapacity, hi]

theorem size_clear (slots : Array Node) (start count : Nat) :
    (clear slots start count).size = slots.size := by
  induction count with
  | zero => rfl
  | succ count ih => simp [clear, ih]

theorem getElem?_clear (slots : Array Node) (start count i : Nat) :
    (clear slots start count)[i]? =
      if start ≤ i ∧ i < start + count then slots[i]?.map fun _ => .undefined else slots[i]? := by
  induction count with
  | zero =>
    have hi : ¬ (start ≤ i ∧ i < start + 0) := by omega
    rw [clear, if_neg hi]
  | succ count ih =>
    rw [clear, Array.getElem?_setIfInBounds, size_clear]
    by_cases he : start + count = i
    · have hin : start ≤ i ∧ i < start + (count + 1) := by omega
      rw [if_pos he, if_pos hin, he]
      by_cases hb : i < slots.size <;> simp [hb]
    · rw [if_neg he, ih]
      by_cases hin : start ≤ i ∧ i < start + count
      · rw [if_pos hin, if_pos (by omega)]
      · rw [if_neg hin, if_neg (by omega)]

theorem slot_set (s : ValueStack) (i j top base : Nat) (node : Node) :
    (⟨s.slots.setIfInBounds i node, top, base⟩ : ValueStack).slot j =
      if i = j ∧ i < s.capacity then node else s.slot j := by
  simp only [slot, Array.getElem?_setIfInBounds, capacity]
  by_cases he : i = j
  · by_cases hi : i < s.slots.size
    · simp [he ▸ hi, he]
    · simp [he ▸ hi, he]
  · simp [he]

theorem slot_truncate (s : ValueStack) (top i : Nat) :
    (s.truncate top).slot i = if top ≤ i ∧ i < s.top then .undefined else s.slot i := by
  unfold truncate
  by_cases hlt : top < s.top
  · rw [if_pos hlt]
    simp only [slot, getElem?_clear]
    have hrange : top + (s.top - top) = s.top := by omega
    rw [hrange]
    by_cases hin : top ≤ i ∧ i < s.top
    · cases hs : s.slots[i]? <;> simp [hin]
    · simp [hin]
  · have hin : ¬ (top ≤ i ∧ i < s.top) := by omega
    rw [if_neg hlt, if_neg hin]

theorem top_truncate (s : ValueStack) (top : Nat) : (s.truncate top).top = min top s.top := by
  unfold truncate
  split
  · simp only
    omega
  · omega

theorem capacity_truncate (s : ValueStack) (top : Nat) : (s.truncate top).capacity = s.capacity := by
  unfold truncate
  split
  · simp [capacity, size_clear]
  · rfl

theorem turn_truncate (s : ValueStack) (top : Nat) : Turn s [] (s.truncate top) := by
  constructor
  · exact capacity_truncate s top
  · intro ht
    constructor
    · rw [top_truncate, capacity_truncate]
      exact Nat.le_trans (Nat.min_le_right _ _) ht.top_le
    · intro i hi
      rw [top_truncate] at hi
      rw [slot_truncate]
      by_cases hin : top ≤ i ∧ i < s.top
      · rw [if_pos hin]
      · rw [if_neg hin]
        exact ht.above i (by omega)
  · intro i
    rw [slot_truncate]
    split <;> simp

theorem turn_push (s s' : ValueStack) (node : Node) (h : s.push node = .ok s') : Turn s [node] s' := by
  unfold push at h
  split at h
  · rename_i hlt
    obtain rfl := Except.ok.inj h
    constructor
    · simp [capacity]
    · intro ht
      constructor
      · simp only [capacity, Array.size_setIfInBounds] at hlt ⊢
        omega
      · intro i hi
        simp only at hi
        rw [slot_set, if_neg (by omega)]
        exact ht.above i (by omega)
    · intro i
      rw [slot_set]
      split <;> simp
  · simp at h

/-- A push that is not refused takes the next slot. -/
theorem push_eq_ok {s s' : ValueStack} {node : Node} (h : s.push node = .ok s') :
    s'.top = s.top + 1 ∧ s'.capacity = s.capacity ∧
      ∀ i, s'.slot i = if i = s.top then node else s.slot i := by
  unfold push at h
  split at h
  · rename_i hlt
    obtain rfl := Except.ok.inj h
    refine ⟨rfl, by simp [capacity], fun i => ?_⟩
    rw [slot_set]
    by_cases hi : i = s.top
    · subst hi
      simp [hlt]
    · rw [if_neg (by omega), if_neg hi]
  · simp at h

theorem push_of_full {s : ValueStack} (h : s.capacity ≤ s.top) (node : Node) :
    s.push node = .error (.stackOverflow s.capacity) := by
  rw [push, if_neg (by omega)]

theorem turn_pop (s s' : ValueStack) (node : Node) (h : s.pop = .ok (node, s')) : Turn s [] s' := by
  unfold pop at h
  split at h
  · simp at h
  · rename_i hne
    obtain ⟨rfl, rfl⟩ := Prod.mk.inj (Except.ok.inj h)
    constructor
    · simp [capacity]
    · intro ht
      have hle := ht.top_le
      constructor
      · simp only [capacity, Array.size_setIfInBounds] at hle ⊢
        omega
      · intro i hi
        simp only at hi
        rw [slot_set]
        by_cases he : s.top - 1 = i ∧ s.top - 1 < s.capacity
        · rw [if_pos he]
        · rw [if_neg he]
          exact ht.above i (by omega)
    · intro i
      rw [slot_set]
      split <;> simp

theorem turn_reserve (s s' : ValueStack) (count : Nat) (h : s.reserve count = .ok s') : Turn s [] s' := by
  unfold reserve Word.add? at h
  split at h
  · rename_i top htop
    split at h
    · rename_i hle
      obtain rfl := Except.ok.inj h
      have hsum : top = s.top + count := by
        split at htop
        · exact (Option.some.inj htop).symm
        · simp at htop
      refine ⟨rfl, ?_, fun i => .inl rfl⟩
      intro ht
      refine ⟨hle, ?_⟩
      intro i hi
      exact ht.above i (by simp only at hi; omega)
    · simp at h
  · simp at h

theorem position_lt (s : ValueStack) (index i : Nat) (h : s.position index = .ok i) : i < s.top := by
  unfold position frameLength at h
  split at h
  · have hi := Except.ok.inj h
    omega
  · simp at h

theorem turn_writeLocal (s s' : ValueStack) (index : Nat) (node : Node)
    (h : s.writeLocal index node = .ok s') : Turn s [node] s' := by
  unfold writeLocal at h
  cases hp : s.position index with
  | error e => simp [hp, Except.map] at h
  | ok i =>
    have hlt := position_lt s index i hp
    simp only [hp, Except.map, Except.ok.injEq] at h
    subst h
    constructor
    · simp [capacity]
    · intro ht
      refine ⟨by simpa [capacity] using ht.top_le, ?_⟩
      intro j hj
      simp only at hj
      rw [slot_set, if_neg (by omega)]
      exact ht.above j hj
    · intro j
      rw [slot_set]
      split <;> simp

theorem turn_drop (s s' : ValueStack) (count : Nat) (h : s.drop count = .ok s') : Turn s [] s' := by
  unfold drop at h
  split at h
  · simp at h
  · exact Except.ok.inj h ▸ turn_truncate s _

theorem turn_pushFrame (s : ValueStack) : Turn s [] s.pushFrame.2 := by
  refine ⟨rfl, ?_, fun i => .inl rfl⟩
  intro ht
  exact ⟨ht.top_le, ht.above⟩

theorem turn_popFrame (s s' : ValueStack) (frame : Frame) (h : s.popFrame frame = .ok s') :
    Turn s [] s' := by
  unfold popFrame at h
  split at h
  · simp at h
  · obtain rfl := Except.ok.inj h
    have ht := turn_truncate s frame.top
    refine ⟨ht.capacity_eq, ?_, ht.slot⟩
    intro hs
    exact ⟨(ht.tidy hs).top_le, (ht.tidy hs).above⟩

end GenerationalHeap.ValueStack
