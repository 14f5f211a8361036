import GenerationalHeap.Proofs.Renaming
import GenerationalHeap.Proofs.TidyStack

namespace GenerationalHeap

variable {R : Handle → Handle → Prop}

/-- The stacks are the same but for paired handles. -/
structure ValueStack.Matches (R : Handle → Handle → Prop) (s s' : ValueStack) : Prop where
  slots : Pointwise (Node.Matches R) s.slots s'.slots
  top : s.top = s'.top
  base : s.base = s'.base

namespace ValueStack.Matches

variable {s s' : ValueStack} (h : s.Matches R s')

include h

theorem capacity_eq : s.capacity = s'.capacity := h.slots.size_eq

theorem frameLength_eq : s.frameLength = s'.frameLength := by
  rw [frameLength, frameLength, h.top, h.base]

theorem slot (i : Nat) : Node.Matches R (s.slot i) (s'.slot i) := by
  have hi := h.slots i
  unfold ValueStack.slot
  revert hi
  cases s.slots[i]? <;> cases s'.slots[i]? <;> intro hi <;> cases hi
  · exact .undefined
  · assumption

theorem clear (start count : Nat) : Pointwise (Node.Matches R) (ValueStack.clear s.slots start count)
    (ValueStack.clear s'.slots start count) := by
  induction count with
  | zero => exact h.slots
  | succ count ih => exact ih.set _ .undefined

theorem push {a b : Node} (hab : a.Matches R b) :
    Agree R (ValueStack.Matches R) (s.push a) (s'.push b) := by
  unfold ValueStack.push
  rw [h.top, h.capacity_eq]
  split
  · exact agree_ok ⟨h.slots.set _ hab, rfl, h.base⟩
  · exact agree_error (.plain _ rfl)

theorem peek : Agree R (Node.Matches R) s.peek s'.peek := by
  unfold ValueStack.peek
  rw [h.top, h.base]
  split
  · exact agree_error (.plain _ rfl)
  · exact agree_ok (h.slot _)

theorem pop : Agree R (fun p q => Node.Matches R p.1 q.1 ∧ ValueStack.Matches R p.2 q.2) s.pop s'.pop := by
  unfold ValueStack.pop
  rw [h.top, h.base]
  split
  · exact agree_error (.plain _ rfl)
  · exact agree_ok ⟨h.slot _, h.slots.set _ .undefined, rfl, rfl⟩

theorem reserve (count : Nat) :
    Agree R (ValueStack.Matches R) (s.reserve count) (s'.reserve count) := by
  unfold ValueStack.reserve
  rw [h.top, h.capacity_eq]
  split
  · split
    · exact agree_ok ⟨h.slots, rfl, h.base⟩
    · exact agree_error (.plain _ rfl)
  · exact agree_error (.plain _ rfl)

theorem position (index : Nat) : Agree R (fun i j => i = j) (s.position index) (s'.position index) := by
  unfold ValueStack.position
  rw [h.frameLength_eq, h.base]
  split
  · exact agree_ok rfl
  · exact agree_error (.plain _ rfl)

theorem readLocal (index : Nat) :
    Agree R (Node.Matches R) (s.readLocal index) (s'.readLocal index) := by
  apply (h.position index).map
  intro i _ he
  subst he
  exact h.slot i

theorem writeLocal (index : Nat) {a b : Node} (hab : a.Matches R b) :
    Agree R (ValueStack.Matches R) (s.writeLocal index a) (s'.writeLocal index b) := by
  apply (h.position index).map
  intro i _ he
  subst he
  exact ⟨h.slots.set i hab, h.top, h.base⟩

theorem truncate (top : Nat) : ValueStack.Matches R (s.truncate top) (s'.truncate top) := by
  unfold ValueStack.truncate
  rw [h.top]
  split
  · exact ⟨h.clear _ _, rfl, h.base⟩
  · exact h

theorem drop (count : Nat) : Agree R (ValueStack.Matches R) (s.drop count) (s'.drop count) := by
  unfold ValueStack.drop
  rw [h.frameLength_eq, h.top]
  split
  · exact agree_error (.plain _ rfl)
  · exact agree_ok (h.truncate _)

theorem pushFrame : s.pushFrame.1 = s'.pushFrame.1 ∧ ValueStack.Matches R s.pushFrame.2 s'.pushFrame.2 := by
  refine ⟨?_, h.slots, h.top, h.top⟩
  simp only [ValueStack.pushFrame, h.base, h.top]

theorem popFrame {frame : Frame} {t t' : ValueStack} (ht : s.popFrame frame = .ok t)
    (ht' : s'.popFrame frame = .ok t') : t.Matches R t' := by
  unfold ValueStack.popFrame at ht ht'
  split at ht
  · simp at ht
  · split at ht'
    · simp at ht'
    · obtain rfl := Except.ok.inj ht
      obtain rfl := Except.ok.inj ht'
      exact ⟨(h.truncate _).slots, (h.truncate _).top, rfl⟩

end ValueStack.Matches

/-- The registries are the same but for paired handles. -/
structure RootRegistry.Matches (R : Handle → Handle → Prop) (r r' : RootRegistry) : Prop where
  entries : Pointwise (fun e e' => e.version = e'.version ∧ Option.Rel (Node.Matches R) e.value e'.value)
    r.entries r'.entries
  free : r.free = r'.free

namespace RootRegistry.Matches

variable {r r' : RootRegistry} (h : r.Matches R r')

include h

theorem find? (id : RootId) : Option.Rel (Node.Matches R) (r.find? id) (r'.find? id) := by
  have hi := h.entries id.index
  unfold RootRegistry.find?
  revert hi
  cases r.entries[id.index]? <;> cases r'.entries[id.index]? <;> intro hi <;> cases hi
  · exact .none
  · rename_i e e' he
    dsimp only
    rw [← he.1]
    split
    · exact he.2
    · exact .none

theorem get (id : RootId) : Agree R (Node.Matches R) (r.get id) (r'.get id) := by
  have hi := h.find? id
  unfold RootRegistry.get
  revert hi
  cases r.find? id <;> cases r'.find? id <;> intro hi <;> cases hi
  · exact agree_error (.plain _ rfl)
  · exact agree_ok ‹_›

theorem version_eq (index : Nat) :
    r.entries[index]?.map (·.version) = r'.entries[index]?.map (·.version) := by
  have hi := h.entries index
  revert hi
  cases r.entries[index]? <;> cases r'.entries[index]? <;> intro hi <;> cases hi
  · rfl
  · rename_i he
    simp [he.1]

theorem register {a b : Node} (hab : a.Matches R b) :
    (r.register a).1 = (r'.register b).1 ∧ RootRegistry.Matches R (r.register a).2 (r'.register b).2 := by
  unfold RootRegistry.register
  rw [h.free]
  cases r'.free with
  | nil =>
    refine ⟨by simp [h.entries.size_eq], ?_, rfl⟩
    exact h.entries.push ⟨rfl, .some hab⟩
  | cons index free =>
    refine ⟨by simp only [h.version_eq index], ?_, rfl⟩
    simp only [h.version_eq index]
    exact h.entries.set index ⟨rfl, .some hab⟩

theorem set (id : RootId) {a b : Node} (hab : a.Matches R b) :
    Agree R (RootRegistry.Matches R) (r.set id a) (r'.set id b) := by
  have hi := h.find? id
  unfold RootRegistry.set
  revert hi
  cases r.find? id <;> cases r'.find? id <;> intro hi <;> cases hi
  · exact agree_error (.plain _ rfl)
  · exact agree_ok ⟨h.entries.set _ ⟨rfl, .some hab⟩, h.free⟩

theorem unregister (id : RootId) :
    Agree R (fun p q => Node.Matches R p.1 q.1 ∧ RootRegistry.Matches R p.2 q.2) (r.unregister id)
      (r'.unregister id) := by
  have hi := h.find? id
  unfold RootRegistry.unregister
  revert hi
  cases r.find? id <;> cases r'.find? id <;> intro hi <;> cases hi
  · exact agree_error (.plain _ rfl)
  · exact agree_ok ⟨‹_›, h.entries.set _ ⟨rfl, .none⟩, by simp [h.free]⟩

end RootRegistry.Matches

end GenerationalHeap
