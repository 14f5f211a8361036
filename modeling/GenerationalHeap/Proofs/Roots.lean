import GenerationalHeap.Context.Basic

namespace GenerationalHeap

theorem ValueStack.mem_live_iff (s : ValueStack) (node : Node) :
    node ∈ s.live ↔ ∃ i, i < s.top ∧ s.slots[i]? = some node := by
  rw [ValueStack.live, List.mem_take_iff_getElem]
  constructor
  · intro hmem
    obtain ⟨i, hi, rfl⟩ := hmem
    exact ⟨i, by omega, by simp⟩
  · intro hslot
    obtain ⟨i, hi, hs⟩ := hslot
    obtain ⟨hlt, rfl⟩ := Array.getElem?_eq_some_iff.mp hs
    exact ⟨i, by simp; omega, by simp⟩

namespace RootRegistry

variable (r : RootRegistry)

theorem mem_values_iff (node : Node) :
    node ∈ r.values ↔ ∃ id, r.find? id = some node := by
  simp only [values, find?, List.mem_filterMap]
  constructor
  · intro hmem
    obtain ⟨entry, he, hv⟩ := hmem
    obtain ⟨i, hi⟩ := Array.mem_iff_getElem?.mp (by simpa using he)
    exact ⟨⟨i, entry.version⟩, by simp [hi, hv]⟩
  · intro hfound
    obtain ⟨id, hid⟩ := hfound
    split at hid
    · rename_i entry he
      split at hid
      · exact ⟨entry, by simpa using Array.mem_of_getElem? he, hid⟩
      · simp at hid
    · simp at hid

theorem find?_eq_some (id : RootId) (node : Node) :
    r.find? id = some node ↔ r.entries[id.index]? = some ⟨id.version, some node⟩ := by
  unfold find?
  cases he : r.entries[id.index]? with
  | none => simp
  | some entry =>
    cases entry with
    | mk version value =>
      by_cases hv : version = id.version <;> simp [hv]

/-- Registering adds one value. -/
theorem find?_register (value : Node) (id : RootId) (node : Node)
    (h : (r.register value).2.find? id = some node) : node = value ∨ r.find? id = some node := by
  rw [find?_eq_some] at h ⊢
  unfold register at h
  cases hf : r.free with
  | nil =>
    simp only [hf, Array.getElem?_push] at h
    split at h
    · simp only [Option.some.injEq, RootEntry.mk.injEq] at h
      exact .inl h.2.symm
    · exact .inr h
  | cons index free =>
    simp only [hf, Array.getElem?_setIfInBounds] at h
    split at h
    · split at h
      · simp only [Option.some.injEq, RootEntry.mk.injEq] at h
        exact .inl h.2.symm
      · simp at h
    · exact .inr h

theorem find?_set (r' : RootRegistry) (id : RootId) (value : Node) (hs : r.set id value = .ok r')
    (id' : RootId) (node : Node) (h : r'.find? id' = some node) :
    node = value ∨ r.find? id' = some node := by
  unfold set at hs
  split at hs
  · obtain rfl := Except.ok.inj hs
    rw [find?_eq_some] at h ⊢
    simp only [Array.getElem?_setIfInBounds] at h
    split at h
    · split at h
      · simp only [Option.some.injEq, RootEntry.mk.injEq] at h
        exact .inl h.2.symm
      · simp at h
    · exact .inr h
  · simp at hs

theorem find?_unregister (r' : RootRegistry) (id : RootId) (value : Node)
    (hu : r.unregister id = .ok (value, r')) (id' : RootId) (node : Node)
    (h : r'.find? id' = some node) : r.find? id' = some node := by
  unfold unregister at hu
  split at hu
  · obtain ⟨_, rfl⟩ := Prod.mk.inj (Except.ok.inj hu)
    rw [find?_eq_some] at h ⊢
    simp only [Array.getElem?_setIfInBounds] at h
    split at h
    · split at h <;> simp at h
    · exact h
  · simp at hu

end RootRegistry

namespace Context

/-- Where the live part of the heap begins: at a value on the stack, in whatever frame, at a
registered value, or at the captures of a running closure. -/
inductive IsRoot (ctx : Context) : Handle → Prop
  | stacked {h : Handle} (i : Nat) :
      i < ctx.stack.top → h ∈ (ctx.stack.slot i).references → IsRoot ctx h
  | registered {h : Handle} (id : RootId) (node : Node) :
      ctx.roots.find? id = some node → h ∈ node.references → IsRoot ctx h
  | captured {h : Handle} : h ∈ ctx.captures → IsRoot ctx h

/-- The worklist of a collection starts with the roots. -/
theorem mem_rootHandles (ctx : Context) (h : Handle) : h ∈ ctx.rootHandles ↔ ctx.IsRoot h := by
  simp only [rootHandles, List.mem_append, List.mem_flatMap, List.mem_reverse, ValueStack.mem_live_iff,
    RootRegistry.mem_values_iff]
  constructor
  · intro hmem
    rcases hmem with ⟨node, ⟨i, hi, hs⟩ | ⟨id, hid⟩, hn⟩ | hc
    · exact .stacked i hi (by simpa [ValueStack.slot, hs] using hn)
    · exact .registered id node hid hn
    · exact .captured hc
  · intro hroot
    rcases hroot with ⟨i, hi, hs⟩ | ⟨id, node, hid, hn⟩ | hc
    · refine .inl ⟨ctx.stack.slot i, .inl ⟨i, hi, ?_⟩, hs⟩
      unfold ValueStack.slot at hs ⊢
      cases hg : ctx.stack.slots[i]? with
      | none => simp [hg, Node.references] at hs
      | some node => rfl
    · exact .inl ⟨node, .inr ⟨id, hid⟩, hn⟩
    · exact .inr hc

end Context

end GenerationalHeap
