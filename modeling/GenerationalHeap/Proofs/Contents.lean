import GenerationalHeap.Proofs.Collection

namespace GenerationalHeap

theorem Payload.kind_fresh (kind : PayloadKind) (count : Nat) : (fresh kind count).kind = kind := by
  cases kind <;> rfl

theorem Payload.count_fresh (kind : PayloadKind) (count : Nat) : (fresh kind count).count = count := by
  cases kind <;> simp [fresh, Payload.count]

theorem Payload.references_fresh (kind : PayloadKind) (count : Nat) :
    (fresh kind count).references = [] := by
  cases kind with
  | bytes => rfl
  | objects =>
    simp only [fresh, references, List.flatMap_eq_nil_iff]
    intro node hnode
    obtain rfl : node = .undefined := by simpa using (Array.mem_replicate.mp (by simpa using hnode)).2
    rfl

namespace Heap

/-- The contents of an allocation. -/
def payload? (heap : Heap) (h : Handle) : Option Payload := (heap.block? h).map (·.payload)

/-- The handle stands for an allocation. -/
def Live (heap : Heap) (h : Handle) : Prop := (heap.block? h).isSome = true

variable {heap : Heap} {h : Handle}

theorem live_iff : heap.Live h ↔ ∃ p, heap.payload? h = some p := by
  unfold Live payload?
  cases heap.block? h <;> simp

theorem live_of_payload? {p : Payload} (hp : heap.payload? h = some p) : heap.Live h :=
  live_iff.mpr ⟨p, hp⟩

/-- Accessors see the contents only. -/
theorem objects_eq (heap : Heap) (h : Handle) :
    heap.objects h = match heap.payload? h with
      | none => .error (.danglingHandle h)
      | some (.objects nodes) => .ok nodes
      | some (.bytes _) => .error (.wrongPayload h .objects .bytes) := by
  unfold objects payload?
  cases heap.block? h with
  | none => rfl
  | some b =>
    simp only [Option.map_some]
    cases b.payload <;> rfl

theorem bytes_eq (heap : Heap) (h : Handle) :
    heap.bytes h = match heap.payload? h with
      | none => .error (.danglingHandle h)
      | some (.bytes data) => .ok data
      | some (.objects _) => .error (.wrongPayload h .bytes .objects) := by
  unfold bytes payload?
  cases heap.block? h with
  | none => rfl
  | some b =>
    simp only [Option.map_some]
    cases b.payload <;> rfl

theorem objects_eq_ok {nodes : Array Node} :
    heap.objects h = .ok nodes ↔ heap.payload? h = some (.objects nodes) := by
  rw [objects_eq]
  cases heap.payload? h with
  | none => simp
  | some p => cases p <;> simp

theorem bytes_eq_ok {data : Array UInt8} :
    heap.bytes h = .ok data ↔ heap.payload? h = some (.bytes data) := by
  rw [bytes_eq]
  cases heap.payload? h with
  | none => simp
  | some p => cases p <;> simp

theorem payload?_eq_some {p : Payload} :
    heap.payload? h = some p ↔ ∃ b, heap.slots.resolve h = some b ∧ b.payload = p :=
  Option.map_eq_some_iff

theorem blockAt?_of_payload? {p : Payload} (hp : heap.payload? h = some p) :
    ∃ b, heap.slots.blockAt? h.index = some b ∧ b.payload = p := by
  obtain ⟨b, hb, hbp⟩ := payload?_eq_some.mp hp
  exact ⟨b, ((SlotTable.resolve_eq_some_iff _ _ _).mp hb).2, hbp⟩

theorem payload?_setPayload {p : Payload} (hp : heap.payload? h = some p) (q : Payload) (g : Handle) :
    (heap.setPayload h.index q).payload? g = if g = h then some q else heap.payload? g := by
  obtain ⟨b, hb, _⟩ := payload?_eq_some.mp hp
  unfold payload? block? setPayload
  rw [SlotTable.resolve_update]
  by_cases hg : g = h
  · subst hg
    simp [hb]
  · rw [if_neg hg]
    by_cases hi : g.index = h.index
    · have hnone : heap.slots.resolve g = none := by
        rw [Option.eq_none_iff_forall_ne_some]
        intro a ha
        exact hg (SlotTable.handle_ext_of_resolve _ _ _ _ _ hb ha hi)
      simp [hi, hnone]
    · simp [hi]

/-- A new block is seen under its handle, everything else as before. -/
theorem payload?_inserted {slots : SlotTable} {b : Block}
    (hi : SlotTable.Inserted heap.slots b h slots) {heap' : Heap} (hs : heap'.slots = slots)
    (g : Handle) : heap'.payload? g = if g = h then some b.payload else heap.payload? g := by
  rw [payload?, block?, hs, hi.resolve]
  split <;> rfl

/-- A collection gets past marking only if everything the roots reach is there. -/
theorem Phases.live_of_reaches {roots : List Handle} {marked : SlotTable × Tally}
    {promotion sweep : Sifting} (hp : Phases heap roots marked promotion sweep)
    (hr : heap.slots.Reaches (· ∈ roots) h) : heap.Live h := by
  have hiff := (SlotTable.mark_ok _ _ _ _ _ hp.mark).marked_iff
    (SlotTable.not_marked_unmark heap.slots) h
  simp only [List.mem_reverse] at hiff
  obtain ⟨b, hb, _⟩ := hiff.mpr (SlotTable.reaches_of_unmark_eq (SlotTable.unmark_unmark _) hr)
  obtain ⟨a, ha, _⟩ := SlotTable.resolve_of_unmark_eq (unmark_eq_of_mark hp.mark).symm h b hb
  exact live_iff.mpr ⟨a.payload, payload?_eq_some.mpr ⟨a, ha, rfl⟩⟩

/-- A collection keeps the contents of what the roots reach and drops the rest. -/
theorem payload?_afterPhases {roots : List Handle} {marked : SlotTable × Tally}
    {promotion sweep : Sifting} (hw : heap.WellFormed)
    (hp : Phases heap roots marked promotion sweep) (g : Handle) (p : Payload) :
    (heap.afterPhases promotion sweep).payload? g = some p ↔
      heap.slots.Reaches (· ∈ roots) g ∧ heap.payload? g = some p := by
  simp only [payload?_eq_some, afterPhases, hp.resolve_eq_some_iff hw]
  constructor
  · intro hpromoted
    obtain ⟨c, ⟨hr, b, hb, rfl⟩, rfl⟩ := hpromoted
    exact ⟨hr, b, hb, rfl⟩
  · intro hreached
    obtain ⟨hr, b, hb, rfl⟩ := hreached
    exact ⟨b.promoted, ⟨hr, b, hb, rfl⟩, rfl⟩

/-- What is reached in one heap is reached in another that has the same contents along the way. -/
theorem reaches_kept {heap' : Heap} {start start' : Handle → Prop}
    (hstart : ∀ g, start g → heap'.slots.Reaches start' g)
    (hkept : ∀ g p, heap.slots.Reaches start g → heap'.slots.Reaches start' g →
      heap.payload? g = some p → heap'.payload? g = some p)
    (hr : heap.slots.Reaches start h) : heap'.slots.Reaches start' h := by
  induction hr with
  | root hh => exact hstart _ hh
  | @edge x g b hreached hb hg ih =>
    have hp := hkept x b.payload hreached ih (payload?_eq_some.mpr ⟨b, hb, rfl⟩)
    obtain ⟨b', hb', he⟩ := payload?_eq_some.mp hp
    exact .edge ih hb' (he ▸ hg)

end Heap

end GenerationalHeap
