import GenerationalHeap.Proofs.Contents
import GenerationalHeap.Proofs.TidyStack
import GenerationalHeap.Proofs.Running

namespace GenerationalHeap

namespace Context

/-- A context with one more allocation in its books. -/
def counted (c : Context) (h : Handle) : Context :=
  { c with
    allocationsSinceCollect := c.allocationsSinceCollect + 1
    issued := h :: c.issued
    totals := { c.totals with allocations := c.totals.allocations + 1 } }

/-- One allocation without a collection: in the arena, or old from the start. -/
inductive Served (c : Context) (kind : PayloadKind) (count : Nat) (h : Handle) : Context → Prop
  | young {size : Nat} {heap : Heap} :
      requestSize c.config.maxAllocationBytes kind count = .ok size →
      c.heap.allocateYoung? (.fresh kind count) size = some (h, heap) →
      Served c kind count h (({ c with heap } : Context).counted h)
  | old {size : Nat} {heap : Heap} :
      requestSize c.config.maxAllocationBytes kind count = .ok size →
      c.heap.allocateOld (.fresh kind count) size = (h, heap) →
      Served c kind count h (({ c with
        heap
        totals := { c.totals with escapes := c.totals.escapes + 1 }
        trace := c.trace.logEscape size c.heap.arena.capacity } : Context).counted h)

variable {c c' : Context} {kind : PayloadKind} {count : Nat} {h : Handle}

/-- An allocation puts one block with new contents into the handle table. -/
theorem Served.inserted (hs : Served c kind count h c') (hw : c.heap.WellFormed) :
    ∃ b, b.payload = .fresh kind count ∧ b.marked = false ∧
      SlotTable.Inserted c.heap.slots b h c'.heap.slots := by
  cases hs with
  | young _ ha =>
    obtain ⟨_, rfl, rfl⟩ := Heap.allocateYoung?_eq_some _ _ _ _ ha
    exact ⟨_, rfl, rfl, (hw.slots.insert _).2⟩
  | old _ ha =>
    obtain ⟨rfl, rfl⟩ := Prod.mk.inj ha
    exact ⟨_, rfl, rfl, (hw.slots.insert _).2⟩

theorem Served.wellFormed (hs : Served c kind count h c') (hw : c.heap.WellFormed) :
    c'.heap.WellFormed := by
  have hbytes : ∀ size, requestSize c.config.maxAllocationBytes kind count = .ok size →
      size = (Payload.fresh kind count).kind.blockBytes (Payload.fresh kind count).count := by
    intro size hr
    rw [Payload.kind_fresh, Payload.count_fresh]
    exact requestSize_eq _ _ _ _ hr
  cases hs with
  | young hr ha => exact hw.allocateYoung? _ _ (hbytes _ hr) _ _ ha
  | old hr ha =>
    have hold := hw.allocateOld _ _ (hbytes _ hr)
    rw [ha] at hold
    exact hold

/-- Everything but the heap and the books stays as it is. -/
theorem Served.frame (hs : Served c kind count h c') :
    c'.stack = c.stack ∧ c'.roots = c.roots ∧ c'.captures = c.captures ∧ c'.config = c.config ∧
      c'.issued = h :: c.issued := by
  cases hs <;> exact ⟨rfl, rfl, rfl, rfl, rfl⟩

theorem Served.requestSize_eq_ok (hs : Served c kind count h c') :
    ∃ size, requestSize c.config.maxAllocationBytes kind count = .ok size := by
  cases hs with
  | young hr _ => exact ⟨_, hr⟩
  | old hr _ => exact ⟨_, hr⟩

theorem Served.issued_eq (hs : Served c kind count h c') : c'.issued = h :: c.issued :=
  hs.frame.2.2.2.2

/-- An allocation is counted once, in the total and since the last collection. -/
theorem Served.books (hs : Served c kind count h c') :
    c'.totals.allocations = c.totals.allocations + 1 ∧
      c'.allocationsSinceCollect = c.allocationsSinceCollect + 1 ∧
      c'.totals.reclaimed = c.totals.reclaimed ∧ c'.totals.collections = c.totals.collections ∧
      c'.lastCollection = c.lastCollection := by
  cases hs <;> exact ⟨rfl, rfl, rfl, rfl, rfl⟩

theorem Served.payload? (hs : Served c kind count h c') (hw : c.heap.WellFormed) (g : Handle) :
    c'.heap.payload? g = if g = h then some (.fresh kind count) else c.heap.payload? g := by
  obtain ⟨b, hb, _, hi⟩ := hs.inserted hw
  rw [Heap.payload?_inserted hi rfl, hb]

/-- The handle of a new allocation stood for nothing before. -/
theorem Served.vacant (hs : Served c kind count h c') (hw : c.heap.WellFormed) :
    c.heap.payload? h = none := by
  obtain ⟨b, _, _, hi⟩ := hs.inserted hw
  simp [Heap.payload?, Heap.block?, hi.resolve_eq_none]

theorem collect_cases (c : Context) (hw : c.heap.WellFormed) (trigger : Trigger) :
    (∃ x, c.collect trigger = .error (.danglingReference x) ∧ c.heap.slots.resolve x = none ∧
      c.heap.slots.Reaches (· ∈ c.rootHandles) x) ∨
    ∃ marked promotion sweep record, Heap.Phases c.heap c.rootHandles marked promotion sweep ∧
      record = c.heap.recordOfPhases trigger (c.totals.collections + 1) marked.2 promotion sweep ∧
      c.collect trigger = .ok (record, { c with
        heap := c.heap.afterPhases promotion sweep
        totals := c.totals.include record
        lastCollection := some record
        allocationsSinceCollect := 0
        trace := c.trace.logCollection record }) := by
  rcases hw.collect_cases c.rootHandles trigger (c.totals.collections + 1) with
    ⟨x, hbroken, hn, hr⟩ | ⟨marked, promotion, sweep, hp, hok⟩
  · exact .inl ⟨x, by rw [collect, hbroken]; rfl, hn, hr⟩
  · exact .inr ⟨marked, promotion, sweep, _, hp, rfl, by rw [collect, hok]; rfl⟩

/-- A collection that ends has run all its phases and is in the books. -/
theorem collect_eq_ok (hw : c.heap.WellFormed) {trigger : Trigger} {record : CollectionRecord}
    (hc : c.collect trigger = .ok (record, c')) :
    ∃ marked promotion sweep, Heap.Phases c.heap c.rootHandles marked promotion sweep ∧
      record = c.heap.recordOfPhases trigger (c.totals.collections + 1) marked.2 promotion sweep ∧
      c' = { c with
        heap := c.heap.afterPhases promotion sweep
        totals := c.totals.include record
        lastCollection := some record
        allocationsSinceCollect := 0
        trace := c.trace.logCollection record } := by
  rcases c.collect_cases hw trigger with ⟨x, hbroken, _⟩ | ⟨marked, promotion, sweep, record', hp, hr, hok⟩
  · rw [hbroken] at hc
    simp at hc
  · rw [hok] at hc
    obtain ⟨rfl, rfl⟩ := Prod.mk.inj (Except.ok.inj hc)
    exact ⟨marked, promotion, sweep, hp, hr, rfl⟩

/-- The heap after a collection is the outcome of its phases. -/
theorem collect_phases (hw : c.heap.WellFormed) {trigger : Trigger} {record : CollectionRecord}
    (hc : c.collect trigger = .ok (record, c')) :
    ∃ marked promotion sweep, Heap.Phases c.heap c.rootHandles marked promotion sweep ∧
      c'.heap = c.heap.afterPhases promotion sweep := by
  obtain ⟨marked, promotion, sweep, hp, _, rfl⟩ := collect_eq_ok hw hc
  exact ⟨marked, promotion, sweep, hp, rfl⟩

/-- A collection keeps the contents of what the roots reach and drops the rest. -/
theorem collect_payload? (hw : c.heap.WellFormed) (trigger : Trigger) (record : CollectionRecord)
    (hc : c.collect trigger = .ok (record, c')) (g : Handle) (p : Payload) :
    c'.heap.payload? g = some p ↔
      c.heap.slots.Reaches (· ∈ c.rootHandles) g ∧ c.heap.payload? g = some p := by
  obtain ⟨marked, promotion, sweep, hp, hheap⟩ := collect_phases hw hc
  rw [hheap]
  exact Heap.payload?_afterPhases hw hp g p

/-- A collection changes the heap and the books only. -/
theorem collect_frame (trigger : Trigger) (record : CollectionRecord)
    (hc : c.collect trigger = .ok (record, c')) :
    c'.stack = c.stack ∧ c'.roots = c.roots ∧ c'.captures = c.captures ∧ c'.config = c.config ∧
      c'.issued = c.issued := by
  unfold collect at hc
  cases hh : c.heap.collect c.rootHandles trigger (c.totals.collections + 1) with
  | error why => simp [hh, bind, Except.bind] at hc
  | ok p =>
    simp only [hh, bind, Except.bind, pure, Except.pure, Except.ok.injEq, Prod.mk.injEq] at hc
    obtain ⟨_, rfl⟩ := hc
    exact ⟨rfl, rfl, rfl, rfl, rfl⟩

/-- The number of a collection is one more than that of the one before, whatever made it run. -/
theorem collect_books (hw : c.heap.WellFormed) {trigger : Trigger}
    {record : CollectionRecord} (hc : c.collect trigger = .ok (record, c')) :
    record.number = c.totals.collections + 1 ∧ c'.totals.collections = record.number ∧
      c'.lastCollection = some record ∧ c'.allocationsSinceCollect = 0 := by
  obtain ⟨_, _, _, _, rfl, rfl⟩ := collect_eq_ok hw hc
  exact ⟨rfl, rfl, rfl, rfl⟩

theorem collect_issued {trigger : Trigger} {record : CollectionRecord}
    (hc : c.collect trigger = .ok (record, c')) : c'.issued = c.issued :=
  (collect_frame trigger record hc).2.2.2.2

end Context

/-- What operations are made of: one elementary change of a context, with the number of collections
it stands for. -/
inductive Move : Nat → Context → Context → Prop
  | stack (c : Context) (new : List Node) (s : ValueStack) :
      c.stack.Turn new s → Move 0 c { c with stack := s }
  | roots (c : Context) (r : RootRegistry) : Move 0 c { c with roots := r }
  | enter (c : Context) (h : Handle) (n : Nat) :
      c.heap.captureCount h = .ok n → Move 0 c { c with captures := h :: c.captures }
  | leave (c : Context) : Move 0 c { c with captures := c.captures.tail }
  | inhibit (c : Context) (depth : Nat) : Move 0 c { c with inhibitDepth := depth }
  | write (c : Context) (h : Handle) (p q : Payload) :
      c.heap.payload? h = some p → q.kind = p.kind → q.count = p.count →
      Move 0 c { c with heap := c.heap.setPayload h.index q }
  | serve (c : Context) (kind : PayloadKind) (count : Nat) (h : Handle) (c' : Context) :
      c.Served kind count h c' → Move 0 c c'
  | collect (c : Context) (trigger : Trigger) (record : CollectionRecord) (c' : Context) :
      c.collect trigger = .ok (record, c') → Move 1 c c'

theorem Move.wellFormed {n : Nat} {c c' : Context} (hm : Move n c c') (hw : c.heap.WellFormed) :
    c'.heap.WellFormed := by
  cases hm with
  | stack | roots | enter | leave | inhibit => exact hw
  | write _ h p q hp hk hc =>
    obtain ⟨b, hb, rfl⟩ := Heap.blockAt?_of_payload? hp
    apply hw.setPayload
    intro a ha
    rw [hb] at ha
    obtain rfl := Option.some.inj ha
    exact ⟨hk, hc⟩
  | serve _ kind count h _ hs => exact hs.wellFormed hw
  | collect _ trigger record _ hc =>
    obtain ⟨marked, promotion, sweep, hp, hheap⟩ := Context.collect_phases hw hc
    rw [hheap]
    exact hp.wellFormed hw

/-- Each collection is counted, and nothing else is counted as one. -/
theorem Move.collections_eq {n : Nat} {a b : Context} (hm : Move n a b) (hw : a.heap.WellFormed) :
    b.totals.collections = a.totals.collections + n := by
  cases hm with
  | stack | roots | enter | leave | inhibit | write => rfl
  | serve _ kind count h _ hs => exact hs.books.2.2.2.1
  | collect _ trigger record _ hc =>
    obtain ⟨_, _, _, _, _, rfl⟩ := Context.collect_eq_ok hw hc
    rfl

theorem Move.tidy {n : Nat} {a b : Context} (hm : Move n a b) (ht : a.stack.Tidy) : b.stack.Tidy := by
  cases hm with
  | stack _ new s hturn => exact hturn.tidy ht
  | roots | enter | leave | inhibit | write => exact ht
  | serve _ kind count h _ hs => rwa [hs.frame.1]
  | collect _ trigger record _ hc => rwa [(Context.collect_frame _ _ hc).1]

/-- A sequence of elementary changes with the number of collections among them. -/
inductive Moves : Nat → Context → Context → Prop
  | refl (c : Context) : Moves 0 c c
  | head {j k : Nat} {a b c : Context} : Move j a b → Moves k b c → Moves (j + k) a c

theorem Move.once {n : Nat} {a b : Context} (h : Move n a b) : Moves n a b :=
  .head h (.refl b)

theorem Moves.trans {j k : Nat} {a b c : Context} (h₁ : Moves j a b) (h₂ : Moves k b c) :
    Moves (j + k) a c := by
  induction h₁ with
  | refl => simpa using h₂
  | head hm _ ih =>
    rw [Nat.add_assoc]
    exact .head hm (ih h₂)

/-- What every elementary change keeps, every sequence of them keeps. -/
theorem Moves.invariant {P : Context → Prop} (hP : ∀ n a b, Move n a b → P a → P b) {n : Nat}
    {a b : Context} (h : Moves n a b) (ha : P a) : P b := by
  induction h with
  | refl => exact ha
  | head hm _ ih => exact ih (hP _ _ _ hm ha)

theorem Moves.wellFormed {n : Nat} {a b : Context} (h : Moves n a b) (hw : a.heap.WellFormed) :
    b.heap.WellFormed :=
  h.invariant (fun _ _ _ hm hw => hm.wellFormed hw) hw

theorem Moves.collections_eq {n : Nat} {a b : Context} (hm : Moves n a b) (hw : a.heap.WellFormed) :
    b.totals.collections = a.totals.collections + n := by
  induction hm with
  | refl => rfl
  | head hfirst _ ih =>
    rw [ih (hfirst.wellFormed hw), hfirst.collections_eq hw]
    omega

end GenerationalHeap
