import GenerationalHeap.Proofs.History
import GenerationalHeap.Proofs.Inhibition

namespace GenerationalHeap

namespace Heap

/-- The allocation holds so many undefined values, or so many zero bytes. -/
def Blank (heap : Heap) (h : Handle) : PayloadKind → Nat → Prop
  | .objects, count => heap.objects h = .ok (Array.replicate count .undefined)
  | .bytes, count => heap.bytes h = .ok (Array.replicate count 0)

/-- There is one allocation more than in the first heap: a blank block of the given size at the given
place, under a handle that stood for nothing. -/
structure Gains (heap : Heap) (kind : PayloadKind) (count size : Nat) (place : Place) (h : Handle)
    (heap' : Heap) : Prop where
  new : ¬ heap.Live h
  placed : ∃ b, heap'.block? h = some b ∧ b.size = size ∧ b.place = place
  blank : heap'.Blank h kind count

variable {heap base heap' : Heap} {kind : PayloadKind} {count size : Nat} {place : Place} {h : Handle}

theorem blank_of_fresh (hp : heap.payload? h = some (.fresh kind count)) : heap.Blank h kind count := by
  cases kind with
  | objects => exact objects_eq_ok.mpr hp
  | bytes => exact bytes_eq_ok.mpr hp

theorem gains_of_inserted (hnew : ¬ heap.Live h)
    (hi : SlotTable.Inserted base.slots { payload := .fresh kind count, size, place } h heap'.slots) :
    heap.Gains kind count size place h heap' := by
  have hblock : heap'.block? h = some { payload := .fresh kind count, size, place } := by
    rw [block?, hi.resolve, if_pos rfl]
  have hpayload : heap'.payload? h = some (.fresh kind count) := by
    rw [payload?, hblock]
    rfl
  exact ⟨hnew, ⟨_, hblock, rfl, rfl⟩, blank_of_fresh hpayload⟩

theorem block?_of_inserted {b : Block} (hi : SlotTable.Inserted heap.slots b h heap'.slots) (g : Handle)
    (hg : g ≠ h) : heap'.block? g = heap.block? g := by
  rw [block?, hi.resolve, if_neg hg, block?]

theorem not_live_of_inserted {b : Block} {slots : SlotTable}
    (hi : SlotTable.Inserted heap.slots b h slots) : ¬ heap.Live h := by
  simp [Live, block?, hi.resolve_eq_none]

/-- A block for which there is room goes behind the last one of the arena. -/
theorem allocateYoung?_of_room (hw : heap.WellFormed) (payload : Payload)
    (hroom : size ≤ heap.arena.remaining) :
    ∃ h heap', heap.allocateYoung? payload size = some (h, heap') ∧
      SlotTable.Inserted heap.slots { payload, size, place := .young heap.arena.used } h heap'.slots ∧
      heap'.arena.used = heap.arena.used + size := by
  have ha : heap.allocateYoung? payload size ≠ none := by
    rw [ne_eq, allocateYoung?_eq_none]
    omega
  obtain ⟨⟨h, heap'⟩, ha⟩ := Option.ne_none_iff_exists'.mp ha
  obtain ⟨_, rfl, rfl⟩ := allocateYoung?_eq_some _ _ _ _ ha
  exact ⟨_, _, ha, (hw.slots.insert _).2, rfl⟩

end Heap

/-- A slot that a collection has vacated is used again under another version, so the new handle stood
for nothing before the collection either. -/
theorem Context.not_live_of_collected {c c₁ : Context} (hw : c.heap.WellFormed) {trigger : Trigger}
    {record : CollectionRecord} (hc : c.collect trigger = .ok (record, c₁)) {h : Handle} {b : Block}
    {slots : SlotTable} (hi : SlotTable.Inserted c₁.heap.slots b h slots) : ¬ c.heap.Live h := by
  intro hl
  obtain ⟨p, hp⟩ := Heap.live_iff.mp hl
  have hkept := Context.collect_keeps_version hw hc hp hi.version_eq
  exact Heap.not_live_of_inserted hi (Heap.live_of_payload? hkept)

/-- After a collection there is what the roots reached, as old blocks. -/
theorem Context.collect_block? {c c' : Context} (hw : c.heap.WellFormed) {trigger : Trigger}
    {record : CollectionRecord} (hc : c.collect trigger = .ok (record, c')) (g : Handle) (b' : Block) :
    c'.heap.block? g = some b' ↔
      c.heap.slots.Reaches c.IsRoot g ∧ ∃ b, c.heap.block? g = some b ∧ b' = b.promoted := by
  obtain ⟨marked, promotion, sweep, hp, hheap⟩ := Context.collect_phases hw hc
  rw [← c.reaches_rootHandles_iff, hheap]
  exact hp.resolve_eq_some_iff hw g b'

/-- Every block has a header, so there is no empty one. -/
theorem requestSize_pos {limit : Nat} {kind : PayloadKind} {count size : Nat}
    (hr : requestSize limit kind count = .ok size) : 0 < size := by
  rw [requestSize_eq _ _ _ _ hr, PayloadKind.blockBytes, headerBytes]
  omega

namespace Mutator

variable {ctx : Context} {kind : PayloadKind} {count size : Nat}

theorem run_allocate_full (hr : requestSize ctx.config.maxAllocationBytes kind count = .ok size)
    (ha : ctx.heap.allocateYoung? (.fresh kind count) size = none)
    (hmay : ctx.inhibitDepth = 0 ∧ size ≤ ctx.heap.arena.capacity) :
    (allocate kind count).run.run ctx =
      match ctx.collect .arenaExhausted with
      | .error why => .error why
      | .ok (_, c) =>
        match c.heap.allocateYoung? (.fresh kind count) size with
        | some (h, heap) => .ok (.ok h, ({ c with heap } : Context).counted h)
        | none => (placeOld (.fresh kind count) size >>= fun h =>
            countAllocation h >>= fun _ => pure h).run.run c := by
  rw [allocate, run_bind, run_read, hr]
  simp only
  rw [run_bind, place, run_bind, run_placeYoung, ha]
  simp only
  rw [run_bind, run_mayCollectFor, decide_eq_true hmay]
  simp only [if_true]
  rw [run_bind, run_collectWith]
  cases hc : ctx.collect .arenaExhausted with
  | error why => rfl
  | ok p =>
    simp only
    rw [run_bind, run_placeYoung]
    cases p.2.heap.allocateYoung? (.fresh kind count) size with
    | some q => rfl
    | none => rfl

section Cases

variable (hw : ctx.heap.WellFormed) (hr : requestSize ctx.config.maxAllocationBytes kind count = .ok size)
include hw hr

theorem allocate_behind_last (hroom : size ≤ ctx.heap.arena.remaining) :
    ∃ h c, (allocate kind count).run.run ctx = .ok (.ok h, c) ∧
      ctx.heap.Gains kind count size (.young ctx.heap.arena.used) h c.heap ∧
      (∀ g, g ≠ h → c.heap.block? g = ctx.heap.block? g) ∧
      c.heap.arena.used = ctx.heap.arena.used + size ∧
      c.totals.collections = ctx.totals.collections ∧ c.totals.escapes = ctx.totals.escapes := by
  obtain ⟨h, heap, ha, hi, hused⟩ := Heap.allocateYoung?_of_room hw (.fresh kind count) hroom
  have hgains : ctx.heap.Gains kind count size _ h heap :=
    Heap.gains_of_inserted (Heap.not_live_of_inserted hi) hi
  have hothers : ∀ g, g ≠ h → heap.block? g = ctx.heap.block? g := Heap.block?_of_inserted hi
  exact ⟨h, _, run_allocate_young hr ha, hgains, hothers, hused, rfl, rfl⟩

/-- The arena is empty after a collection, so the second attempt to place the block succeeds. -/
theorem allocate_after_collection (hfull : ctx.heap.arena.remaining < size)
    (hmay : ctx.inhibitDepth = 0 ∧ size ≤ ctx.heap.arena.capacity) {record : CollectionRecord}
    {c₁ : Context} (hc : ctx.collect .arenaExhausted = .ok (record, c₁)) :
    ∃ h c, (allocate kind count).run.run ctx = .ok (.ok h, c) ∧
      ctx.heap.Gains kind count size (.young 0) h c.heap ∧
      (∀ g, g ≠ h → c.heap.block? g = c₁.heap.block? g) ∧ c.heap.arena.used = size ∧
      c.totals = { c₁.totals with allocations := c₁.totals.allocations + 1 } ∧
      c.lastCollection = c₁.lastCollection := by
  have hw₁ := (Move.collect ctx .arenaExhausted record c₁ hc).wellFormed hw
  have harena : c₁.heap.arena = { ctx.heap.arena with used := 0, blocks := #[] } := by
    obtain ⟨marked, promotion, sweep, _, hheap⟩ := Context.collect_phases hw hc
    rw [hheap]
    rfl
  have hroom : size ≤ c₁.heap.arena.remaining := by
    rw [Arena.remaining, harena]
    exact hmay.2
  obtain ⟨h, heap, ha, hi, hused⟩ := Heap.allocateYoung?_of_room hw₁ (.fresh kind count) hroom
  have hrun := run_allocate_full hr ((Heap.allocateYoung?_eq_none _ _ _).mpr hfull) hmay
  simp only [hc, ha] at hrun
  have hothers : ∀ g, g ≠ h → heap.block? g = c₁.heap.block? g := Heap.block?_of_inserted hi
  have hnew := Context.not_live_of_collected hw hc hi
  rw [harena] at hi hused
  have hgains : ctx.heap.Gains kind count size _ h heap := Heap.gains_of_inserted hnew hi
  exact ⟨h, _, hrun, hgains, hothers, hused.trans (Nat.zero_add size), rfl, rfl⟩

theorem allocate_outside (hfull : ctx.heap.arena.remaining < size)
    (hno : ¬ (ctx.inhibitDepth = 0 ∧ size ≤ ctx.heap.arena.capacity)) :
    ∃ h c, (allocate kind count).run.run ctx = .ok (.ok h, c) ∧
      ctx.heap.Gains kind count size .old h c.heap ∧
      (∀ g, g ≠ h → c.heap.block? g = ctx.heap.block? g) ∧
      c.heap.arena.used = ctx.heap.arena.used ∧
      c.totals.collections = ctx.totals.collections ∧ c.totals.escapes = ctx.totals.escapes + 1 := by
  have hrun := run_allocate_old hr ((Heap.allocateYoung?_eq_none _ _ _).mpr hfull) hno
  have hi := (hw.slots.insert { payload := .fresh kind count, size, place := .old }).2
  have hnew := Heap.not_live_of_inserted hi
  exact ⟨_, _, hrun, Heap.gains_of_inserted hnew hi, Heap.block?_of_inserted hi, rfl, rfl, rfl⟩

end Cases

end Mutator

/-- Where a new allocation goes. A block for which there is room goes behind the last one of the arena.
If it would fit into an empty arena, one collection runs and, where that ends, the block goes to the start
of the arena, whatever the collection found. Otherwise it is old from the start and counted as an escape,
so in particular if there is no arena. The handle is new and its block blank; all other blocks stay as
they are, but for what the collection drops and promotes. -/
theorem allocation_policy {config : Config} {ctx : Context} (hr : Reachable config ctx)
    (kind : PayloadKind) (count : Nat) {size : Nat}
    (hsize : requestSize ctx.config.maxAllocationBytes kind count = .ok size) :
    (size ≤ ctx.heap.arena.capacity - ctx.heap.arena.used →
      ∃ h c, (Mutator.allocate kind count).run.run ctx = .ok (.ok h, c) ∧
        ctx.heap.Gains kind count size (.young ctx.heap.arena.used) h c.heap ∧
        (∀ g, g ≠ h → c.heap.block? g = ctx.heap.block? g) ∧
        c.heap.arena.used = ctx.heap.arena.used + size ∧
        c.totals.collections = ctx.totals.collections ∧ c.totals.escapes = ctx.totals.escapes) ∧
    (¬ size ≤ ctx.heap.arena.capacity - ctx.heap.arena.used →
      ctx.inhibitDepth = 0 ∧ size ≤ ctx.heap.arena.capacity →
      (∃ why, ctx.collect .arenaExhausted = .error why ∧
        (Mutator.allocate kind count).run.run ctx = .error why) ∨
      ∃ h c record, (Mutator.allocate kind count).run.run ctx = .ok (.ok h, c) ∧
        ctx.heap.Gains kind count size (.young 0) h c.heap ∧
        (∀ g b', g ≠ h → (c.heap.block? g = some b' ↔
          ctx.heap.slots.Reaches ctx.IsRoot g ∧ ∃ b, ctx.heap.block? g = some b ∧ b' = b.promoted)) ∧
        c.heap.arena.used = size ∧
        c.totals.collections = ctx.totals.collections + 1 ∧ c.lastCollection = some record ∧
        record.trigger = .arenaExhausted ∧ c.totals.escapes = ctx.totals.escapes) ∧
    (¬ size ≤ ctx.heap.arena.capacity - ctx.heap.arena.used →
      ¬ (ctx.inhibitDepth = 0 ∧ size ≤ ctx.heap.arena.capacity) →
      ∃ h c, (Mutator.allocate kind count).run.run ctx = .ok (.ok h, c) ∧
        ctx.heap.Gains kind count size .old h c.heap ∧
        (∀ g, g ≠ h → c.heap.block? g = ctx.heap.block? g) ∧
        c.heap.arena.used = ctx.heap.arena.used ∧
        c.totals.collections = ctx.totals.collections ∧
        c.totals.escapes = ctx.totals.escapes + 1) ∧
    (ctx.heap.arena.capacity = 0 → ¬ size ≤ ctx.heap.arena.capacity - ctx.heap.arena.used ∧
      ¬ (ctx.inhibitDepth = 0 ∧ size ≤ ctx.heap.arena.capacity)) := by
  have hw := hr.wellFormed
  refine ⟨?_, ?_, ?_, ?_⟩
  · intro hroom
    exact Mutator.allocate_behind_last hw hsize hroom
  · intro hfull hmay
    have hfull := Nat.lt_of_not_le hfull
    cases hc : ctx.collect .arenaExhausted with
    | error why =>
      have hrun := Mutator.run_allocate_full hsize ((Heap.allocateYoung?_eq_none _ _ _).mpr hfull) hmay
      rw [hc] at hrun
      exact .inl ⟨why, rfl, hrun⟩
    | ok p =>
      obtain ⟨record, c₁⟩ := p
      obtain ⟨h, c, hrun, hgains, hothers, hused, htotals, hlast⟩ :=
        Mutator.allocate_after_collection hw hsize hfull hmay hc
      have hblocks := Context.collect_block? hw hc
      obtain ⟨_, _, _, _, rfl, rfl⟩ := Context.collect_eq_ok hw hc
      refine .inr ⟨h, c, _, hrun, hgains, ?_, hused, by rw [htotals]; rfl, hlast, rfl, by rw [htotals]; rfl⟩
      intro g b' hg
      rw [hothers g hg]
      exact hblocks g b'
  · intro hfull hno
    exact Mutator.allocate_outside hw hsize (Nat.lt_of_not_le hfull) hno
  · intro hnone
    have hpos := requestSize_pos hsize
    omega

/-- Of the two blocks that fill the arena one is dropped and one is promoted. The new block stands at the
start of the arena, in the slot of the block that was dropped. -/
theorem allocation_policy_reused_slot :
    ∃ ctx c, Reachable { arenaBytes := 128, stackSlots := 2 } ctx ∧
      ctx.heap.Live ⟨1, 1⟩ ∧ ctx.heap.arena.used = 128 ∧
      requestSize ctx.config.maxAllocationBytes .bytes 16 = .ok 48 ∧
      (Mutator.allocate .bytes 16).run.run ctx = .ok (.ok ⟨1, 2⟩, c) ∧
      ctx.heap.Gains .bytes 16 48 (.young 0) ⟨1, 2⟩ c.heap ∧ c.heap.arena.used = 48 ∧
      c.totals.collections = ctx.totals.collections + 1 ∧ c.totals.escapes = 0 := by
  have hstart : Reachable { arenaBytes := 128, stackSlots := 2 } _ := .start rfl
  have hr := hstart.after [.act (.allocateObjects (1 : Nat)), .act (.push (Node.ref ⟨0, 1⟩)),
    .act (.allocateObjects (1 : Nat))]
  generalize hctx : Context.after _ _ = ctx at hr
  have hlive : ctx.heap.Live ⟨1, 1⟩ := by
    rw [← hctx]
    cbv
  have hsize : requestSize ctx.config.maxAllocationBytes .bytes 16 = .ok 48 := by
    rw [← hctx]
    cbv
  have harena : ctx.heap.arena.used = 128 ∧ ctx.heap.arena.capacity = 128 ∧ ctx.inhibitDepth = 0 ∧
      ctx.totals.escapes = 0 := by
    rw [← hctx]
    cbv
  have hhandle : ((Mutator.allocate .bytes 16).run.run ctx).toOption.any
      (fun p => p.1.toOption = some ⟨1, 2⟩) = true := by
    rw [← hctx]
    cbv
  obtain ⟨hused, hcapacity, hdepth, hescapes⟩ := harena
  obtain ⟨_, hcollects, _, _⟩ := allocation_policy hr .bytes 16 hsize
  rcases hcollects (by omega) ⟨hdepth, by omega⟩ with
    ⟨why, _, hrun⟩ | ⟨h, c, record, hrun, hgains, _, hafter, hcount, _, _, hsame⟩
  · simp [hrun, Except.toOption] at hhandle
  · obtain rfl : h = ⟨1, 2⟩ := by simpa [hrun, Except.toOption] using hhandle
    exact ⟨ctx, c, hr, hlive, hused, hsize, hrun, hgains, hafter, hcount, hsame.trans hescapes⟩

end GenerationalHeap
