import GenerationalHeap.Proofs.Reachable

namespace GenerationalHeap

namespace Context

/-- The young allocations from the lowest offset of the arena on. -/
def youngHandles (ctx : Context) : List Handle :=
  ctx.heap.arena.blocks.toList.map fun i => ⟨i, (ctx.heap.slots.version? i).getD 0⟩

/-- No block is marked, and the young blocks stand in the order of their allocation: read from the
last one down they are part of the handles issued, latest first. -/
structure Orderly (ctx : Context) : Prop where
  clear : ctx.heap.Clear
  order : ctx.youngHandles.reverse.Sublist ctx.issued

variable {c c' : Context} {kind : PayloadKind} {count : Nat} {h : Handle}

theorem orderly_ofConfig {config : Config} (hc : ofConfig config = .ok c) : c.Orderly := by
  obtain ⟨arena, ha, rfl⟩ := ofConfig_eq_ok hc
  constructor
  · intro i
    simp [SlotTable.markedAt, SlotTable.blockAt?]
  · simp [youngHandles, (Arena.reserve_eq_ok _ _ ha).2.1]

theorem youngHandles_congr (hb : c'.heap.arena.blocks = c.heap.arena.blocks)
    (hv : ∀ i ∈ c.heap.arena.blocks.toList, c'.heap.slots.version? i = c.heap.slots.version? i) :
    c'.youngHandles = c.youngHandles := by
  unfold youngHandles
  rw [hb]
  apply List.map_congr_left
  intro i hi
  rw [hv i hi]

theorem Served.blocks (hs : Served c kind count h c') :
    c'.heap.arena.blocks = c.heap.arena.blocks.push h.index ∨
      c'.heap.arena.blocks = c.heap.arena.blocks := by
  cases hs with
  | young _ ha =>
    obtain ⟨_, _, rfl⟩ := Heap.allocateYoung?_eq_some _ _ _ _ ha
    exact .inl rfl
  | old _ ha =>
    obtain ⟨_, rfl⟩ := Prod.mk.inj ha
    exact .inr rfl

theorem Served.orderly (hs : Served c kind count h c') (hw : c.heap.WellFormed) (ho : c.Orderly) :
    c'.Orderly := by
  obtain ⟨b, _, hmark, hi⟩ := hs.inserted hw
  have hversions : ∀ i ∈ c.heap.arena.blocks.toList,
      c'.heap.slots.version? i = c.heap.slots.version? i := by
    intro i hmem
    obtain ⟨a, ha⟩ := hw.young_occupied i hmem
    rw [hi.version?, if_neg]
    intro he
    subst he
    rw [hi.vacant] at ha
    simp at ha
  constructor
  · intro i
    rw [SlotTable.markedAt, hi.blockAt?]
    by_cases hj : i = h.index
    · simp [hj, hmark]
    · rw [if_neg hj]
      exact ho.clear i
  · rw [hs.issued_eq]
    rcases hs.blocks with hblocks | hblocks
    · have hnew : c'.youngHandles = c.youngHandles ++ [h] := by
        have hh : (⟨h.index, (c'.heap.slots.version? h.index).getD 0⟩ : Handle) = h := by
          simp [hi.version?]
        have hold : c.heap.arena.blocks.toList.map
            (fun i => (⟨i, (c'.heap.slots.version? i).getD 0⟩ : Handle)) = c.youngHandles :=
          List.map_congr_left fun i hmem => by rw [hversions i hmem]
        rw [youngHandles, hblocks, Array.toList_push, List.map_append, hold, List.map_cons, hh,
          List.map_nil]
      rw [hnew, List.reverse_append]
      exact ho.order.cons_cons h
    · rw [youngHandles_congr hblocks hversions]
      exact ho.order.cons h

end Context

theorem Move.orderly {n : Nat} {c c' : Context} (hm : Move n c c') (hw : c.heap.WellFormed)
    (ho : c.Orderly) : c'.Orderly := by
  cases hm with
  | stack | roots | enter | leave | inhibit => exact ⟨ho.clear, ho.order⟩
  | write _ h p q hp hk hc =>
    constructor
    · intro i
      have hm := ho.clear i
      simp only [Heap.setPayload, SlotTable.markedAt, SlotTable.blockAt?_update] at hm ⊢
      by_cases hi : i = h.index
      · rw [if_pos hi]
        cases hb : c.heap.slots.blockAt? i <;> simp_all
      · rw [if_neg hi]
        exact hm
    · have hsame : Context.youngHandles { c with heap := c.heap.setPayload h.index q } = c.youngHandles :=
        Context.youngHandles_congr rfl fun i _ => SlotTable.version?_update _ _ _ _
      rw [hsame]
      exact ho.order
  | serve _ kind count h _ hs => exact hs.orderly hw ho
  | collect _ trigger record _ hc =>
    obtain ⟨marked, promotion, sweep, hp, hheap⟩ := Context.collect_phases hw hc
    constructor
    · rw [hheap]
      exact hp.clear hw
    · simp [Context.youngHandles, hheap, Heap.afterPhases]

/-- In every reachable context the structures of the heap agree with each other, and no event runs
into a check that only a broken heap could fail. -/
theorem reachable_representation {config : Config} {ctx : Context} (hr : Reachable config ctx) :
    ctx.heap.WellFormed ∧ ctx.heap.Clear ∧ ctx.youngHandles.reverse.Sublist ctx.issued ∧
      (∀ i offset, ctx.heap.slots.placeAt? i = some (.young offset) → blockAlign ∣ offset) ∧
      (ctx.heap.arena.blocks.toList ++ ctx.heap.old.blocks.toList).Perm ctx.heap.slots.occupied ∧
      ctx.heap.slots.live = ctx.heap.slots.occupied.length ∧
      ∀ (event : Event) (why : Fault), event.run.run.run ctx = .error why → ¬ why.Internal := by
  obtain ⟨hw, ho⟩ := hr.invariant (fun _ hc => Context.orderly_ofConfig hc)
    fun _ _ _ hm hw ho => hm.orderly hw ho
  refine ⟨hw, ho.clear, ho.order, ?_, hw.perm_occupied, hw.slots.live_eq, ?_⟩
  · intro i offset hp
    exact hw.young_aligned i offset hp
  · intro event why hf
    exact Mutator.ends_of_error (event.traced ctx hw) hf

theorem reachable_representation_reused_slot :
    ∃ ctx, Reachable { arenaBytes := 100, stackSlots := 4 } ctx ∧ ctx.issued = [⟨0, 2⟩, ⟨0, 1⟩] ∧
      ctx.heap.WellFormed ∧ ctx.heap.Clear := by
  have hstart : Reachable { arenaBytes := 100, stackSlots := 4 } _ := .start rfl
  have hreached := hstart.after [.act (.allocateObjects (1 : Nat)), .act (.allocateBytes (3 : Nat))]
  have hrep := reachable_representation hreached
  exact ⟨_, hreached, by cbv, hrep.1, hrep.2.1⟩

end GenerationalHeap
