import GenerationalHeap.Proofs.BlockSize
import GenerationalHeap.Proofs.Sifting

namespace GenerationalHeap

namespace SlotTable

/-- Where the block in a slot lies. -/
def placeAt? (t : SlotTable) (i : Nat) : Option Place := (t.blockAt? i).map (·.place)

/-- The blocks in the listed slots stand back to back in the arena from `start` to `stop`. -/
def Tiled (t : SlotTable) : Nat → List Nat → Nat → Prop
  | start, [], stop => start = stop
  | start, i :: rest, stop => t.placeAt? i = some (.young start) ∧ Tiled t (start + t.sizeAt i) rest stop

theorem placeAt?_eq_some (t : SlotTable) (i : Nat) (p : Place) (h : t.placeAt? i = some p) :
    ∃ b, t.blockAt? i = some b ∧ b.place = p := by
  simpa [placeAt?] using h

theorem Tiled.congr {t t' : SlotTable} (l : List Nat) (start stop : Nat)
    (hp : ∀ i ∈ l, t'.placeAt? i = t.placeAt? i) (hs : ∀ i ∈ l, t'.sizeAt i = t.sizeAt i)
    (h : t.Tiled start l stop) : t'.Tiled start l stop := by
  induction l generalizing start with
  | nil => exact h
  | cons i l ih =>
    obtain ⟨hi, hrest⟩ := h
    refine ⟨(hp i List.mem_cons_self).trans hi, ?_⟩
    rw [hs i List.mem_cons_self]
    exact ih _ (fun j hj => hp j (List.mem_cons_of_mem _ hj))
      (fun j hj => hs j (List.mem_cons_of_mem _ hj)) hrest

theorem Tiled.snoc {t : SlotTable} (l : List Nat) (start stop i : Nat) (h : t.Tiled start l stop)
    (hi : t.placeAt? i = some (.young stop)) : t.Tiled start (l ++ [i]) (stop + t.sizeAt i) := by
  induction l generalizing start with
  | nil =>
    obtain rfl : start = stop := h
    exact ⟨hi, rfl⟩
  | cons j l ih => exact ⟨h.1, ih _ h.2⟩

/-- Blocks whose sizes are multiples of the alignment start at multiples of it. -/
theorem Tiled.aligned {t : SlotTable} (l : List Nat) (start stop : Nat) (h : t.Tiled start l stop)
    (hstart : blockAlign ∣ start) (hsizes : ∀ i ∈ l, blockAlign ∣ t.sizeAt i) :
    ∀ i ∈ l, ∀ offset, t.placeAt? i = some (.young offset) → blockAlign ∣ offset := by
  induction l generalizing start with
  | nil => simp
  | cons j l ih =>
    intro i hi offset ho
    rcases List.mem_cons.mp hi with rfl | hi
    · have he := h.1.symm.trans ho
      simp only [Option.some.injEq, Place.young.injEq] at he
      exact he ▸ hstart
    · exact ih _ h.2 (Nat.dvd_add hstart (hsizes j List.mem_cons_self))
        (fun k hk => hsizes k (List.mem_cons_of_mem _ hk)) i hi offset ho

/-- Blocks that stand back to back take up the sum of their sizes. -/
theorem Tiled.stop_eq {t : SlotTable} (l : List Nat) (start stop : Nat) (h : t.Tiled start l stop) :
    stop = start + (t.tally l).bytes := by
  induction l generalizing start with
  | nil =>
    obtain rfl : start = stop := h
    simp [tally]
  | cons i l ih =>
    have hrest := ih _ h.2
    rw [tally_cons]
    simp only
    omega

end SlotTable

namespace Heap

/-- The structures of the heap agree with each other: young blocks tile the used part of the arena,
every block is listed once in its generation, every listed slot is occupied, the free list and the
counters are exact, and every block has the size of its contents. -/
structure WellFormed (heap : Heap) : Prop where
  slots : heap.slots.Sound
  sizes : ∀ i b, heap.slots.blockAt? i = some b →
    b.size = b.payload.kind.blockBytes b.payload.count
  tiled : heap.slots.Tiled 0 heap.arena.blocks.toList heap.arena.used
  used_le : heap.arena.used ≤ heap.arena.capacity
  capacity_le : heap.arena.capacity ≤ heap.arena.mapped
  mapped_lt : heap.arena.mapped < Word.span
  young_nodup : heap.arena.blocks.toList.Nodup
  young_mem : ∀ i, i ∈ heap.arena.blocks.toList ↔ ∃ offset, heap.slots.placeAt? i = some (.young offset)
  old_nodup : heap.old.blocks.toList.Nodup
  old_mem : ∀ i, i ∈ heap.old.blocks.toList ↔ heap.slots.placeAt? i = some .old
  old_bytes : heap.old.bytes = (heap.slots.tally heap.old.blocks.toList).bytes

/-- No block is marked. -/
def Clear (heap : Heap) : Prop := ∀ i, heap.slots.markedAt i = false

variable {heap : Heap}

theorem WellFormed.young_occupied (hw : heap.WellFormed) (i : Nat)
    (hi : i ∈ heap.arena.blocks.toList) : ∃ b, heap.slots.blockAt? i = some b := by
  obtain ⟨offset, ho⟩ := (hw.young_mem i).mp hi
  obtain ⟨b, hb, _⟩ := SlotTable.placeAt?_eq_some _ _ _ ho
  exact ⟨b, hb⟩

theorem WellFormed.old_occupied (hw : heap.WellFormed) (i : Nat)
    (hi : i ∈ heap.old.blocks.toList) : ∃ b, heap.slots.blockAt? i = some b := by
  obtain ⟨b, hb, _⟩ := SlotTable.placeAt?_eq_some _ _ _ ((hw.old_mem i).mp hi)
  exact ⟨b, hb⟩

/-- Every block is listed in one of the generations. -/
theorem WellFormed.listed (hw : heap.WellFormed) (i : Nat) (b : Block)
    (hb : heap.slots.blockAt? i = some b) :
    i ∈ heap.arena.blocks.toList ∨ i ∈ heap.old.blocks.toList := by
  cases hp : b.place with
  | young offset => exact .inl ((hw.young_mem i).mpr ⟨offset, by simp [SlotTable.placeAt?, hb, hp]⟩)
  | old => exact .inr ((hw.old_mem i).mpr (by simp [SlotTable.placeAt?, hb, hp]))

theorem WellFormed.young_not_old (hw : heap.WellFormed) (i : Nat)
    (hy : i ∈ heap.arena.blocks.toList) : i ∉ heap.old.blocks.toList := by
  intro ho
  obtain ⟨offset, hp⟩ := (hw.young_mem i).mp hy
  have hq := (hw.old_mem i).mp ho
  rw [hp] at hq
  simp at hq

/-- The blocks of the two generations are the occupied slots, each of them once. -/
theorem WellFormed.perm_occupied (hw : heap.WellFormed) :
    (heap.arena.blocks.toList ++ heap.old.blocks.toList).Perm heap.slots.occupied := by
  have hnodup : (heap.arena.blocks.toList ++ heap.old.blocks.toList).Nodup := by
    rw [List.nodup_append']
    exact ⟨hw.young_nodup, hw.old_nodup, fun i hy ho => hw.young_not_old i hy ho⟩
  rw [List.perm_ext_iff_of_nodup hnodup (SlotTable.nodup_occupied _)]
  intro i
  rw [List.mem_append, SlotTable.mem_occupied]
  constructor
  · intro hlisted
    rcases hlisted with hy | ho
    · obtain ⟨b, hb⟩ := hw.young_occupied i hy
      exact ⟨b, hb⟩
    · obtain ⟨b, hb⟩ := hw.old_occupied i ho
      exact ⟨b, hb⟩
  · intro hoccupied
    obtain ⟨b, hb⟩ := hoccupied
    exact hw.listed i b hb

theorem WellFormed.live_eq_blocks (hw : heap.WellFormed) :
    heap.slots.live = heap.arena.blocks.toList.length + heap.old.blocks.toList.length := by
  rw [hw.slots.live_eq, ← hw.perm_occupied.length_eq, List.length_append]

theorem WellFormed.used_eq (hw : heap.WellFormed) :
    heap.arena.used = (heap.slots.tally heap.arena.blocks.toList).bytes := by
  have hstop := hw.tiled.stop_eq
  omega

theorem WellFormed.blockAlign_dvd_sizeAt (hw : heap.WellFormed) (i : Nat) :
    blockAlign ∣ heap.slots.sizeAt i := by
  cases hb : heap.slots.blockAt? i with
  | none => simp [SlotTable.sizeAt, hb]
  | some b =>
    simp only [SlotTable.sizeAt, hb, Option.elim_some, hw.sizes i b hb]
    exact PayloadKind.blockAlign_dvd_blockBytes _ _

theorem WellFormed.young_aligned (hw : heap.WellFormed) (i offset : Nat)
    (ho : heap.slots.placeAt? i = some (.young offset)) : blockAlign ∣ offset :=
  hw.tiled.aligned _ _ _ (Nat.dvd_zero _) (fun j _ => hw.blockAlign_dvd_sizeAt j) i
    ((hw.young_mem i).mpr ⟨offset, ho⟩) offset ho

/-- A heap stays well-formed if its blocks keep their places and sizes. -/
theorem WellFormed.congr (hw : heap.WellFormed) (slots : SlotTable) (hs : slots.Sound)
    (hplace : ∀ i, slots.placeAt? i = heap.slots.placeAt? i)
    (hsize : ∀ i, slots.sizeAt i = heap.slots.sizeAt i)
    (hsizes : ∀ i b, slots.blockAt? i = some b → b.size = b.payload.kind.blockBytes b.payload.count) :
    ({ heap with slots } : Heap).WellFormed where
  slots := hs
  sizes := hsizes
  tiled := hw.tiled.congr _ _ _ (fun i _ => hplace i) (fun i _ => hsize i)
  used_le := hw.used_le
  capacity_le := hw.capacity_le
  mapped_lt := hw.mapped_lt
  young_nodup := hw.young_nodup
  young_mem := fun i => by
    rw [hw.young_mem i]
    exact exists_congr fun offset => by rw [hplace i]
  old_nodup := hw.old_nodup
  old_mem := fun i => by rw [hw.old_mem i, hplace i]
  old_bytes := by
    have hmap : heap.old.blocks.toList.map slots.sizeAt = heap.old.blocks.toList.map heap.slots.sizeAt :=
      List.map_congr_left fun i _ => hsize i
    rw [hw.old_bytes, SlotTable.tally, SlotTable.tally, hmap]

theorem WellFormed.setPayload (hw : heap.WellFormed) (i : Nat) (payload : Payload)
    (h : ∀ b, heap.slots.blockAt? i = some b →
      payload.kind = b.payload.kind ∧ payload.count = b.payload.count) :
    (heap.setPayload i payload).WellFormed := by
  apply hw.congr _ (hw.slots.update _ _)
  · intro j
    simp only [SlotTable.placeAt?, SlotTable.blockAt?_update]
    by_cases hj : j = i <;> cases heap.slots.blockAt? j <;> simp [hj]
  · intro j
    simp only [SlotTable.sizeAt, SlotTable.blockAt?_update]
    by_cases hj : j = i <;> cases heap.slots.blockAt? j <;> simp [hj]
  · intro j b hb
    rw [SlotTable.blockAt?_update] at hb
    by_cases hj : j = i
    · rw [if_pos hj] at hb
      obtain ⟨a, ha, rfl⟩ := Option.map_eq_some_iff.mp hb
      obtain ⟨hk, hc⟩ := h a (hj ▸ ha)
      simp only [hk, hc]
      exact hw.sizes j a ha
    · rw [if_neg hj] at hb
      exact hw.sizes j b hb

section Insertion

variable {b : Block} {h : Handle} {slots : SlotTable}

theorem placeAt?_inserted (hi : SlotTable.Inserted heap.slots b h slots) (j : Nat) :
    slots.placeAt? j = if j = h.index then some b.place else heap.slots.placeAt? j := by
  rw [SlotTable.placeAt?, hi.blockAt?]
  by_cases hj : j = h.index <;> simp [hj, SlotTable.placeAt?]

theorem sizeAt_inserted (hi : SlotTable.Inserted heap.slots b h slots) (j : Nat) :
    slots.sizeAt j = if j = h.index then b.size else heap.slots.sizeAt j := by
  rw [SlotTable.sizeAt, hi.blockAt?]
  by_cases hj : j = h.index <;> simp [hj, SlotTable.sizeAt]

theorem WellFormed.sizeAt_insert (hw : heap.WellFormed) (b : Block) :
    (heap.slots.insert b).2.sizeAt (heap.slots.insert b).1.index = b.size := by
  rw [sizeAt_inserted (hw.slots.insert b).2, if_pos rfl]

theorem WellFormed.not_listed_of_vacant (hw : heap.WellFormed) (i : Nat)
    (hv : heap.slots.blockAt? i = none) :
    i ∉ heap.arena.blocks.toList ∧ i ∉ heap.old.blocks.toList := by
  constructor
  · intro hi
    obtain ⟨b, hb⟩ := hw.young_occupied i hi
    simp [hv] at hb
  · intro hi
    obtain ⟨b, hb⟩ := hw.old_occupied i hi
    simp [hv] at hb

theorem sizes_inserted (hw : heap.WellFormed) (hi : SlotTable.Inserted heap.slots b h slots)
    (hb : b.size = b.payload.kind.blockBytes b.payload.count) (j : Nat) (c : Block)
    (hc : slots.blockAt? j = some c) : c.size = c.payload.kind.blockBytes c.payload.count := by
  rw [hi.blockAt?] at hc
  by_cases hj : j = h.index
  · rw [if_pos hj] at hc
    exact Option.some.inj hc ▸ hb
  · rw [if_neg hj] at hc
    exact hw.sizes j c hc

theorem tally_inserted (hi : SlotTable.Inserted heap.slots b h slots) (l : List Nat)
    (hl : h.index ∉ l) : slots.tally l = heap.slots.tally l := by
  apply SlotTable.tally_congr
  intro j hj
  have hne : j ≠ h.index := fun he => hl (he ▸ hj)
  rw [hi.blockAt?, if_neg hne]

theorem tiled_inserted (hw : heap.WellFormed) (hi : SlotTable.Inserted heap.slots b h slots) :
    slots.Tiled 0 heap.arena.blocks.toList heap.arena.used := by
  have hne : ∀ j ∈ heap.arena.blocks.toList, j ≠ h.index :=
    fun j hj he => (hw.not_listed_of_vacant h.index hi.vacant).1 (he ▸ hj)
  apply hw.tiled.congr
  · intro j hj
    rw [placeAt?_inserted hi j, if_neg (hne j hj)]
  · intro j hj
    rw [sizeAt_inserted hi j, if_neg (hne j hj)]

theorem WellFormed.insertYoung (hw : heap.WellFormed) (hs : slots.Sound)
    (hi : SlotTable.Inserted heap.slots b h slots) (hp : b.place = .young heap.arena.used)
    (hsize : b.size = b.payload.kind.blockBytes b.payload.count)
    (hroom : heap.arena.used + b.size ≤ heap.arena.capacity) :
    ({ heap with
      slots
      arena := { heap.arena with
        used := heap.arena.used + b.size
        blocks := heap.arena.blocks.push h.index } } : Heap).WellFormed := by
  obtain ⟨hyoung, hold⟩ := hw.not_listed_of_vacant h.index hi.vacant
  have hplace := placeAt?_inserted hi h.index
  have hsizeAt := sizeAt_inserted hi h.index
  rw [if_pos rfl] at hplace hsizeAt
  refine ⟨hs, sizes_inserted hw hi hsize, ?_, hroom, hw.capacity_le, hw.mapped_lt, ?_, ?_,
    hw.old_nodup, ?_, ?_⟩
  · have hend := (tiled_inserted hw hi).snoc _ _ _ h.index (hplace.trans (congrArg some hp))
    rw [hsizeAt] at hend
    simpa using hend
  · rw [Array.toList_push, List.nodup_append]
    refine ⟨hw.young_nodup, by simp, ?_⟩
    intro i hi' j hj he
    rw [List.mem_singleton] at hj
    exact hyoung (hj ▸ he ▸ hi')
  · intro i
    rw [Array.toList_push, List.mem_append, List.mem_singleton, placeAt?_inserted hi i, hw.young_mem i]
    by_cases hj : i = h.index
    · simp [hj, hp]
    · simp [hj]
  · intro i
    rw [placeAt?_inserted hi i]
    by_cases hj : i = h.index
    · subst hj
      simpa [hp] using hold
    · simpa [hj] using hw.old_mem i
  · rw [tally_inserted hi _ hold]
    exact hw.old_bytes

theorem WellFormed.insertOld (hw : heap.WellFormed) (hs : slots.Sound)
    (hi : SlotTable.Inserted heap.slots b h slots) (hp : b.place = .old)
    (hsize : b.size = b.payload.kind.blockBytes b.payload.count) :
    ({ heap with
      slots
      old := { blocks := heap.old.blocks.push h.index, bytes := heap.old.bytes + b.size } } :
        Heap).WellFormed := by
  obtain ⟨hyoung, hold⟩ := hw.not_listed_of_vacant h.index hi.vacant
  have hsizeAt := sizeAt_inserted hi h.index
  rw [if_pos rfl] at hsizeAt
  have htiled := tiled_inserted hw hi
  refine ⟨hs, sizes_inserted hw hi hsize, htiled, hw.used_le, hw.capacity_le, hw.mapped_lt,
    hw.young_nodup, ?_, ?_, ?_, ?_⟩
  · intro i
    rw [placeAt?_inserted hi i]
    by_cases hj : i = h.index
    · subst hj
      simpa [hp] using hyoung
    · simpa [hj] using hw.young_mem i
  · rw [Array.toList_push, List.nodup_append]
    refine ⟨hw.old_nodup, by simp, ?_⟩
    intro i hi' j hj he
    rw [List.mem_singleton] at hj
    exact hold (hj ▸ he ▸ hi')
  · intro i
    rw [Array.toList_push, List.mem_append, List.mem_singleton, placeAt?_inserted hi i, hw.old_mem i]
    by_cases hj : i = h.index
    · simp [hj, hp]
    · simp [hj]
  · have hsum : slots.tally (heap.old.blocks.toList ++ [h.index]) =
        ⟨heap.old.blocks.toList.length + 1, (slots.tally heap.old.blocks.toList).bytes + b.size⟩ := by
      simp [SlotTable.tally, hsizeAt]
    rw [Array.toList_push, hsum, tally_inserted hi _ hold, hw.old_bytes]

end Insertion

theorem allocateYoung?_eq_some (payload : Payload) (size : Nat) (h : Handle) (heap' : Heap)
    (ha : heap.allocateYoung? payload size = some (h, heap')) :
    size ≤ heap.arena.remaining ∧
      h = (heap.slots.insert { payload, size, place := .young heap.arena.used }).1 ∧
      heap' = { heap with
        slots := (heap.slots.insert { payload, size, place := .young heap.arena.used }).2
        arena := { heap.arena with
          used := heap.arena.used + size
          blocks := heap.arena.blocks.push h.index } } := by
  unfold allocateYoung? at ha
  split at ha
  · rename_i hle
    obtain ⟨rfl, rfl⟩ := Prod.mk.inj (Option.some.inj ha)
    exact ⟨hle, rfl, rfl⟩
  · simp at ha

theorem WellFormed.allocateYoung? (hw : heap.WellFormed) (payload : Payload) (size : Nat)
    (hsize : size = payload.kind.blockBytes payload.count) (h : Handle) (heap' : Heap)
    (ha : heap.allocateYoung? payload size = some (h, heap')) : heap'.WellFormed := by
  obtain ⟨hle, rfl, rfl⟩ := allocateYoung?_eq_some payload size h heap' ha
  obtain ⟨hs, hi⟩ := hw.slots.insert { payload, size, place := .young heap.arena.used }
  have hroom : heap.arena.used + size ≤ heap.arena.capacity := by
    have := hw.used_le
    rw [Arena.remaining] at hle
    omega
  exact hw.insertYoung hs hi rfl hsize hroom

theorem WellFormed.allocateOld (hw : heap.WellFormed) (payload : Payload) (size : Nat)
    (hsize : size = payload.kind.blockBytes payload.count) :
    (heap.allocateOld payload size).2.WellFormed := by
  obtain ⟨hs, hi⟩ := hw.slots.insert { payload, size, place := .old }
  exact hw.insertOld hs hi rfl hsize

end Heap

end GenerationalHeap
