import GenerationalHeap.Heap.Block

namespace GenerationalHeap

structure Slot where
  version : Nat
  block : Option Block

/-- The handle table. Vacant slots are reused, the latest first, under a new version. -/
structure SlotTable where
  slots : Array Slot := #[]
  free : List Nat := []
  live : Nat := 0

namespace SlotTable

/-- The block in a slot, whatever the slot's version. -/
def blockAt? (t : SlotTable) (index : Nat) : Option Block :=
  t.slots[index]?.bind (·.block)

/-- The block a handle stands for; a handle of an earlier version stands for none. -/
def resolve (t : SlotTable) (h : Handle) : Option Block :=
  match t.slots[h.index]? with
  | some slot => if slot.version = h.version then slot.block else none
  | none => none

/-- Puts a block into a vacant slot, or into a new one if none is vacant. -/
def insert (t : SlotTable) (block : Block) : Handle × SlotTable :=
  match t.free with
  | index :: free =>
    let version := (t.slots[index]?.map (·.version)).getD firstVersion
    (⟨index, version⟩,
      { slots := t.slots.setIfInBounds index ⟨version, some block⟩, free, live := t.live + 1 })
  | [] =>
    (⟨t.slots.size, firstVersion⟩,
      { slots := t.slots.push ⟨firstVersion, some block⟩, free := [], live := t.live + 1 })

/-- Changes the block in a slot; a vacant slot stays vacant. -/
def update (t : SlotTable) (index : Nat) (f : Block → Block) : SlotTable :=
  { t with slots := t.slots.modify index fun slot => { slot with block := slot.block.map f } }

/-- Vacates a slot, which makes its handle stale. A slot that is already vacant is refused. -/
def release? (t : SlotTable) (index : Nat) : Option SlotTable :=
  match t.blockAt? index with
  | some _ =>
    some {
      slots := t.slots.modify index fun slot => ⟨nextVersion slot.version, none⟩
      free := index :: t.free
      live := t.live - 1 }
  | none => none

/-- Changes every block. -/
def mapBlocks (t : SlotTable) (f : Block → Block) : SlotTable :=
  { t with slots := t.slots.map fun slot => { slot with block := slot.block.map f } }

end SlotTable

end GenerationalHeap
