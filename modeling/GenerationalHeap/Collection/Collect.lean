import GenerationalHeap.Collection.Mark

namespace GenerationalHeap

/-- Progress of a walk over blocks that keeps the marked ones and reclaims the others. -/
structure Sifting where
  slots : SlotTable
  kept : Array Nat := #[]
  keptTally : Tally := {}
  freedTally : Tally := {}

/-- Treats the block in one slot: `keep` changes a marked block, an unmarked one gives up its slot. -/
def Sifting.step (keep : Block → Block) (s : Sifting) (index : Nat) : Except Fault Sifting :=
  match s.slots.blockAt? index with
  | none => .error (.doubleRelease index)
  | some block =>
    if block.marked then
      .ok { s with
        slots := s.slots.update index keep
        kept := s.kept.push index
        keptTally := s.keptTally.count block.size }
    else match s.slots.release? index with
      | none => .error (.doubleRelease index)
      | some slots => .ok { s with slots, freedTally := s.freedTally.count block.size }

/-- Walks over the blocks in the listed slots, in order. -/
def sift (keep : Block → Block) (slots : SlotTable) (indices : Array Nat) : Except Fault Sifting :=
  indices.toList.foldlM (Sifting.step keep) { slots }

/-- Moves a block into the old generation, its mark included. -/
def Block.settle (block : Block) : Block := { block with place := .old }

namespace Heap

/-- One collection: clears all marks, marks what the roots reach, promotes the marked young blocks,
sweeps the unmarked old ones and empties the arena. Slots are released in the order of the walks. -/
def collect (heap : Heap) (roots : List Handle) (trigger : Trigger) (number : Nat) :
    Except Fault (Heap × CollectionRecord) := do
  let cleared := heap.arena.blocks.size + heap.old.blocks.size
  let (slots, marked) ← (heap.slots.mapBlocks Block.unmark).mark {} roots.reverse
  let promotion ← sift Block.settle slots heap.arena.blocks
  let sweep ← sift Block.unmark promotion.slots (heap.old.blocks ++ promotion.kept)
  let arena ← heap.arena.reset
  let bytes := heap.old.bytes + promotion.keptTally.bytes - sweep.freedTally.bytes
  return ({ slots := sweep.slots, arena, old := { blocks := sweep.kept, bytes } },
    { trigger
      number
      cleared
      marked
      promoted := promotion.keptTally
      youngReclaimed := promotion.freedTally
      oldReclaimed := sweep.freedTally
      surviving := ⟨sweep.slots.live, bytes⟩ })

end Heap

end GenerationalHeap
