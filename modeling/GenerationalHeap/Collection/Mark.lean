import GenerationalHeap.Counting
import GenerationalHeap.Heap.Basic
import GenerationalHeap.Collection.Record

namespace GenerationalHeap

def Block.mark (block : Block) : Block := { block with marked := true }

def Block.unmark (block : Block) : Block := { block with marked := false }

def Slot.isUnmarked (slot : Slot) : Bool := slot.block.any fun block => !block.marked

namespace SlotTable

/-- Number of blocks still to be marked. -/
def unmarked (t : SlotTable) : Nat := t.slots.toList.countP Slot.isUnmarked

theorem unmarked_update_mark_lt (t : SlotTable) (h : Handle) (block : Block)
    (hr : t.resolve h = some block) (hm : block.marked = false) :
    (t.update h.index Block.mark).unmarked < t.unmarked := by
  unfold resolve at hr
  split at hr
  · rename_i slot hslot
    split at hr
    · have hget : t.slots.toList[h.index]? = some slot := by
        rw [Array.getElem?_toList]; exact hslot
      unfold unmarked update
      rw [Array.toList_modify]
      apply countP_modify_lt Slot.isUnmarked _ _ _ hget
      · simp [Slot.isUnmarked, hr, hm]
      · simp [Slot.isUnmarked, hr, Block.mark]
    · simp at hr
  · simp at hr

/-- Marks every block reachable from the handles of the worklist and counts the blocks it marks.
The first handle goes first; the references of a newly marked block go before the others, the last
of them first. A handle that stands for no block is a fault. -/
def mark (t : SlotTable) (count : Tally) : List Handle → Except Fault (SlotTable × Tally)
  | [] => .ok (t, count)
  | h :: work =>
    match hr : t.resolve h with
    | none => .error (.danglingReference h)
    | some block =>
      if hm : block.marked then mark t count work
      else
        have := unmarked_update_mark_lt t h block hr (by simpa using hm)
        mark (t.update h.index Block.mark) (count.count block.size)
          (block.payload.references.reverse ++ work)
termination_by work => (t.unmarked, work.length)

end SlotTable

end GenerationalHeap
