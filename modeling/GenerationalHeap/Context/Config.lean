namespace GenerationalHeap

/-- State of the heap as a collect condition sees it. -/
structure CollectInfo where
  allocationsSinceCollect : Nat
  youngSize : Nat
  oldSize : Nat
  liveAllocations : Nat

def CollectInfo.heapSize (info : CollectInfo) : Nat := info.youngSize + info.oldSize

/-- Whether a checkpoint collects. -/
abbrev Condition := CollectInfo → Bool

namespace Condition

/-- Collects if anything was allocated since the last collection. -/
def anyAllocation : Condition := fun info => 0 < info.allocationsSinceCollect

def always : Condition := fun _ => true

def never : Condition := fun _ => false

/-- Collects if a measure of the heap is above a bound. -/
def above (measure : CollectInfo → Nat) (bound : Nat) : Condition := fun info => bound < measure info

end Condition

structure Config where
  arenaBytes : Nat := 16000
  stackSlots : Nat := 16000
  maxAllocationBytes : Nat := 0x40000000
  condition : Condition := Condition.anyAllocation

end GenerationalHeap
