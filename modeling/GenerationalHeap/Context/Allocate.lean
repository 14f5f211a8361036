import GenerationalHeap.Context.Basic

namespace GenerationalHeap.Mutator

def collectWith (trigger : Trigger) : Mutator CollectionRecord := do
  match (← get).collect trigger with
  | .ok (record, ctx) =>
    set ctx
    return record
  | .error why => fault why

def collect : Mutator CollectionRecord := collectWith .explicit

/-- Collects if collection is not inhibited and the configured condition holds. -/
def checkpoint : Mutator (Option CollectionRecord) := do
  let ctx ← get
  if ctx.inhibitDepth = 0 ∧ ctx.config.condition ctx.collectInfo then
    return some (← collectWith .checkpoint)
  else return none

/-- Places a block in the arena, if there is room. -/
def placeYoung (payload : Payload) (size : Nat) : Mutator (Option Handle) := do
  match (← get).heap.allocateYoung? payload size with
  | some (h, heap) =>
    modify fun ctx => { ctx with heap }
    return some h
  | none => return none

/-- Places a block in the old generation from the start and books the escape. -/
def placeOld (payload : Payload) (size : Nat) : Mutator Handle := do
  let ctx ← get
  let (h, heap) := ctx.heap.allocateOld payload size
  set { ctx with
    heap
    totals := { ctx.totals with escapes := ctx.totals.escapes + 1 }
    trace := ctx.trace.logEscape size ctx.heap.arena.capacity }
  return h

/-- Whether emptying the arena may make room for a block. -/
def mayCollectFor (size : Nat) : Mutator Bool := do
  let ctx ← get
  return ctx.inhibitDepth = 0 ∧ size ≤ ctx.heap.arena.capacity

/-- Finds a place for a block: in the arena, in the arena after a collection, or old from the start. -/
def place (payload : Payload) (size : Nat) : Mutator Handle := do
  match ← placeYoung payload size with
  | some h => return h
  | none =>
    if ← mayCollectFor size then
      let _ ← collectWith .arenaExhausted
      match ← placeYoung payload size with
      | some h => return h
      | none => placeOld payload size
    else placeOld payload size

/-- Books one more allocation. -/
def countAllocation (h : Handle) : Mutator Unit :=
  modify fun ctx => { ctx with
    allocationsSinceCollect := ctx.allocationsSinceCollect + 1
    issued := h :: ctx.issued
    totals := { ctx.totals with allocations := ctx.totals.allocations + 1 } }

/-- A new allocation. A request above the limit changes nothing; any other may run a collection. -/
def allocate (kind : PayloadKind) (count : Nat) : Mutator Handle := do
  let size ← read fun ctx => requestSize ctx.config.maxAllocationBytes kind count
  let h ← place (Payload.fresh kind count) size
  countAllocation h
  return h

def allocateObjects (count : Nat) : Mutator Handle := allocate .objects count

def allocateBytes (count : Nat) : Mutator Handle := allocate .bytes count

/-- Forbids collection one level deeper. -/
def beginInhibit : Mutator Unit := modify fun ctx => { ctx with inhibitDepth := ctx.inhibitDepth + 1 }

def endInhibit : Mutator Unit := modify fun ctx => { ctx with inhibitDepth := ctx.inhibitDepth - 1 }

end GenerationalHeap.Mutator
