import GenerationalHeap.Heap.Slots
import GenerationalHeap.Error

namespace GenerationalHeap

/-- Where the payload of a young block starts in the arena, behind its header. -/
def Block.payloadOffset? (block : Block) : Option Nat :=
  match block.place with
  | .young offset => some (offset + headerBytes)
  | .old => none

/-- The young generation: blocks stand back to back from offset 0 up to `used`, listed by their
slots. -/
structure Arena where
  capacity : Nat
  mapped : Nat
  used : Nat := 0
  blocks : Array Nat := #[]

/-- An arena of the given capacity; none is mapped for capacity 0. -/
def Arena.reserve (capacity : Nat) (page : Nat := pageBytes) : Except MappingError Arena :=
  if capacity = 0 then .ok { capacity := 0, mapped := 0 }
  else (mappedLength page capacity).map fun mapped => { capacity, mapped }

def Arena.remaining (a : Arena) : Nat := a.capacity - a.used

/-- Empties the arena and zeroes what was used of its mapping. -/
def Arena.reset (a : Arena) : Except Fault Arena :=
  match checkRange a.mapped 0 a.used with
  | .ok _ => .ok { a with used := 0, blocks := #[] }
  | .error why => .error (.zeroRange why)

/-- The old generation: blocks in memory of their own, listed by their slots. -/
structure OldSpace where
  blocks : Array Nat := #[]
  bytes : Nat := 0

structure Heap where
  slots : SlotTable := {}
  arena : Arena
  old : OldSpace := {}

/-- Block size of a request, unless it is above the limit or no block can hold it. -/
def requestSize (limit : Nat) (kind : PayloadKind) (count : Nat) : Except RuntimeError Nat :=
  match kind.payloadBytes count with
  | none => .error (.allocationTooLarge Word.largest limit)
  | some payload =>
    if limit < payload then .error (.allocationTooLarge payload limit)
    else match blockSize? payload with
      | none => .error (.allocationTooLarge payload limit)
      | some size => .ok size

namespace Heap

def block? (heap : Heap) (h : Handle) : Option Block := heap.slots.resolve h

def contains (heap : Heap) (h : Handle) : Bool := (heap.block? h).isSome

/-- Places a new block behind the last one of the arena, if there is room. -/
def allocateYoung? (heap : Heap) (payload : Payload) (size : Nat) : Option (Handle × Heap) :=
  if size ≤ heap.arena.remaining then
    let (h, slots) := heap.slots.insert { payload, size, place := .young heap.arena.used }
    some (h, { heap with
      slots
      arena := { heap.arena with
        used := heap.arena.used + size
        blocks := heap.arena.blocks.push h.index } })
  else none

def allocateOld (heap : Heap) (payload : Payload) (size : Nat) : Handle × Heap :=
  let (h, slots) := heap.slots.insert { payload, size, place := .old }
  (h, { heap with
    slots
    old := { blocks := heap.old.blocks.push h.index, bytes := heap.old.bytes + size } })

/-- Values held by an allocation. -/
def objects (heap : Heap) (h : Handle) : Except RuntimeError (Array Node) :=
  match heap.block? h with
  | none => .error (.danglingHandle h)
  | some block =>
    match block.payload with
    | .objects nodes => .ok nodes
    | .bytes _ => .error (.wrongPayload h .objects .bytes)

/-- Bytes held by an allocation. -/
def bytes (heap : Heap) (h : Handle) : Except RuntimeError (Array UInt8) :=
  match heap.block? h with
  | none => .error (.danglingHandle h)
  | some block =>
    match block.payload with
    | .bytes data => .ok data
    | .objects _ => .error (.wrongPayload h .bytes .objects)

/-- Replaces the contents of the block in a slot. -/
def setPayload (heap : Heap) (index : Nat) (payload : Payload) : Heap :=
  { heap with slots := heap.slots.update index fun block => { block with payload } }

/-- Changes the values held by an allocation. -/
def modifyObjects (heap : Heap) (h : Handle) (f : Array Node → Array Node) :
    Except RuntimeError Heap :=
  (heap.objects h).map fun nodes => heap.setPayload h.index (.objects (f nodes))

/-- Changes the bytes held by an allocation. -/
def modifyBytes (heap : Heap) (h : Handle) (f : Array UInt8 → Array UInt8) :
    Except RuntimeError Heap :=
  (heap.bytes h).map fun data => heap.setPayload h.index (.bytes (f data))

end Heap

end GenerationalHeap
