import GenerationalHeap.Error

namespace GenerationalHeap

/-- Where the stack stood when a frame began. -/
structure Frame where
  base : Nat
  top : Nat
deriving DecidableEq

/-- Values of a running program. Slots below `top` are in use, those from `base` on by the current
frame; the others are undefined. -/
structure ValueStack where
  slots : Array Node
  top : Nat
  base : Nat

namespace ValueStack

def ofCapacity (capacity : Nat) : ValueStack := ⟨Array.replicate capacity .undefined, 0, 0⟩

def capacity (s : ValueStack) : Nat := s.slots.size

def frameLength (s : ValueStack) : Nat := s.top - s.base

/-- Content of a slot; there is nothing beyond the last. -/
def slot (s : ValueStack) (i : Nat) : Node := s.slots[i]?.getD .undefined

/-- Slots in use, from the bottom. -/
def live (s : ValueStack) : List Node := s.slots.toList.take s.top

def push (s : ValueStack) (node : Node) : Except RuntimeError ValueStack :=
  if s.top < s.capacity then
    .ok { s with slots := s.slots.setIfInBounds s.top node, top := s.top + 1 }
  else .error (.stackOverflow s.capacity)

def peek (s : ValueStack) : Except RuntimeError Node :=
  if s.top = s.base then .error .stackUnderflow else .ok (s.slot (s.top - 1))

def pop (s : ValueStack) : Except RuntimeError (Node × ValueStack) :=
  if s.top = s.base then .error .stackUnderflow
  else
    let top := s.top - 1
    .ok (s.slot top, { s with slots := s.slots.setIfInBounds top .undefined, top })

/-- Takes `count` more slots, which are undefined. -/
def reserve (s : ValueStack) (count : Nat) : Except RuntimeError ValueStack :=
  match Word.add? s.top count with
  | some top =>
    if top ≤ s.capacity then .ok { s with top } else .error (.stackOverflow s.capacity)
  | none => .error (.stackOverflow s.capacity)

/-- Position of a slot of the current frame. -/
def position (s : ValueStack) (index : Nat) : Except RuntimeError Nat :=
  if index < s.frameLength then .ok (s.base + index)
  else .error (.slotOutOfRange index s.frameLength)

def readLocal (s : ValueStack) (index : Nat) : Except RuntimeError Node :=
  (s.position index).map s.slot

def writeLocal (s : ValueStack) (index : Nat) (node : Node) : Except RuntimeError ValueStack :=
  (s.position index).map fun i => { s with slots := s.slots.setIfInBounds i node }

/-- Makes `count` slots from `start` on undefined. -/
def clear (slots : Array Node) (start : Nat) : Nat → Array Node
  | 0 => slots
  | count + 1 => (clear slots start count).setIfInBounds (start + count) .undefined

/-- Lowers the top; a higher one changes nothing. -/
def truncate (s : ValueStack) (top : Nat) : ValueStack :=
  if top < s.top then { s with slots := clear s.slots top (s.top - top), top } else s

def drop (s : ValueStack) (count : Nat) : Except RuntimeError ValueStack :=
  if s.frameLength < count then .error .stackUnderflow else .ok (s.truncate (s.top - count))

def pushFrame (s : ValueStack) : Frame × ValueStack :=
  (⟨s.base, s.top⟩, { s with base := s.top })

/-- Ends a frame with all its values. The stack must not have sunk below the frame's start. -/
def popFrame (s : ValueStack) (frame : Frame) : Except Fault ValueStack :=
  if s.top < frame.top then .error .framesOutOfOrder
  else .ok { s.truncate frame.top with base := frame.base }

end ValueStack

end GenerationalHeap
