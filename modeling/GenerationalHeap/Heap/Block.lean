import GenerationalHeap.Value.Node
import GenerationalHeap.Memory.Sizing

namespace GenerationalHeap

inductive Payload
  | objects (nodes : Array Node)
  | bytes (data : Array UInt8)
deriving DecidableEq

namespace Payload

def kind : Payload → PayloadKind
  | objects _ => .objects
  | bytes _ => .bytes

def count : Payload → Nat
  | objects nodes => nodes.size
  | bytes data => data.size

/-- Contents of a new allocation: undefined values or zero bytes. -/
def fresh : PayloadKind → Nat → Payload
  | .objects, count => .objects (Array.replicate count .undefined)
  | .bytes, count => .bytes (Array.replicate count 0)

/-- Allocations the values refer to, in order; bytes refer to nothing. -/
def references : Payload → List Handle
  | objects nodes => nodes.toList.flatMap Node.references
  | bytes _ => []

end Payload

inductive Generation
  | young
  | old
deriving DecidableEq

def Generation.name : Generation → String
  | .young => "young"
  | .old => "old"

/-- Where a block lies: at an offset of the arena, or in memory of its own. -/
inductive Place
  | young (offset : Nat)
  | old
deriving DecidableEq

def Place.generation : Place → Generation
  | .young _ => .young
  | .old => .old

/-- One allocation with its bookkeeping. -/
structure Block where
  payload : Payload
  size : Nat
  place : Place
  marked : Bool := false
deriving DecidableEq

end GenerationalHeap
