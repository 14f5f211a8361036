import GenerationalHeap.Memory.Word

namespace GenerationalHeap

/-- What an allocation holds: an array of values or raw bytes. -/
inductive PayloadKind
  | objects
  | bytes
deriving DecidableEq

def PayloadKind.name : PayloadKind → String
  | .objects => "objects"
  | .bytes => "bytes"

/-- Bytes in front of every payload. -/
def headerBytes : Nat := 32

/-- Bytes that one value takes in an allocation. -/
def nodeBytes : Nat := 24

/-- Every block starts at a multiple of this. -/
def blockAlign : Nat := 16

/-- Smaller payloads are padded to this many bytes. -/
def minPayload : Nat := 16

/-- Largest aligned block the system hands out. -/
def largestBlock : Nat := 0x8000000000000000 - blockAlign

/-- Bytes a payload of `count` items takes, unless they leave the word range. -/
def PayloadKind.payloadBytes : PayloadKind → Nat → Option Nat
  | .objects, count => Word.mul? count nodeBytes
  | .bytes, count => some count

/-- Header and padded payload together, unless some sum leaves the word range or the block is
larger than any the system hands out. -/
def blockSize? (payload : Nat) : Option Nat := do
  let padded ← Word.roundUp? blockAlign (max payload minPayload)
  let size ← Word.add? headerBytes padded
  if size ≤ largestBlock then some size else none

end GenerationalHeap
