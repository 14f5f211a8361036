import GenerationalHeap.Memory.Word

namespace GenerationalHeap

/-- Bytes in one page of memory, where no other page size is given. -/
def pageBytes : Nat := 4096

/-- Least number of whole pages, in bytes, that holds `length` bytes. -/
def roundToPages (length : Nat) (page : Nat := pageBytes) : Option Nat := Word.roundUp? page length

/-- A private, zero-filled stretch of whole pages. -/
structure Mapping where
  length : Nat
  byteAt : Nat → UInt8

inductive MappingError
  | emptyLength
  | lengthOverflow
deriving DecidableEq

def MappingError.message : MappingError → String
  | .emptyLength => "length must be greater than 0"
  | .lengthOverflow => "length overflows page rounding"

/-- A range that cannot be zeroed: its end leaves the word range or the mapping. -/
inductive RangeFault
  | overflow
  | outside (offset stop length : Nat)
deriving DecidableEq

def RangeFault.message : RangeFault → String
  | .overflow => "zero range overflows"
  | .outside offset stop length =>
    "zero range " ++ offset.repr ++ ".." ++ stop.repr ++ " exceeds mapping of " ++
      length.repr ++ " bytes"

/-- Length of the mapping that serves a request, for any page size. -/
def mappedLength (page length : Nat) : Except MappingError Nat :=
  if length = 0 then .error .emptyLength
  else match roundToPages length page with
    | none => .error .lengthOverflow
    | some rounded => .ok rounded

def Mapping.anonymous (length : Nat) (page : Nat := pageBytes) : Except MappingError Mapping :=
  (mappedLength page length).map fun rounded => ⟨rounded, fun _ => 0⟩

/-- Accepts a range of `count` bytes at `offset` inside `length` bytes. -/
def checkRange (length offset count : Nat) : Except RangeFault Unit :=
  match Word.add? offset count with
  | none => .error .overflow
  | some stop => if stop ≤ length then .ok () else .error (.outside offset stop length)

def Mapping.overwrite (m : Mapping) (offset count : Nat) (byte : UInt8) : Mapping :=
  { m with byteAt := fun i => if offset ≤ i ∧ i < offset + count then byte else m.byteAt i }

def Mapping.zero (m : Mapping) (offset count : Nat) : Except RangeFault Mapping :=
  (checkRange m.length offset count).map fun _ => m.overwrite offset count 0

def Mapping.fill? (m : Mapping) (offset count : Nat) (byte : UInt8) : Option Mapping :=
  if offset + count ≤ m.length then some (m.overwrite offset count byte) else none

def Mapping.read? (m : Mapping) (offset count : Nat) : Option (List UInt8) :=
  if offset + count ≤ m.length then
    some ((List.range count).map fun i => m.byteAt (offset + i))
  else none

/-- One use of a mapping. -/
inductive MappingStep
  | zero (offset count : Nat)
  | fill (offset count : Nat) (byte : UInt8)
  | read (offset count : Nat)

inductive MappingAnswer
  | done
  | bytes (data : List UInt8)
  | outOfRange
  | fault (why : RangeFault)

def Mapping.perform (m : Mapping) : MappingStep → MappingAnswer × Mapping
  | .zero offset count =>
    match m.zero offset count with
    | .ok m' => (.done, m')
    | .error why => (.fault why, m)
  | .fill offset count byte =>
    match m.fill? offset count byte with
    | some m' => (.done, m')
    | none => (.outOfRange, m)
  | .read offset count =>
    match m.read? offset count with
    | some data => (.bytes data, m)
    | none => (.outOfRange, m)

def Mapping.performAll : Mapping → List MappingStep → List MappingAnswer
  | _, [] => []
  | m, step :: steps =>
    let (answer, m') := m.perform step
    answer :: m'.performAll steps

end GenerationalHeap
