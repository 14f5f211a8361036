import GenerationalHeap.Operation.Strings

namespace GenerationalHeap

/-- A receiver of bytes with limited or unlimited room. When full it refuses further bytes, or it
stalls: takes none of them without saying why. -/
structure Writer where
  room : Option Nat := none
  stalls : Bool := false

/-- Writes as many bytes as there is room for, and says what was received. -/
def Writer.write (w : Writer) (data : Array UInt8) : Except OutputFailure Unit × Array UInt8 :=
  match w.room with
  | none => (.ok (), data)
  | some room =>
    if data.size ≤ room then (.ok (), data)
    else (.error (if w.stalls then .stalled else .closed), data.extract 0 room)

/-- Writes the text of a value and an ending. Yields the number of bytes written, and what the
writer received. -/
def Heap.printWith (ending : String) (heap : Heap) (node : Node) (w : Writer) :
    Except RuntimeError Node × Array UInt8 :=
  match heap.render node with
  | .error why => (.error why, #[])
  | .ok text =>
    let data := Utf8.encode (text ++ ending)
    match w.write data with
    | (.ok _, received) => (.ok (.ofCount data.size), received)
    | (.error why, received) => (.error (.output why), received)

def Heap.print : Heap → Node → Writer → Except RuntimeError Node × Array UInt8 :=
  Heap.printWith ""

def Heap.printLine : Heap → Node → Writer → Except RuntimeError Node × Array UInt8 :=
  Heap.printWith "\n"

end GenerationalHeap
