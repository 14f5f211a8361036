import GenerationalHeap.Context.Allocate
import GenerationalHeap.Text.Utf8

namespace GenerationalHeap

namespace Heap

/-- Bytes of a string: the start of its buffer, which may be longer. -/
def stringBytes (heap : Heap) : Node → Except RuntimeError (Array UInt8)
  | .string length handle => do
    let buffer ← heap.bytes handle
    if length ≤ buffer.size then .ok (buffer.extract 0 length) else .error (.shortBuffer handle)
  | node => .error (.typeMismatch .string node.kind)

/-- Text of a string, ill-formed bytes replaced. -/
def stringText (heap : Heap) (node : Node) : Except RuntimeError String :=
  (heap.stringBytes node).map fun bytes => Utf8.decodeLossy bytes.toList

end Heap

def boolText (b : Bool) : String := if b then "true" else "false"

def Scalar.text : Scalar → String
  | .integer value => value.repr
  | .double value => value.text
  | .char value => value.toString
  | .bool value => boolText value

/-- Text of a scalar or string. -/
def Heap.render (heap : Heap) : Node → Except RuntimeError String
  | .scalar value => .ok value.text
  | .string length handle => heap.stringText (.string length handle)
  | node => .error (.typeMismatch .scalarOrString node.kind)

namespace Mutator

/-- Copies a text into a new byte allocation. -/
def newString (text : String) : Mutator Node := do
  let data := Utf8.encode text
  let handle ← allocateBytes data.size
  modifyBytes handle fun _ => data
  return .string data.size handle

/-- Turns a scalar into a string; a string stays as it is. -/
def toText (node : Node) : Mutator Node :=
  match node with
  | .string length handle => return .string length handle
  | node => do
    let text ← read (·.heap.render node)
    newString text

end Mutator

end GenerationalHeap
