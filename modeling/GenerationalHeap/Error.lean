import GenerationalHeap.Value.Node
import GenerationalHeap.Memory.Sizing
import GenerationalHeap.Memory.Mapping

namespace GenerationalHeap

/-- What an operation needs a value to be. -/
inductive Expectation
  | closure
  | string
  | scalarOrString
  | box
  | list
  | listCell
deriving DecidableEq

def Expectation.name : Expectation → String
  | .closure => "a closure"
  | .string => "a string"
  | .scalarOrString => "a scalar or string"
  | .box => "a box"
  | .list => "a list"
  | .listCell => "a list cell"

/-- Why a writer did not take a whole text: it refused more bytes, or it took none of them. -/
inductive OutputFailure
  | closed
  | stalled
deriving DecidableEq

def OutputFailure.message : OutputFailure → String
  | .closed => "closed"
  | .stalled => "failed to write whole buffer"

/-- Mistakes of the running program. They are handed back and leave the heap sound. -/
inductive RuntimeError
  | stackOverflow (capacity : Nat)
  | stackUnderflow
  | slotOutOfRange (index length : Nat)
  | allocationTooLarge (requested limit : Nat)
  | danglingHandle (handle : Handle)
  | wrongPayload (handle : Handle) (expected found : PayloadKind)
  | shortBuffer (handle : Handle)
  | typeMismatch (expected : Expectation) (found : NodeKind)
  | emptyList
  | captureCountMismatch (index count : Nat)
  | noActiveClosure
  | unknownRoot (index : Nat)
  | arenaReservation (why : MappingError)
  | output (why : OutputFailure)
deriving DecidableEq

def RuntimeError.message : RuntimeError → String
  | .stackOverflow capacity => "value stack overflow (capacity " ++ capacity.repr ++ " slots)"
  | .stackUnderflow => "value stack underflow"
  | .slotOutOfRange index length =>
    "stack slot " ++ index.repr ++ " out of range (frame holds " ++ length.repr ++ " slots)"
  | .allocationTooLarge requested limit =>
    "allocation of " ++ requested.repr ++ " bytes exceeds the limit of " ++ limit.repr ++ " bytes"
  | .danglingHandle handle =>
    "handle " ++ handle.label ++ " does not refer to a live allocation"
  | .wrongPayload handle expected found =>
    "handle " ++ handle.label ++ " holds " ++ found.name ++ " but " ++ expected.name ++
      " were requested"
  | .shortBuffer handle =>
    "handle " ++ handle.label ++ " holds a shorter buffer but string bytes were requested"
  | .typeMismatch expected found => "expected " ++ expected.name ++ ", found " ++ found.name
  | .emptyList => "operation on an empty list"
  | .captureCountMismatch index count =>
    "capture " ++ index.repr ++ " requested but the closure holds " ++ count.repr ++ " captures"
  | .noActiveClosure => "no closure is currently running"
  | .unknownRoot index => "unknown root id " ++ index.repr
  | .arenaReservation why => "failed to reserve the young arena: " ++ why.message
  | .output why => "output error: " ++ why.message

/-- Broken promises that end a run. -/
inductive Fault
  | danglingReference (handle : Handle)
  | framesOutOfOrder
  | doubleRelease (index : Nat)
  | zeroRange (why : RangeFault)
  | sumOverflow
  | endlessChain
  | callDepth
deriving DecidableEq

def Fault.message : Fault → String
  | .danglingReference handle =>
    "mark phase: reachable handle " ++ handle.label ++ " refers to a reclaimed allocation"
  | .framesOutOfOrder => "frames popped out of order"
  | .doubleRelease index => "double release of slot " ++ index.repr
  | .zeroRange why => why.message
  | .sumOverflow => "attempt to add with overflow"
  | .endlessChain => "list without end"
  | .callDepth => "calls nested too deeply"

end GenerationalHeap
