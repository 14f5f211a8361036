import GenerationalHeap.Context.Allocate

namespace GenerationalHeap

/-- Number of captures of a well-formed block: its first slot holds the count of the others. -/
def Heap.captureCount (heap : Heap) (block : Handle) : Except RuntimeError Nat := do
  let nodes ← heap.objects block
  let held := nodes.size - 1
  match (nodes[0]? : Option Node) with
  | some (.scalar (.integer n)) =>
    if n = held then .ok held
    else .error (.captureCountMismatch (if n < 0 then Word.largest else n.toNat) held)
  | _ => .error (.captureCountMismatch 0 held)

namespace Context

def activeCaptures (ctx : Context) : Except RuntimeError Handle :=
  match ctx.captures with
  | block :: _ => .ok block
  | [] => .error .noActiveClosure

/-- Number of captures of the innermost running closure. -/
def captureCount (ctx : Context) : Except RuntimeError Nat := do
  ctx.heap.captureCount (← ctx.activeCaptures)

/-- A captured value of the innermost running closure. -/
def capture (ctx : Context) (index : Nat) : Except RuntimeError Node := do
  let block ← ctx.activeCaptures
  let count ← ctx.heap.captureCount block
  if index < count then
    let nodes ← ctx.heap.objects block
    .ok (nodes[index + 1]?.getD .undefined)
  else .error (.captureCountMismatch index count)

end Context

namespace Mutator

/-- Values of the given slots of the current frame; the first slot out of range is the error. -/
def readLocals (slots : List Nat) : Mutator (List Node) :=
  read fun ctx => slots.mapM ctx.stack.readLocal

/-- Copies slots of the current frame into a new capture block, behind their count. -/
def makeCaptures (slots : List Nat) : Mutator Handle := do
  let values ← readLocals slots
  let block ← allocateObjects (values.length + 1)
  modifyObjects block fun _ => (.ofCount values.length :: values).toArray
  return block

def makeClosure (flavour : Flavour) (code : Nat) (slots : List Nat) : Mutator Node := do
  return .closure flavour code (← makeCaptures slots)

/-- What a closure runs, and the frame it runs in. -/
structure Activation where
  flavour : Flavour
  code : Nat
  frame : Frame

/-- Starts a call: checks the closure and its capture block, begins a frame and roots the block. -/
def enter (closure : Node) : Mutator Activation :=
  match closure with
  | .closure flavour code captures => do
    let _ ← read (·.heap.captureCount captures)
    let frame ← pushFrame
    modify fun ctx => { ctx with captures := captures :: ctx.captures }
    return ⟨flavour, code, frame⟩
  | node => ofExcept (.error (.typeMismatch .closure node.kind))

def pushAll : List Node → Mutator Unit
  | [] => return
  | node :: nodes => do
    push node
    pushAll nodes

/-- Ends a call: unroots its capture block and ends its frame. -/
def leave (activation : Activation) : Mutator Unit := do
  modify fun ctx => { ctx with captures := ctx.captures.tail }
  popFrame activation.frame

end Mutator

end GenerationalHeap
