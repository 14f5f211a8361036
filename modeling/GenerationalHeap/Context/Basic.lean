import GenerationalHeap.Collection.Collect
import GenerationalHeap.Collection.Trace
import GenerationalHeap.Context.Config
import GenerationalHeap.Stack
import GenerationalHeap.Roots

namespace GenerationalHeap

/-- A running program's memory: heap, value stack, roots and the account of what was done. The
capture blocks of the running closures stand innermost first, the handles issued by all allocations
so far latest first. -/
structure Context where
  config : Config
  heap : Heap
  stack : ValueStack
  captures : List Handle := []
  roots : RootRegistry := {}
  totals : Totals := {}
  lastCollection : Option CollectionRecord := none
  allocationsSinceCollect : Nat := 0
  issued : List Handle := []
  inhibitDepth : Nat := 0
  trace : Trace := {}

/-- An operation on a context. A runtime error is handed back with the context it leaves; a fault
ends the run. -/
abbrev Mutator := ExceptT RuntimeError (StateT Context (Except Fault))

namespace Context

def ofConfig (config : Config) (page : Nat := pageBytes) : Except RuntimeError Context :=
  match Arena.reserve config.arenaBytes page with
  | .ok arena =>
    .ok { config, heap := { arena }, stack := ValueStack.ofCapacity config.stackSlots }
  | .error why => .error (.arenaReservation why)

def collectInfo (ctx : Context) : CollectInfo where
  allocationsSinceCollect := ctx.allocationsSinceCollect
  youngSize := ctx.heap.arena.used
  oldSize := ctx.heap.old.bytes
  liveAllocations := ctx.heap.slots.live

/-- Where marking starts: the stack from the bottom, the registered roots by entry, the capture
blocks of the running closures from the outermost. -/
def rootHandles (ctx : Context) : List Handle :=
  (ctx.stack.live ++ ctx.roots.values).flatMap Node.references ++ ctx.captures.reverse

/-- Runs one collection and books it. -/
def collect (ctx : Context) (trigger : Trigger) : Except Fault (CollectionRecord × Context) := do
  let (heap, record) ← ctx.heap.collect ctx.rootHandles trigger (ctx.totals.collections + 1)
  return (record, { ctx with
    heap
    totals := ctx.totals.include record
    lastCollection := some record
    allocationsSinceCollect := 0
    trace := ctx.trace.logCollection record })

end Context

namespace Mutator

def ofExcept {α : Type} (result : Except RuntimeError α) : Mutator α := ExceptT.mk (pure result)

def fault {α : Type} (why : Fault) : Mutator α := ExceptT.mk fun _ => .error why

/-- Runs an operation and hands its runtime error back as a value. -/
def attempt {α : Type} (act : Mutator α) : Mutator (Except RuntimeError α) := ExceptT.lift act.run

/-- Asks the context without changing it. -/
def read {α : Type} (ask : Context → Except RuntimeError α) : Mutator α := do
  ofExcept (ask (← get))

/-- Changes the value stack. -/
def onStack {α : Type} (f : ValueStack → Except RuntimeError (α × ValueStack)) : Mutator α := do
  let (answer, stack) ← read fun ctx => f ctx.stack
  modify fun ctx => { ctx with stack }
  return answer

def updateStack (f : ValueStack → Except RuntimeError ValueStack) : Mutator Unit :=
  onStack fun stack => (f stack).map fun stack => ((), stack)

def push (node : Node) : Mutator Unit := updateStack (·.push node)

def pop : Mutator Node := onStack (·.pop)

def peek : Mutator Node := read (·.stack.peek)

def readLocal (index : Nat) : Mutator Node := read (·.stack.readLocal index)

def writeLocal (index : Nat) (node : Node) : Mutator Unit := updateStack (·.writeLocal index node)

def reserve (count : Nat) : Mutator Unit := updateStack (·.reserve count)

def drop (count : Nat) : Mutator Unit := updateStack (·.drop count)

def pushFrame : Mutator Frame := onStack fun stack => .ok stack.pushFrame

def popFrame (frame : Frame) : Mutator Unit := do
  match (← get).stack.popFrame frame with
  | .ok stack => modify fun ctx => { ctx with stack }
  | .error why => fault why

/-- Runs an operation in a frame of its own, which ends with it also if it fails. -/
def scratch {α : Type} (act : Mutator α) : Mutator α := do
  let frame ← pushFrame
  let result ← attempt act
  popFrame frame
  ofExcept result

def registerRoot (node : Node) : Mutator RootId := do
  let (id, roots) := (← get).roots.register node
  modify fun ctx => { ctx with roots }
  return id

def unregisterRoot (id : RootId) : Mutator Node := do
  let (node, roots) ← read (·.roots.unregister id)
  modify fun ctx => { ctx with roots }
  return node

def setRoot (id : RootId) (node : Node) : Mutator Unit := do
  let roots ← read (·.roots.set id node)
  modify fun ctx => { ctx with roots }

def getRoot (id : RootId) : Mutator Node := read (·.roots.get id)

def objects (h : Handle) : Mutator (Array Node) := read (·.heap.objects h)

def bytes (h : Handle) : Mutator (Array UInt8) := read (·.heap.bytes h)

def modifyObjects (h : Handle) (f : Array Node → Array Node) : Mutator Unit := do
  let heap ← read (·.heap.modifyObjects h f)
  modify fun ctx => { ctx with heap }

def modifyBytes (h : Handle) (f : Array UInt8 → Array UInt8) : Mutator Unit := do
  let heap ← read (·.heap.modifyBytes h f)
  modify fun ctx => { ctx with heap }

end Mutator

end GenerationalHeap
