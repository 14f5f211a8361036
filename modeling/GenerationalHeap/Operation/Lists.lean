import GenerationalHeap.Context.Allocate

namespace GenerationalHeap

/-- Reads along a chain of cells, which may turn out to have no end. -/
abbrev ChainReader := ExceptT RuntimeError (Except Fault)

namespace Heap

/-- The value in a box. -/
def unbox (heap : Heap) : Node → Except RuntimeError Node
  | .pointer (some target) => do
    let nodes ← heap.objects target
    match nodes[0]? with
    | some node => .ok node
    | none => .error (.typeMismatch .box .pointer)
  | node => .error (.typeMismatch .box node.kind)

/-- The cell at the start of an allocation. -/
def readCell (heap : Heap) (h : Handle) : Except RuntimeError Cell := do
  let nodes ← heap.objects h
  match nodes[0]?.getD .undefined with
  | .cell cell => .ok cell
  | node => .error (.typeMismatch .listCell node.kind)

/-- The first cell of a list with its allocation; the empty list has none. -/
def firstCell (heap : Heap) : Node → Except RuntimeError (Option (Handle × Cell))
  | .pointer none => .ok none
  | .pointer (some target) => (heap.readCell target).map fun cell => some (target, cell)
  | node => .error (.typeMismatch .list node.kind)

/-- The element of a cell. -/
def cellValue (heap : Heap) (cell : Cell) : Except RuntimeError Node :=
  match cell.head with
  | .scalar value => .ok (.scalar value)
  | .boxed box => heap.unbox (.ref box)

def car (heap : Heap) (list : Node) : Except RuntimeError Node := do
  match ← heap.firstCell list with
  | some (_, cell) => heap.cellValue cell
  | none => .error .emptyList

def cdr (heap : Heap) (list : Node) : Except RuntimeError Node := do
  match ← heap.firstCell list with
  | some (_, cell) => .ok (.pointer cell.next)
  | none => .error .emptyList

/-- Visits the cells of a chain in order, each before the link to the next is followed. -/
def walk {α : Type} (heap : Heap) (visit : Handle → Cell → Except RuntimeError α) :
    Nat → Handle → ChainReader (List α)
  | 0, _ => ExceptT.mk (.error .endlessChain)
  | steps + 1, h => do
    let cell ← liftExcept (heap.readCell h)
    let a ← liftExcept (visit h cell)
    match cell.next with
    | none => return [a]
    | some next => return a :: (← walk heap visit steps next)
where
  liftExcept {β : Type} (result : Except RuntimeError β) : ChainReader β :=
    ExceptT.mk (.ok result)

/-- No chain of distinct allocations is longer. -/
def chainBound (heap : Heap) : Nat := heap.slots.slots.size + 1

/-- Visits every cell of a list. -/
def walkList {α : Type} (heap : Heap) (visit : Handle → Cell → Except RuntimeError α) :
    Node → ChainReader (List α)
  | .pointer none => return []
  | .pointer (some target) => heap.walk visit heap.chainBound target
  | node => ExceptT.mk (.ok (.error (.typeMismatch .list node.kind)))

def listElements (heap : Heap) (list : Node) : ChainReader (List Node) :=
  heap.walkList (fun _ cell => heap.cellValue cell) list

def listLength (heap : Heap) (list : Node) : ChainReader Nat := do
  return (← heap.walkList (fun _ _ => .ok ()) list).length

/-- The allocation of the last cell of the chain from `h` on. -/
def lastCell (heap : Heap) (h : Handle) : ChainReader Handle := do
  return (← heap.walk (fun h _ => .ok h) heap.chainBound h).getLastD h

end Heap

namespace Mutator

/-- Asks the heap along a chain. -/
def readChain {α : Type} (ask : Heap → ChainReader α) : Mutator α := do
  match (ask (← get).heap).run with
  | .ok result => ofExcept result
  | .error why => fault why

/-- Writes the first slot of an allocation. -/
def writeFirst (h : Handle) (node : Node) : Mutator Unit :=
  modifyObjects h (·.setIfInBounds 0 node)

/-- Puts a value into a new allocation of one slot; the value is rooted meanwhile. -/
def allocateBox (value : Node) : Mutator Handle := scratch do
  push value
  let target ← allocateObjects 1
  writeFirst target value
  return target

def boxValue (value : Node) : Mutator Node := do
  return .ref (← allocateBox value)

/-- Head of a new cell: a scalar stands in place, anything else goes into a rooted box. -/
def makeHead (value : Node) : Mutator Head :=
  match value with
  | .scalar value => return .scalar value
  | value => do
    let box ← allocateBox value
    push (.ref box)
    return .boxed box

/-- Links a new cell behind the last one of a chain. -/
def linkLast (first link : Handle) : Mutator Unit := do
  let last ← readChain (·.lastCell first)
  modifyObjects last (·.modify 0 (·.withNext (some link)))

/-- Puts a new cell where it belongs: behind the cells of the list, or alone if there are none. -/
def attach (list : Node) (first : Option (Handle × Cell)) (link : Handle) : Mutator Node :=
  match first with
  | none => return .ref link
  | some (first, _) => do
    linkLast first link
    return list

/-- Appends a value to a list in place; the empty list yields a new list. -/
def append (list value : Node) : Mutator Node := do
  let first ← read (·.heap.firstCell list)
  scratch do
    push list
    push value
    let head ← makeHead value
    let link ← allocateObjects 1
    writeFirst link (.cell ⟨head, none⟩)
    attach list first link

end Mutator

end GenerationalHeap
