import GenerationalHeap.Operation.Closures
import GenerationalHeap.Operation.Dump

namespace GenerationalHeap

/-- How the operands of an action are given. -/
structure Operands where
  node : Type
  handle : Type
  count : Type
  frame : Type
  root : Type

/-- Operands as values. -/
def Operands.resolved : Operands := ⟨Node, Handle, Nat, Frame, RootId⟩

/-- One operation of a program on its memory. -/
inductive Action (o : Operands)
  | push (node : o.node)
  | pop
  | peek
  | readLocal (index : o.count)
  | writeLocal (index : o.count) (node : o.node)
  | reserve (count : o.count)
  | drop (count : o.count)
  | pushFrame
  | popFrame (frame : o.frame)
  | allocateBytes (count : o.count)
  | allocateObjects (count : o.count)
  | objects (handle : o.handle)
  | getObject (handle : o.handle) (index : o.count)
  | setObject (handle : o.handle) (index : o.count) (node : o.node)
  | bytes (handle : o.handle) (start length : Option o.count)
  | setBytes (handle : o.handle) (start : o.count) (data : Array UInt8)
  | collect
  | checkpoint
  | lastCollection
  | collectInfo
  | totals
  | config
  | arena
  | allocation (handle : o.handle)
  | registerRoot (node : o.node)
  | unregisterRoot (root : o.root)
  | setRoot (root : o.root) (node : o.node)
  | getRoot (root : o.root)
  | makeCaptures (slots : List o.count)
  | makeClosure (flavour : Flavour) (code : Nat) (slots : List o.count)
  | capture (index : o.count)
  | captureCount
  | value (node : o.node)
  | inspect (node : o.node)
  | same (a b : o.node)
  | isA (node : o.node) (kind : NodeKind)
  | newString (text : String) (times : o.count)
  | stringBytes (node : o.node)
  | stringText (node : o.node)
  | toText (node : o.node)
  | describe (node : o.node)
  | boxValue (node : o.node)
  | unbox (node : o.node)
  | emptyList
  | append (list value : o.node)
  | car (list : o.node)
  | cdr (list : o.node)
  | listElements (list : o.node)
  | listLength (list : o.node)

/-- Memory in use at the moment. -/
structure Usage where
  youngBytes : Nat
  oldBlocks : Nat
  oldBytes : Nat

def Heap.usage (heap : Heap) : Usage :=
  ⟨heap.arena.used, heap.old.blocks.size, heap.old.bytes⟩

/-- What an action yields. -/
inductive Answer
  | nothing
  | outOfRange
  | node (node : Node)
  | nodes (nodes : List Node)
  | handle (handle : Handle)
  | frame (frame : Frame)
  | root (id : RootId)
  | truth (value : Bool)
  | count (count : Nat)
  | text (text : String)
  | bytes (data : Array UInt8)
  | slice (total : Nat) (data : Array UInt8)
  | collection (record : CollectionRecord)
  | collectInfo (info : CollectInfo)
  | totals (totals : Totals) (usage : Usage)
  | config (config : Config)
  | arena (capacity mapped : Nat)
  | allocation (handle : Handle) (block : Option Block)
  | inspection (node : Node)

def Answer.ofCollection? : Option CollectionRecord → Answer
  | some record => .collection record
  | none => .nothing

/-- Part of a byte string from `start` on, up to the end if no length is given. -/
def slice? (data : Array UInt8) (start : Nat) (length : Option Nat) : Option (Array UInt8) :=
  let stop := start + length.getD (data.size - start)
  if start ≤ data.size ∧ stop ≤ data.size then some (data.extract start stop) else none

/-- Overwrites bytes in place from `start` on. -/
def overwrite (data : Array UInt8) (start : Nat) (patch : Array UInt8) : Array UInt8 :=
  data.extract 0 start ++ patch ++ data.extract (start + patch.size)

namespace Mutator

def getObject (h : Handle) (index : Nat) : Mutator Answer := do
  match (← objects h)[index]? with
  | some node => return .node node
  | none => return .outOfRange

def setObject (h : Handle) (index : Nat) (node : Node) : Mutator Answer := do
  if index < (← objects h).size then
    modifyObjects h (·.setIfInBounds index node)
    return .nothing
  else return .outOfRange

def getBytes (h : Handle) (start length : Option Nat) : Mutator Answer := do
  let data ← bytes h
  match slice? data (start.getD 0) length with
  | some part => return .slice data.size part
  | none => return .outOfRange

def setBytes (h : Handle) (start : Nat) (patch : Array UInt8) : Mutator Answer := do
  if start + patch.size ≤ (← bytes h).size then
    modifyBytes h (overwrite · start patch)
    return .nothing
  else return .outOfRange

/-- Runs an action that yields nothing. -/
def silently (act : Mutator Unit) : Mutator Answer := do
  act
  return .nothing

/-- Asks the context something that always has an answer. -/
def ask (f : Context → Answer) : Mutator Answer := return f (← get)

end Mutator

open Mutator in
/-- Runs an action on the context. -/
def Action.run : Action Operands.resolved → Mutator Answer
  | .push node => silently (Mutator.push node)
  | .pop => .node <$> Mutator.pop
  | .peek => .node <$> Mutator.peek
  | .readLocal index => .node <$> Mutator.readLocal index
  | .writeLocal index node => silently (Mutator.writeLocal index node)
  | .reserve count => silently (Mutator.reserve count)
  | .drop count => silently (Mutator.drop count)
  | .pushFrame => .frame <$> Mutator.pushFrame
  | .popFrame frame => silently (Mutator.popFrame frame)
  | .allocateBytes count => .handle <$> Mutator.allocateBytes count
  | .allocateObjects count => .handle <$> Mutator.allocateObjects count
  | .objects h => (.nodes ·.toList) <$> Mutator.objects h
  | .getObject h index => Mutator.getObject h index
  | .setObject h index node => Mutator.setObject h index node
  | .bytes h start length => getBytes h start length
  | .setBytes h start data => Mutator.setBytes h start data
  | .collect => .collection <$> Mutator.collect
  | .checkpoint => Answer.ofCollection? <$> Mutator.checkpoint
  | .lastCollection => ask fun ctx => Answer.ofCollection? ctx.lastCollection
  | .collectInfo => ask fun ctx => .collectInfo ctx.collectInfo
  | .totals => ask fun ctx => .totals ctx.totals ctx.heap.usage
  | .config => ask fun ctx => .config ctx.config
  | .arena => ask fun ctx => .arena ctx.heap.arena.capacity ctx.heap.arena.mapped
  | .allocation h => ask fun ctx => .allocation h (ctx.heap.block? h)
  | .registerRoot node => .root <$> Mutator.registerRoot node
  | .unregisterRoot id => .node <$> Mutator.unregisterRoot id
  | .setRoot id node => silently (Mutator.setRoot id node)
  | .getRoot id => .node <$> Mutator.getRoot id
  | .makeCaptures slots => .handle <$> Mutator.makeCaptures slots
  | .makeClosure flavour code slots => .node <$> Mutator.makeClosure flavour code slots
  | .capture index => .node <$> read (·.capture index)
  | .captureCount => .count <$> read (·.captureCount)
  | .value node => return .node node
  | .inspect node => return .inspection node
  | .same a b => return .truth (Node.same a b)
  | .isA node kind => return .node (.bool (Node.kind node == kind))
  | .newString text times => .node <$> Mutator.newString (String.join (List.replicate times text))
  | .stringBytes node => .bytes <$> read (·.heap.stringBytes node)
  | .stringText node => .text <$> read (·.heap.stringText node)
  | .toText node => .node <$> Mutator.toText node
  | .describe node => .text <$> read (·.heap.describe node)
  | .boxValue node => .node <$> Mutator.boxValue node
  | .unbox node => .node <$> read (·.heap.unbox node)
  | .emptyList => return .node .emptyList
  | .append list item => .node <$> Mutator.append list item
  | .car list => .node <$> read (·.heap.car list)
  | .cdr list => .node <$> read (·.heap.cdr list)
  | .listElements list => .nodes <$> readChain (·.listElements list)
  | .listLength list => .count <$> readChain (·.listLength list)

end GenerationalHeap
