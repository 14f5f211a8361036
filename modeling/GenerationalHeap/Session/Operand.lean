import GenerationalHeap.Session.Action
import GenerationalHeap.Operation.Print

namespace GenerationalHeap

/-- What a name stands for. -/
inductive Binding
  | node (node : Node)
  | handle (handle : Handle)
  | frame (frame : Frame)
  | root (id : RootId)

/-- Why a step was not carried out: a name stands for nothing, or for something of another kind; an
index is out of range; an operand cannot be read. -/
inductive Refusal
  | unbound
  | misused
  | outOfRange
  | malformed
deriving DecidableEq

/-- Names in use, and the round of the innermost running loop. -/
structure Env where
  bindings : List (String × Binding) := []
  round : Nat := 0

namespace Env

def find? (env : Env) (name : String) : Option Binding := env.bindings.lookup name

def bind (env : Env) (name : String) (binding : Binding) : Env :=
  { env with bindings := (name, binding) :: env.bindings.filter (·.1 != name) }

end Env

/-- A count: written out, or computed from the round of the innermost running loop. -/
inductive CountExpr
  | literal (count : Nat)
  | affine (factor offset : Nat)

/-- A count is a word: one that would be larger is refused. -/
def CountExpr.eval (env : Env) : CountExpr → Except Refusal Nat
  | .literal count => .ok count
  | .affine factor offset =>
    let count := factor * env.round + offset
    if count < Word.span then .ok count else .error .malformed

/-- The allocation a name stands for: its handle, or the first reference of its value. -/
def Binding.toHandle : Binding → Except Refusal Handle
  | .handle h => .ok h
  | .node n =>
    match n.references with
    | h :: _ => .ok h
    | [] => .error .unbound
  | _ => .error .misused

/-- The value a name stands for; a handle stands for the pointer to its allocation. -/
def Binding.toNode : Binding → Except Refusal Node
  | .node n => .ok n
  | .handle h => .ok (.ref h)
  | _ => .error .misused

def Binding.toFrame : Binding → Except Refusal Frame
  | .frame f => .ok f
  | _ => .error .misused

def Binding.toRoot : Binding → Except Refusal RootId
  | .root id => .ok id
  | _ => .error .misused

/-- What a name stands for, in one of its readings. -/
def Env.get {α : Type} (env : Env) (reading : Binding → Except Refusal α) (name : String) :
    Except Refusal α :=
  match env.find? name with
  | some binding => reading binding
  | none => .error .unbound

def Env.getHandle (env : Env) : String → Except Refusal Handle := env.get Binding.toHandle

def Env.getOptional (env : Env) : Option String → Except Refusal (Option Handle)
  | some name => some <$> env.getHandle name
  | none => .ok none

inductive HeadExpr
  | boxed (box : String)
  | scalar (value : Scalar)

/-- A value: by name, the round of the innermost running loop, or written out with named handles. -/
inductive NodeExpr
  | named (name : String)
  | round
  | undefined
  | pointer (target : Option String)
  | scalar (value : Scalar)
  | string (length : CountExpr) (bytes : String)
  | closure (flavour : Flavour) (code : Nat) (captures : String)
  | cell (head : HeadExpr) (next : Option String)

def HeadExpr.eval (env : Env) : HeadExpr → Except Refusal Head
  | .boxed box => .boxed <$> env.getHandle box
  | .scalar value => .ok (.scalar value)

def NodeExpr.eval (env : Env) : NodeExpr → Except Refusal Node
  | .named name => env.get Binding.toNode name
  | .round => .ok (.integer env.round)
  | .undefined => .ok .undefined
  | .pointer target => .pointer <$> env.getOptional target
  | .scalar value => .ok (.scalar value)
  | .string length bytes => return .string (← length.eval env) (← env.getHandle bytes)
  | .closure flavour code captures => .closure flavour code <$> env.getHandle captures
  | .cell head next => do
    let head ← head.eval env
    let next ← env.getOptional next
    return .cell ⟨head, next⟩

/-- Operands as they stand in a script. -/
def Operands.written : Operands := ⟨NodeExpr, String, CountExpr, String, String⟩

/-- Looks all operands of an action up, in the order in which they stand. -/
def Action.resolve (env : Env) : Action Operands.written → Except Refusal (Action Operands.resolved)
  | .push node => return .push (← NodeExpr.eval env node)
  | .pop => return .pop
  | .peek => return .peek
  | .readLocal index => return .readLocal (← CountExpr.eval env index)
  | .writeLocal index node =>
    return .writeLocal (← CountExpr.eval env index) (← NodeExpr.eval env node)
  | .reserve count => return .reserve (← CountExpr.eval env count)
  | .drop count => return .drop (← CountExpr.eval env count)
  | .pushFrame => return .pushFrame
  | .popFrame frame => return .popFrame (← env.get Binding.toFrame frame)
  | .allocateBytes count => return .allocateBytes (← CountExpr.eval env count)
  | .allocateObjects count => return .allocateObjects (← CountExpr.eval env count)
  | .objects h => return .objects (← env.getHandle h)
  | .getObject h index => return .getObject (← env.getHandle h) (← CountExpr.eval env index)
  | .setObject h index node =>
    return .setObject (← env.getHandle h) (← CountExpr.eval env index) (← NodeExpr.eval env node)
  | .bytes h start length =>
    return .bytes (← env.getHandle h) (← start.mapM (CountExpr.eval env))
      (← length.mapM (CountExpr.eval env))
  | .setBytes h start data => return .setBytes (← env.getHandle h) (← CountExpr.eval env start) data
  | .collect => return .collect
  | .checkpoint => return .checkpoint
  | .lastCollection => return .lastCollection
  | .collectInfo => return .collectInfo
  | .totals => return .totals
  | .config => return .config
  | .arena => return .arena
  | .allocation h => return .allocation (← env.getHandle h)
  | .registerRoot node => return .registerRoot (← NodeExpr.eval env node)
  | .unregisterRoot root => return .unregisterRoot (← env.get Binding.toRoot root)
  | .setRoot root node =>
    return .setRoot (← env.get Binding.toRoot root) (← NodeExpr.eval env node)
  | .getRoot root => return .getRoot (← env.get Binding.toRoot root)
  | .makeCaptures slots => return .makeCaptures (← slots.mapM (CountExpr.eval env))
  | .makeClosure flavour code slots =>
    return .makeClosure flavour code (← slots.mapM (CountExpr.eval env))
  | .capture index => return .capture (← CountExpr.eval env index)
  | .captureCount => return .captureCount
  | .value node => return .value (← NodeExpr.eval env node)
  | .inspect node => return .inspect (← NodeExpr.eval env node)
  | .same a b => return .same (← NodeExpr.eval env a) (← NodeExpr.eval env b)
  | .isA node kind => return .isA (← NodeExpr.eval env node) kind
  | .newString text times => return .newString text (← CountExpr.eval env times)
  | .stringBytes node => return .stringBytes (← NodeExpr.eval env node)
  | .stringText node => return .stringText (← NodeExpr.eval env node)
  | .toText node => return .toText (← NodeExpr.eval env node)
  | .describe node => return .describe (← NodeExpr.eval env node)
  | .boxValue node => return .boxValue (← NodeExpr.eval env node)
  | .unbox node => return .unbox (← NodeExpr.eval env node)
  | .emptyList => return .emptyList
  | .append list item => return .append (← NodeExpr.eval env list) (← NodeExpr.eval env item)
  | .car list => return .car (← NodeExpr.eval env list)
  | .cdr list => return .cdr (← NodeExpr.eval env list)
  | .listElements list => return .listElements (← NodeExpr.eval env list)
  | .listLength list => return .listLength (← NodeExpr.eval env list)

/-- A name in a step and what it is asked for. -/
inductive Mention
  | node (name : String)
  | handle (name : String)
  | frame (name : String)
  | root (name : String)

def Mention.check (env : Env) : Mention → Except Refusal Unit
  | .node name => (env.get Binding.toNode name).map fun _ => ()
  | .handle name => (env.getHandle name).map fun _ => ()
  | .frame name => (env.get Binding.toFrame name).map fun _ => ()
  | .root name => (env.get Binding.toRoot name).map fun _ => ()

/-- Why a step that breaks off after these names is refused: they are looked up before what follows
them is read. -/
def Mention.refusal (env : Env) : List Mention → Refusal
  | [] => .malformed
  | mention :: mentions =>
    match mention.check env with
    | .ok _ => refusal env mentions
    | .error why => why

end GenerationalHeap
