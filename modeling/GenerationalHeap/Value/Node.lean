import GenerationalHeap.Value.Handle
import GenerationalHeap.Value.Double

namespace GenerationalHeap

/-- Values that carry all they are and refer to nothing. -/
inductive Scalar
  | integer (value : Int)
  | double (value : Double)
  | char (value : Char)
  | bool (value : Bool)
deriving DecidableEq

/-- Whether a closure's code yields a value. -/
inductive Flavour
  | void
  | value
deriving DecidableEq

/-- Element of a list cell: a scalar in place, or a box that holds any other value. -/
inductive Head
  | boxed (box : Handle)
  | scalar (value : Scalar)
deriving DecidableEq

/-- One link of a list. -/
structure Cell where
  head : Head
  next : Option Handle
deriving DecidableEq

/-- A value. A pointer without target is the empty list; a list is a pointer to the allocation of
its first cell. -/
inductive Node
  | undefined
  | pointer (target : Option Handle)
  | scalar (value : Scalar)
  | string (length : Nat) (bytes : Handle)
  | closure (flavour : Flavour) (code : Nat) (captures : Handle)
  | cell (cell : Cell)
deriving DecidableEq, Inhabited

inductive ScalarKind
  | integer
  | double
  | char
  | bool
deriving DecidableEq

/-- The kind of a value, without its contents; a cell without scalar kind has a boxed element. -/
inductive NodeKind
  | undefined
  | pointer
  | scalar (kind : ScalarKind)
  | string
  | closure (flavour : Flavour)
  | cell (head : Option ScalarKind)
deriving DecidableEq

def Scalar.kind : Scalar → ScalarKind
  | .integer _ => .integer
  | .double _ => .double
  | .char _ => .char
  | .bool _ => .bool

def Head.kind : Head → Option ScalarKind
  | .boxed _ => none
  | .scalar value => some value.kind

/-- The box a head refers to. -/
def Head.references : Head → List Handle
  | .boxed box => [box]
  | .scalar _ => []

def ScalarKind.name : ScalarKind → String
  | .integer => "integer"
  | .double => "double"
  | .char => "char"
  | .bool => "bool"

def Flavour.name : Flavour → String
  | .void => "void"
  | .value => "value"

def NodeKind.name : NodeKind → String
  | .undefined => "undefined"
  | .pointer => "pointer"
  | .scalar kind => kind.name
  | .string => "string"
  | .closure flavour => flavour.name ++ " closure"
  | .cell none => "pointer list cell"
  | .cell (some kind) => kind.name ++ " list cell"

namespace Node

def integer (value : Int) : Node := .scalar (.integer value)

def double (value : Double) : Node := .scalar (.double value)

def char (value : Char) : Node := .scalar (.char value)

def bool (value : Bool) : Node := .scalar (.bool value)

/-- A count as an integer, capped at the largest signed word. -/
def ofCount (count : Nat) : Node := .integer (min count 0x7fffffffffffffff : Nat)

def emptyList : Node := .pointer none

/-- The pointer to an allocation. -/
def ref (target : Handle) : Node := .pointer (some target)

def kind : Node → NodeKind
  | undefined => .undefined
  | pointer _ => .pointer
  | scalar value => .scalar value.kind
  | string _ _ => .string
  | closure flavour _ _ => .closure flavour
  | cell c => .cell c.head.kind

def isEmptyList : Node → Bool
  | pointer none => true
  | _ => false

def isCell : Node → Bool
  | cell _ => true
  | _ => false

/-- The cell after this one. -/
def next? : Node → Option Handle
  | cell c => c.next
  | _ => none

/-- Relinks a cell; any other value stays as it is. -/
def withNext (next : Option Handle) : Node → Node
  | cell c => .cell { c with next }
  | node => node

/-- Allocations a value refers to, in order. -/
def references : Node → List Handle
  | undefined => []
  | pointer target => target.toList
  | scalar _ => []
  | string _ bytes => [bytes]
  | closure _ _ captures => [captures]
  | cell c => c.head.references ++ c.next.toList

end Node

/-- Equality of scalars as a program sees it: doubles compare as numbers. -/
def Scalar.same : Scalar → Scalar → Bool
  | .double a, .double b => a.same b
  | a, b => a == b

def Head.same : Head → Head → Bool
  | .scalar a, .scalar b => a.same b
  | a, b => a == b

/-- Equality of values as a program sees it: doubles compare as numbers, references by identity. -/
def Node.same : Node → Node → Bool
  | .scalar a, .scalar b => a.same b
  | .cell a, .cell b => a.head.same b.head && a.next == b.next
  | a, b => a == b

end GenerationalHeap
