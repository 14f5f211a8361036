import GenerationalHeap.Error

namespace GenerationalHeap

/-- A number of allocations and the bytes of their blocks. -/
structure Tally where
  objects : Nat := 0
  bytes : Nat := 0
deriving DecidableEq

/-- Counts one more block. -/
def Tally.count (t : Tally) (size : Nat) : Tally := ⟨t.objects + 1, t.bytes + size⟩

instance : Add Tally := ⟨fun a b => ⟨a.objects + b.objects, a.bytes + b.bytes⟩⟩

/-- Why a collection runs. -/
inductive Trigger
  | none
  | explicit
  | checkpoint
  | arenaExhausted
deriving DecidableEq

def Trigger.name : Trigger → String
  | .none => "none"
  | .explicit => "explicit"
  | .checkpoint => "checkpoint"
  | .arenaExhausted => "arena_exhausted"

def Trigger.all : List Trigger := [.none, .explicit, .checkpoint, .arenaExhausted]

/-- Balance sheet of one collection. -/
structure CollectionRecord where
  trigger : Trigger := .none
  number : Nat := 0
  cleared : Nat := 0
  marked : Tally := {}
  promoted : Tally := {}
  youngReclaimed : Tally := {}
  oldReclaimed : Tally := {}
  surviving : Tally := {}
deriving DecidableEq

def CollectionRecord.reclaimed (r : CollectionRecord) : Tally := r.youngReclaimed + r.oldReclaimed

/-- What was reclaimed, if both sums stay in the word range. -/
def CollectionRecord.checkedReclaimed (r : CollectionRecord) : Except Fault Tally :=
  if r.reclaimed.objects < Word.span ∧ r.reclaimed.bytes < Word.span then .ok r.reclaimed
  else .error .sumOverflow

/-- Running totals over all collections and allocations. -/
structure Totals where
  collections : Nat := 0
  allocations : Nat := 0
  promoted : Tally := {}
  reclaimed : Tally := {}
  escapes : Nat := 0
deriving DecidableEq

def Totals.include (t : Totals) (r : CollectionRecord) : Totals :=
  { t with
    collections := t.collections + 1
    promoted := t.promoted + r.promoted
    reclaimed := t.reclaimed + r.reclaimed }

end GenerationalHeap
