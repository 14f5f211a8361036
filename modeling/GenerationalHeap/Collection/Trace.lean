import GenerationalHeap.Collection.Record

namespace GenerationalHeap

inductive Phase
  | clear
  | mark
  | promote
  | sweep
deriving DecidableEq

def Phase.name : Phase → String
  | .clear => "Clear"
  | .mark => "Mark"
  | .promote => "Promote"
  | .sweep => "Sweep"

/-- One line of the log of a run. -/
inductive TraceLine
  | enterCollection (trigger : Trigger) (id : Nat)
  | leaveCollection
  | enterPhase (phase : Phase)
  | phaseEnd (phase : Phase) (tally : Tally)
  | leavePhase
  | oversizeEscape (requested capacity : Nat)
deriving DecidableEq

def TraceLine.text : TraceLine → String
  | .enterCollection trigger id => "+gc_collect trigger=" ++ trigger.name ++ " gc_id=" ++ id.repr
  | .leaveCollection => "-gc_collect"
  | .enterPhase phase => "+gc_phase phase=" ++ phase.name
  | .phaseEnd phase tally =>
    "phase_end phase=" ++ phase.name ++ " objects=" ++ tally.objects.repr ++ " bytes=" ++
      tally.bytes.repr
  | .leavePhase => "-gc_phase"
  | .oversizeEscape requested capacity =>
    "oversize_escape requested=" ++ requested.repr ++ " arena_capacity=" ++ capacity.repr

def Phase.lines (phase : Phase) (tally : Tally) : List TraceLine :=
  [.enterPhase phase, .phaseEnd phase tally, .leavePhase]

/-- What one collection writes into the log. -/
def CollectionRecord.lines (r : CollectionRecord) (id : Nat) : List TraceLine :=
  .enterCollection r.trigger id ::
    (Phase.clear.lines ⟨r.cleared, 0⟩ ++ Phase.mark.lines r.marked ++
      Phase.promote.lines r.promoted ++ Phase.sweep.lines r.oldReclaimed) ++
    [.leaveCollection]

/-- Log of a run so far, and the number of its next collection. -/
structure Trace where
  lines : Array TraceLine := #[]
  nextId : Nat := 1

def Trace.logEscape (t : Trace) (requested capacity : Nat) : Trace :=
  { t with lines := t.lines.push (.oversizeEscape requested capacity) }

def Trace.logCollection (t : Trace) (r : CollectionRecord) : Trace :=
  { lines := t.lines ++ (r.lines t.nextId).toArray, nextId := t.nextId + 1 }

end GenerationalHeap
