import GenerationalHeap.Collection.Trace

namespace GenerationalHeap

/-- Whether time was measured for each phase. Ending a phase takes the running start, so a phase
that ends without one measures nothing. -/
structure PhaseClock where
  measured : Phase → Bool := fun _ => false
  running : Bool := false

inductive ClockStep
  | start
  | finish (phase : Phase)

def PhaseClock.step (c : PhaseClock) : ClockStep → PhaseClock
  | .start => { c with running := true }
  | .finish phase =>
    { measured := fun p => if p = phase then c.running else c.measured p, running := false }

/-- The measured phases after each step. -/
def PhaseClock.readings : PhaseClock → List ClockStep → List (Phase → Bool)
  | _, [] => []
  | c, step :: steps => (c.step step).measured :: (c.step step).readings steps

end GenerationalHeap
