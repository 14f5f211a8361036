import GenerationalHeap.Session.Operand

namespace GenerationalHeap

/-- How a step ended. -/
inductive Outcome
  | answered (answer : Answer)
  | failed (why : RuntimeError)
  | refused (why : Refusal)

/-- The account of a context in numbers. -/
structure Status where
  stackLength : Nat
  frameLength : Nat
  rootCount : Nat
  usage : Usage
  liveAllocations : Nat
  allocationsSinceCollect : Nat
  collections : Nat
  allocations : Nat
  escapes : Nat
  inhibited : Bool

def Context.status (ctx : Context) : Status where
  stackLength := ctx.stack.top
  frameLength := ctx.stack.frameLength
  rootCount := ctx.roots.count
  usage := ctx.heap.usage
  liveAllocations := ctx.heap.slots.live
  allocationsSinceCollect := ctx.allocationsSinceCollect
  collections := ctx.totals.collections
  allocations := ctx.totals.allocations
  escapes := ctx.totals.escapes
  inhibited := 0 < ctx.inhibitDepth

/-- What a step brings along besides its outcome: what a writer received, the reports of the code
that a call ran, or the reports of a block. -/
inductive Attachment (ρ : Type)
  | none
  | output (data : Array UInt8)
  | body (reports : List ρ)
  | block (reports : List ρ)

/-- The report on one step: its outcome, the context after it and the log lines it added. -/
structure Report where
  outcome : Outcome
  status : Status
  lines : List TraceLine
  attachment : Attachment Report

end GenerationalHeap
