import GenerationalHeap.Memory.Word
import GenerationalHeap.Memory.Mapping
import GenerationalHeap.Memory.Sizing
import GenerationalHeap.Value.Handle
import GenerationalHeap.Value.Double
import GenerationalHeap.Value.Node
import GenerationalHeap.Text.Utf8
import GenerationalHeap.Text.Unprintable
import GenerationalHeap.Text.Quoted
import GenerationalHeap.Error
import GenerationalHeap.Stack
import GenerationalHeap.Roots
import GenerationalHeap.Counting
import GenerationalHeap.Heap.Block
import GenerationalHeap.Heap.Slots
import GenerationalHeap.Heap.Basic
import GenerationalHeap.Collection.Record
import GenerationalHeap.Collection.Trace
import GenerationalHeap.Collection.PhaseClock
import GenerationalHeap.Collection.Mark
import GenerationalHeap.Collection.Collect
import GenerationalHeap.Context.Config
import GenerationalHeap.Context.Basic
import GenerationalHeap.Context.Allocate
import GenerationalHeap.Operation.Strings
import GenerationalHeap.Operation.Print
import GenerationalHeap.Operation.Lists
import GenerationalHeap.Operation.Closures
import GenerationalHeap.Operation.Dump
import GenerationalHeap.Session.Action
import GenerationalHeap.Session.Operand
import GenerationalHeap.Session.Report
import GenerationalHeap.Session.Run
import GenerationalHeap.Proofs.BlockSize
import GenerationalHeap.Proofs.SlotTable
import GenerationalHeap.Proofs.Marking
import GenerationalHeap.Proofs.Sifting
import GenerationalHeap.Proofs.HeapInvariant
import GenerationalHeap.Proofs.Collection
import GenerationalHeap.Proofs.Contents
import GenerationalHeap.Proofs.Running
import GenerationalHeap.Proofs.TidyStack
import GenerationalHeap.Proofs.Frames
import GenerationalHeap.Proofs.Moves
import GenerationalHeap.Proofs.Chains
import GenerationalHeap.Proofs.Tracing
import GenerationalHeap.Proofs.Scripts
import GenerationalHeap.Proofs.Reachable
import GenerationalHeap.Proofs.Representation
import GenerationalHeap.Proofs.Ledger
import GenerationalHeap.Proofs.Roots
import GenerationalHeap.Proofs.ExactCollection
import GenerationalHeap.Proofs.Backing
import GenerationalHeap.Proofs.Unbroken
import GenerationalHeap.Proofs.Discipline
import GenerationalHeap.Proofs.Retention
import GenerationalHeap.Proofs.Effects
import GenerationalHeap.Proofs.Lifetimes
import GenerationalHeap.Proofs.Bodies
import GenerationalHeap.Proofs.Calls
import GenerationalHeap.Proofs.Snapshots
import GenerationalHeap.Proofs.Renaming
import GenerationalHeap.Proofs.Counterparts
import GenerationalHeap.Proofs.Lockstep
import GenerationalHeap.Proofs.LockstepOperations
import GenerationalHeap.Proofs.LockstepActions
import GenerationalHeap.Proofs.History
import GenerationalHeap.Proofs.Invisible
import GenerationalHeap.Proofs.RunningCaptures
import GenerationalHeap.Proofs.Composition
import GenerationalHeap.Proofs.Inhibition
import GenerationalHeap.Proofs.Sections
import GenerationalHeap.Proofs.RootMap
import GenerationalHeap.Proofs.Links
import GenerationalHeap.Proofs.Whole
import GenerationalHeap.Proofs.Appending
import GenerationalHeap.Proofs.Settled
import GenerationalHeap.Proofs.AllocationPolicy
import GenerationalHeap.Proofs.Spared
import GenerationalHeap.Proofs.Failures
import GenerationalHeap.Proofs.SharedTails
import GenerationalHeap.Proofs.StackDiscipline
import GenerationalHeap.Proofs.FaithfulTrace
import GenerationalHeap.Proofs.DumpTour
import GenerationalHeap.Proofs.DumpExpansion
import GenerationalHeap.Proofs.DumpLayout
import GenerationalHeap.Proofs.AnyOrder
import GenerationalHeap.Proofs.ListReaders
import GenerationalHeap.Proofs.Decoding
import GenerationalHeap.Proofs.StringContents
import GenerationalHeap.Proofs.Printing
import GenerationalHeap.Proofs.Words
import GenerationalHeap.Proofs.ExactSizes
import GenerationalHeap.Proofs.PageBounds
