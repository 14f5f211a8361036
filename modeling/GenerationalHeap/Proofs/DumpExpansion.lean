import GenerationalHeap.Proofs.DumpTour
import GenerationalHeap.Proofs.Reachable

namespace GenerationalHeap

namespace Dump

/-- The cell that a value is, if a link led to it. -/
def linked (node : Node) (origin : Origin) : Option Handle :=
  match origin, node with
  | .link _ h, .cell _ => some h
  | _, _ => none

/-- The allocation that a line is about: that of a pointer or closure, or of a cell that a link led to. -/
def Row.target (row : Row) : Option Handle :=
  ((reference row.node).map Prod.fst).or (linked row.node row.origin)

def targets (rows : List Row) : List Handle := rows.filterMap Row.target

/-- The line shows what the allocation holds. -/
inductive Row.Expands (heap : Heap) (row : Row) (h : Handle) : Prop
  | slots {skip : Nat} {nodes : Array Node} :
      reference row.node = some (h, skip) → heap.objects h = .ok nodes →
      row.text = slotsText row.node h (nodes.size - skip) → Expands heap row h
  | cell {line : Nat} {cell : Cell} : row.node = .cell cell → row.origin = .link line h →
      heap.readCell h = .ok cell → row.text = headText cell.head → Expands heap row h

/-- The line refers to the allocation, but does not show it. -/
structure Row.Refers (row : Row) (h : Handle) : Prop where
  reference : ∃ skip, reference row.node = some (h, skip)
  text : row.text = againText h

theorem reference_cell (cell : Cell) : reference (.cell cell) = none := rfl

theorem linked_of_reference {node : Node} {p : Handle × Nat} (hr : reference node = some p)
    (origin : Origin) : linked node origin = none := by
  cases origin <;> cases node <;> simp_all [reference, linked]

theorem Row.target_of_reference {row : Row} {h : Handle} {skip : Nat}
    (hr : Dump.reference row.node = some (h, skip)) : row.target = some h := by
  simp [target, hr]

theorem Row.target_of_cell {row : Row} {cell : Cell} (hn : row.node = .cell cell) :
    row.target = linked row.node row.origin := by
  simp [target, hn, reference_cell]

/-- A line shows its allocation if no line before is about it, else it refers back. -/
def Row.Accounted (heap : Heap) (before : List Row) (row : Row) : Prop :=
  ∀ h, row.target = some h →
    (h ∉ targets before → row.Expands heap h) ∧ (h ∈ targets before → row.Refers h)

theorem targets_append (rows : List Row) (row : Row) (h : Handle) :
    h ∈ targets (rows ++ [row]) ↔ h ∈ targets rows ∨ row.target = some h := by
  simp [targets]

/-- The cell that is about to be shown because a link led to it. -/
def upcoming (pending : List Task) : Option Handle :=
  pending.head?.bind fun task => linked task.node task.origin

theorem upcoming_of_none {pending : List Task}
    (h : ∀ task ∈ pending, linked task.node task.origin = none) : upcoming pending = none := by
  cases pending with
  | nil => rfl
  | cons task rest => exact h task List.mem_cons_self

theorem linked_of_slotTasks {line depth skip : Nat} {nodes : Array Node} {task : Task}
    (ht : task ∈ slotTasks line depth skip nodes) : linked task.node task.origin = none := by
  obtain ⟨k, hk, rfl⟩ := List.mem_mapIdx.mp ht
  rfl

theorem linked_of_boxTasks {line depth : Nat} {head : Head} {task : Task}
    (ht : task ∈ boxTasks line depth head) : linked task.node task.origin = none := by
  cases head with
  | scalar => simp [boxTasks] at ht
  | boxed box =>
    obtain rfl := List.mem_singleton.mp ht
    rfl

/-- The lines so far show each allocation once. Seen are those that they are about and that of the cell to
come, which none of them is about. -/
structure Tour.Accounts (heap : Heap) (t : Tour) : Prop where
  rows : Built (fun before row => row.Accounted heap before) t.rows
  seen_iff : ∀ h, h ∈ t.seen ↔ h ∈ targets t.rows ∨ upcoming t.pending = some h
  fresh : ∀ h, upcoming t.pending = some h → h ∉ targets t.rows
  cells : ∀ task ∈ t.pending, ∀ cell line h, task.node = .cell cell → task.origin = .link line h →
    heap.readCell h = .ok cell
  waiting : ∀ task ∈ t.pending.tail, linked task.node task.origin = none

namespace Tour

variable {heap : Heap}

section Step

variable {rows : List Row} {seen : List Handle} {task : Task} {rest : List Task}

theorem Accounts.mem_seen_iff (ha : Accounts heap ⟨rows, seen, task :: rest⟩) {p : Handle × Nat}
    (hr : reference task.node = some p) (h : Handle) : h ∈ seen ↔ h ∈ targets rows := by
  have hnone : upcoming (task :: rest) = none := linked_of_reference hr task.origin
  simpa [hnone] using ha.seen_iff h

/-- A line that does not lead to a cell by a link. -/
theorem Accounts.append {seen' : List Handle} {children : List Task} {text : String}
    (ha : Accounts heap ⟨rows, seen, task :: rest⟩) (hrow : (task.row text).Accounted heap rows)
    (hseen : ∀ h, h ∈ seen' ↔ h ∈ targets rows ∨ (task.row text).target = some h)
    (hchildren : ∀ child ∈ children, linked child.node child.origin = none) :
    Accounts heap ⟨rows ++ [task.row text], seen', children ++ rest⟩ := by
  have hall : ∀ task ∈ children ++ rest, linked task.node task.origin = none := by
    intro child hc
    rcases List.mem_append.mp hc with hc | hc
    · exact hchildren child hc
    · exact ha.waiting child hc
  have hnone := upcoming_of_none hall
  constructor
  · exact ha.rows.append hrow
  · intro h
    rw [hseen, targets_append, hnone]
    simp
  · intro h hup
    simp [hnone] at hup
  · intro child hc cell line h hn horigin
    have hlinked := hall child hc
    simp [linked, hn, horigin] at hlinked
  · intro child hc
    exact hall child (List.mem_of_mem_tail hc)

theorem Accounts.leaf (ha : Accounts heap ⟨rows, seen, task :: rest⟩) {text : String}
    (hl : Leaf heap task.node text) : Accounts heap ⟨rows ++ [task.row text], seen, rest⟩ := by
  have hnone : reference task.node = none ∧ linked task.node task.origin = none := by
    generalize task.node = node at hl
    cases hl <;> cases task.origin <;> exact ⟨rfl, rfl⟩
  have htarget : (task.row text).target = none := by
    simp [Row.target, Task.row, hnone]
  show Accounts heap ⟨rows ++ [task.row text], seen, [] ++ rest⟩
  refine ha.append ?_ ?_ (by simp)
  · intro h ht
    simp [htarget] at ht
  · intro h
    rw [ha.seen_iff, htarget]
    simp [upcoming, hnone]

theorem Accounts.again (ha : Accounts heap ⟨rows, seen, task :: rest⟩) {h : Handle} {skip : Nat}
    (hr : reference task.node = some (h, skip)) (hs : h ∈ seen) :
    Accounts heap ⟨rows ++ [task.row (againText h)], seen, rest⟩ := by
  have htarget : (task.row (againText h)).target = some h := Row.target_of_reference hr
  have hmem := ha.mem_seen_iff hr
  show Accounts heap ⟨rows ++ [task.row (againText h)], seen, [] ++ rest⟩
  refine ha.append ?_ ?_ (by simp)
  · intro g hg
    obtain rfl : h = g := Option.some.inj (htarget.symm.trans hg)
    exact ⟨fun hnew => absurd ((hmem h).mp hs) hnew, fun _ => ⟨⟨skip, hr⟩, rfl⟩⟩
  · intro g
    rw [hmem, htarget, Option.some.injEq]
    constructor
    · exact .inl
    · rintro (hg | rfl)
      · exact hg
      · exact (hmem h).mp hs

theorem Accounts.expand (ha : Accounts heap ⟨rows, seen, task :: rest⟩) {h : Handle} {skip : Nat}
    {nodes : Array Node} (hr : reference task.node = some (h, skip)) (hs : h ∉ seen)
    (ho : heap.objects h = .ok nodes) :
    Accounts heap ⟨rows ++ [task.row (slotsText task.node h (nodes.size - skip))], h :: seen,
      slotTasks rows.length task.depth skip nodes ++ rest⟩ := by
  have hmem := ha.mem_seen_iff hr
  have htarget : (task.row (slotsText task.node h (nodes.size - skip))).target = some h :=
    Row.target_of_reference hr
  refine ha.append ?_ ?_ fun child hc => linked_of_slotTasks hc
  · intro g hg
    obtain rfl : h = g := Option.some.inj (htarget.symm.trans hg)
    exact ⟨fun _ => .slots hr ho rfl, fun hold => absurd ((hmem h).mpr hold) hs⟩
  · intro g
    rw [List.mem_cons, hmem, htarget, Option.some.injEq, or_comm, eq_comm]

/-- A cell that a link led to is shown where it was announced. -/
theorem Accounts.accounted_cell (ha : Accounts heap ⟨rows, seen, task :: rest⟩) {cell : Cell}
    (hn : task.node = .cell cell) : (task.row (headText cell.head)).Accounted heap rows := by
  intro h ht
  rw [Row.target_of_cell hn] at ht
  have hfresh : h ∉ targets rows := ha.fresh h ht
  refine ⟨fun _ => ?_, fun hold => absurd hold hfresh⟩
  cases horigin : task.origin with
  | link line g =>
    obtain rfl : g = h := by simpa [linked, Task.row, hn, horigin] using ht
    exact .cell hn horigin (ha.cells task List.mem_cons_self cell line g hn horigin) rfl
  | root | slot | box => simp [linked, Task.row, horigin] at ht

theorem Accounts.cell (ha : Accounts heap ⟨rows, seen, task :: rest⟩) {cell : Cell}
    (hn : task.node = .cell cell) {link : List Task} {seen' : List Handle}
    (hf : Follows heap rows.length task.depth seen cell.next link seen') :
    Accounts heap ⟨rows ++ [task.row (headText cell.head)], seen',
      link ++ boxTasks rows.length task.depth cell.head ++ rest⟩ := by
  have hrow := ha.accounted_cell hn
  have hseen : ∀ h, h ∈ seen ↔
      h ∈ targets rows ∨ (task.row (headText cell.head)).target = some h := by
    intro h
    rw [Row.target_of_cell hn]
    exact ha.seen_iff h
  have hbox : ∀ child ∈ boxTasks rows.length task.depth cell.head,
      linked child.node child.origin = none := fun child hc => linked_of_boxTasks hc
  generalize cell.next = next at hf
  cases hf with
  | last => exact ha.append hrow hseen hbox
  | @again h hs =>
    refine ha.append hrow hseen ?_
    intro child hc
    rcases List.mem_cons.mp hc with rfl | hc
    · rfl
    · exact hbox child hc
  | @next h c hs hc =>
    have hnew : h ∉ targets (rows ++ [task.row (headText cell.head)]) := by
      rw [targets_append, ← hseen]
      exact hs
    have hothers : ∀ child ∈ boxTasks rows.length task.depth cell.head ++ rest,
        linked child.node child.origin = none := by
      intro child hmem
      rcases List.mem_append.mp hmem with hmem | hmem
      · exact hbox child hmem
      · exact ha.waiting child hmem
    have hup : upcoming ([⟨⟨.cell c, task.depth⟩, .link rows.length h⟩] ++
        boxTasks rows.length task.depth cell.head ++ rest) = some h := rfl
    constructor
    · exact ha.rows.append hrow
    · intro g
      rw [List.mem_cons, hseen, targets_append, hup, Option.some.injEq, or_comm, @eq_comm _ g h]
    · intro g hg
      rw [hup, Option.some.injEq] at hg
      exact hg ▸ hnew
    · intro child hmem cell' line g hn' horigin
      rcases List.mem_cons.mp hmem with rfl | hmem
      · obtain ⟨rfl, rfl⟩ : c = cell' ∧ h = g := by simp_all
        exact hc
      · have hnone := hothers child hmem
        simp [linked, hn', horigin] at hnone
    · exact hothers

end Step

end Tour

/-- What a value refers to is there and of the kind that is expected. A box is met as a pointer. -/
def Resolves (heap : Heap) : Node → Prop
  | .pointer (some h) | .closure _ _ h => ∃ nodes, heap.objects h = .ok nodes
  | .string length h => ∃ data, heap.bytes h = .ok data ∧ length ≤ data.size
  | .cell cell => ∀ next, cell.next = some next →
    ∃ nodes cell', heap.objects next = .ok nodes ∧ nodes[0]? = some (.cell cell')
  | _ => True

theorem Resolves.of_reference {heap : Heap} {node : Node} (hr : Resolves heap node) {h : Handle}
    {skip : Nat} (href : reference node = some (h, skip)) : ∃ nodes, heap.objects h = .ok nodes := by
  cases node with
  | pointer target =>
    cases target with
    | none => simp [reference] at href
    | some target =>
      obtain ⟨rfl, _⟩ : target = h ∧ 0 = skip := by simpa [reference] using href
      exact hr
  | closure flavour code captures =>
    obtain ⟨rfl, _⟩ : captures = h ∧ 1 = skip := by simpa [reference] using href
    exact hr
  | undefined | scalar | string | cell => simp [reference] at href

theorem Resolves.followLink {heap : Heap} {cell : Cell} (hr : Resolves heap (.cell cell))
    (seen : List Handle) (depth : Nat) : ∃ r, followLink heap seen depth cell.next = .ok r := by
  cases hn : cell.next with
  | none => exact ⟨_, rfl⟩
  | some next =>
    by_cases hs : next ∈ seen
    · exact ⟨_, if_pos hs⟩
    · obtain ⟨nodes, cell', ho, hfirst⟩ := hr next hn
      have hread : heap.readCell next = .ok cell' :=
        Heap.readCell_eq_ok_iff.mpr ⟨nodes, Heap.objects_eq_ok.mp ho, hfirst⟩
      rw [Dump.followLink, if_neg hs, hread]
      exact ⟨_, rfl⟩

/-- A value whose references resolve can be shown, whatever was seen before. -/
theorem Resolves.line {heap : Heap} {node : Node} (hr : Resolves heap node) (seen : List Handle)
    (depth : Nat) : ∃ l, line heap seen ⟨node, depth⟩ = .ok l := by
  cases href : reference node with
  | some p =>
    obtain ⟨h, skip⟩ := p
    obtain ⟨nodes, ho⟩ := hr.of_reference href
    rw [line_of_reference href]
    by_cases hs : h ∈ seen
    · exact ⟨_, showAllocation_again hs _ _ _⟩
    · rw [showAllocation_new hs, ho]
      exact ⟨_, rfl⟩
  | none =>
    cases node with
    | undefined | scalar => exact ⟨_, rfl⟩
    | pointer target =>
      cases target with
      | none => exact ⟨_, rfl⟩
      | some target => simp [reference] at href
    | closure => simp [reference] at href
    | string length h =>
      obtain ⟨data, hdata, hlength⟩ := hr
      have htext : heap.stringText (.string length h) =
          .ok (Utf8.decodeLossy (data.extract 0 length).toList) := by
        simp [Heap.stringText, Heap.stringBytes, hdata, hlength, bind, Except.bind, Except.map]
      exact ⟨_, line_of_leaf (.string htext) depth⟩
    | cell cell =>
      obtain ⟨r, hf⟩ := hr.followLink seen depth
      rw [line_of_cell, hf]
      exact ⟨_, rfl⟩

end Dump

example : ∃ ctx, Reachable { arenaBytes := 4096, stackSlots := 4 } ctx ∧
    ctx.heap.describe (.ref ⟨0, 1⟩) =
      .ok "pointer #0v1 (1 slots)\n  pointer list cell\n  <seen #0v1>\n    <seen #0v1>\n" := by
  have hstart : Reachable { arenaBytes := 4096, stackSlots := 4 } _ := .start rfl
  refine ⟨_, hstart.after [.act (.allocateObjects (1 : Nat)),
    .act (.setObject (⟨0, 1⟩ : Handle) (0 : Nat) (Node.cell ⟨.boxed ⟨0, 1⟩, some ⟨0, 1⟩⟩))], ?_⟩
  cbv

end GenerationalHeap
