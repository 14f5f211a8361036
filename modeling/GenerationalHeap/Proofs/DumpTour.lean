import Mathlib.Algebra.BigOperators.Group.Finset.Piecewise
import GenerationalHeap.Proofs.Links
import GenerationalHeap.Operation.Dump

namespace GenerationalHeap

namespace Dump

/-- Why a value is in a dump: the dump is about it, or an earlier line refers to it. That line shows the
allocation that holds it in a slot, or the cell whose element is in its box, or the cell before it in a
chain. -/
inductive Origin
  | root
  | slot (line index : Nat)
  | box (line : Nat)
  | link (line : Nat) (next : Handle)
deriving DecidableEq

/-- A value still to be shown. -/
structure Task extends Entry where
  origin : Origin

/-- A line of a dump. -/
structure Row extends Shown where
  origin : Origin

def Task.row (task : Task) (text : String) : Row := ⟨⟨task.toEntry, text⟩, task.origin⟩

/-- How far a dump has come: its lines so far, the allocations that it has shown or is about to show, and
what it has still to show. -/
structure Tour where
  rows : List Row
  seen : List Handle
  pending : List Task

namespace Tour

def start (node : Node) : Tour := ⟨[], [], [⟨⟨node, 0⟩, .root⟩]⟩

end Tour

/-- The allocation by which a pointer or closure is shown, and the number of slots left out of it. -/
def reference : Node → Option (Handle × Nat)
  | .pointer (some target) => some (target, 0)
  | .closure _ _ captures => some (captures, 1)
  | _ => none

def againText (h : Handle) : String := "<seen " ++ h.label ++ ">"

/-- The line of a value that is shown by an allocation with so many slots, those left out not counted. -/
def slotsText (node : Node) (h : Handle) (count : Nat) : String :=
  match node with
  | .closure flavour _ _ =>
    (NodeKind.closure flavour).name ++ " " ++ h.label ++ " (" ++ count.repr ++ " captures)"
  | _ => "pointer " ++ h.label ++ " (" ++ count.repr ++ " slots)"

/-- Values that are shown by their line alone. -/
inductive Leaf (heap : Heap) : Node → String → Prop
  | undefined : Leaf heap .undefined "undefined"
  | scalar (value : Scalar) : Leaf heap (.scalar value) (value.kind.name ++ " " ++ scalarText value)
  | emptyList : Leaf heap (.pointer none) "empty list"
  | string {length : Nat} {h : Handle} {text : String} :
      heap.stringText (.string length h) = .ok text →
      Leaf heap (.string length h) ("string " ++ Quoted.string text ++ " (" ++ length.repr ++ " bytes)")

def slotTasks (line depth skip : Nat) (nodes : Array Node) : List Task :=
  (nodes.toList.drop skip).mapIdx fun k node => ⟨⟨node, depth + 1⟩, .slot line (skip + k)⟩

def boxTasks (line depth : Nat) : Head → List Task
  | .boxed box => [⟨⟨.ref box, depth + 1⟩, .box line⟩]
  | .scalar _ => []

/-- What is to be shown for the link of a cell in a line, and the allocations seen then. -/
inductive Follows (heap : Heap) (line depth : Nat) (seen : List Handle) :
    Option Handle → List Task → List Handle → Prop
  | last : Follows heap line depth seen none [] seen
  | again {h : Handle} : h ∈ seen →
      Follows heap line depth seen (some h) [⟨⟨.ref h, depth⟩, .link line h⟩] seen
  | next {h : Handle} {cell : Cell} : h ∉ seen → heap.readCell h = .ok cell →
      Follows heap line depth seen (some h) [⟨⟨.cell cell, depth⟩, .link line h⟩] (h :: seen)

/-- One line more. What its value leads to is shown before all else that is pending. -/
inductive Tour.Step (heap : Heap) : Tour → Tour → Prop
  | leaf {rows : List Row} {seen : List Handle} {task : Task} {rest : List Task} {text : String} :
      Leaf heap task.node text →
      Step heap ⟨rows, seen, task :: rest⟩ ⟨rows ++ [task.row text], seen, rest⟩
  | again {rows : List Row} {seen : List Handle} {task : Task} {rest : List Task} {h : Handle}
      {skip : Nat} : reference task.node = some (h, skip) → h ∈ seen →
      Step heap ⟨rows, seen, task :: rest⟩ ⟨rows ++ [task.row (againText h)], seen, rest⟩
  | expand {rows : List Row} {seen : List Handle} {task : Task} {rest : List Task} {h : Handle}
      {skip : Nat} {nodes : Array Node} :
      reference task.node = some (h, skip) → h ∉ seen → heap.objects h = .ok nodes →
      Step heap ⟨rows, seen, task :: rest⟩
        ⟨rows ++ [task.row (slotsText task.node h (nodes.size - skip))], h :: seen,
          slotTasks rows.length task.depth skip nodes ++ rest⟩
  | cell {rows : List Row} {seen seen' : List Handle} {task : Task} {rest link : List Task}
      {cell : Cell} :
      task.node = .cell cell → Follows heap rows.length task.depth seen cell.next link seen' →
      Step heap ⟨rows, seen, task :: rest⟩
        ⟨rows ++ [task.row (headText cell.head)], seen',
          link ++ boxTasks rows.length task.depth cell.head ++ rest⟩

theorem map_slotTasks (line depth skip : Nat) (nodes : Array Node) :
    (slotTasks line depth skip nodes).map Task.toEntry =
      (nodes.toList.drop skip).map (⟨·, depth + 1⟩) := by
  apply List.ext_getElem?
  intro k
  cases hk : (nodes.toList.drop skip)[k]? <;> simp_all [slotTasks]

theorem map_boxTasks (line depth : Nat) (head : Head) :
    (boxTasks line depth head).map Task.toEntry = showBox depth head := by
  cases head <;> rfl

section Lines

variable {heap : Heap} {seen : List Handle}

theorem showAllocation_again {h : Handle} (hs : h ∈ seen) (depth skip : Nat) (text : Nat → String) :
    showAllocation heap seen h depth skip text = .ok ⟨againText h, [], seen⟩ :=
  if_pos hs

theorem showAllocation_new {h : Handle} (hs : h ∉ seen) (depth skip : Nat) (text : Nat → String) :
    showAllocation heap seen h depth skip text = (heap.objects h).map fun nodes =>
      ⟨text (nodes.size - skip), (nodes.toList.drop skip).map (⟨·, depth + 1⟩), h :: seen⟩ := by
  rw [showAllocation, if_neg hs]
  cases heap.objects h <;> rfl

/-- Both kinds of references are shown in one way. -/
theorem line_of_reference {node : Node} {h : Handle} {skip : Nat}
    (hr : reference node = some (h, skip)) (depth : Nat) :
    line heap seen ⟨node, depth⟩ = showAllocation heap seen h depth skip (slotsText node h) := by
  cases node with
  | pointer target =>
    cases target with
    | none => simp [reference] at hr
    | some target =>
      obtain ⟨rfl, rfl⟩ : target = h ∧ 0 = skip := by simpa [reference] using hr
      rfl
  | closure flavour code captures =>
    obtain ⟨rfl, rfl⟩ : captures = h ∧ 1 = skip := by simpa [reference] using hr
    rfl
  | undefined | scalar | string | cell => simp [reference] at hr

theorem line_of_leaf {node : Node} {text : String} (hl : Leaf heap node text) (depth : Nat) :
    line heap seen ⟨node, depth⟩ = .ok ⟨text, [], seen⟩ := by
  cases hl with
  | undefined | scalar | emptyList => rfl
  | string ht =>
    rw [line]
    simp only [ht]
    rfl

theorem line_of_cell (cell : Cell) (depth : Nat) :
    line heap seen ⟨.cell cell, depth⟩ = (followLink heap seen depth cell.next).map fun r =>
      ⟨headText cell.head, r.1 ++ showBox depth cell.head, r.2⟩ := by
  simp only [line]
  cases followLink heap seen depth cell.next <;> rfl

theorem Follows.followLink_eq {line depth : Nat} {next : Option Handle} {link : List Task}
    {seen' : List Handle} (hf : Follows heap line depth seen next link seen') :
    followLink heap seen depth next = .ok (link.map Task.toEntry, seen') := by
  cases hf with
  | last => rfl
  | again hs => exact if_pos hs
  | next hs hc =>
    rw [followLink, if_neg hs, hc]
    rfl

theorem exists_follows (line : Nat) {depth : Nat} {next : Option Handle} {r : List Entry × List Handle}
    (hf : followLink heap seen depth next = .ok r) :
    ∃ link, Follows heap line depth seen next link r.2 := by
  cases next with
  | none =>
    obtain rfl := Except.ok.inj hf
    exact ⟨_, .last⟩
  | some h =>
    rw [followLink] at hf
    by_cases hs : h ∈ seen
    · rw [if_pos hs] at hf
      obtain rfl := Except.ok.inj hf
      exact ⟨_, .again hs⟩
    · rw [if_neg hs] at hf
      cases hc : heap.readCell h with
      | error why => simp [hc, bind, Except.bind] at hf
      | ok cell =>
        rw [hc] at hf
        obtain rfl := Except.ok.inj hf
        exact ⟨_, .next hs hc⟩

theorem walk_cons_of_ok {entry : Entry} {pending : List Entry} {l : Line}
    (hl : line heap seen entry = .ok l) :
    walk heap seen (entry :: pending) =
      (walk heap l.seen (l.children ++ pending)).map (⟨entry, l.text⟩ :: ·) := by
  rw [walk]
  split
  · rename_i why hl'
    rw [hl] at hl'
    simp at hl'
  · rename_i l' hl'
    obtain rfl := Except.ok.inj (hl.symm.trans hl')
    rfl

theorem walk_cons_of_error {entry : Entry} {pending : List Entry} {why : RuntimeError}
    (hl : line heap seen entry = .error why) : walk heap seen (entry :: pending) = .error why := by
  rw [walk]
  split
  · rename_i why' hl'
    obtain rfl := Except.error.inj (hl.symm.trans hl')
    rfl
  · rename_i l hl'
    rw [hl] at hl'
    simp at hl'

end Lines

namespace Tour

variable {heap : Heap}

/-- A step adds the line that the first pending value has, and puts what it leads to before the rest. -/
theorem Step.line_eq {rows : List Row} {seen : List Handle} {task : Task} {rest : List Task} {t : Tour}
    (h : Step heap ⟨rows, seen, task :: rest⟩ t) :
    ∃ l, line heap seen task.toEntry = .ok l ∧ l.seen = t.seen ∧
      t.rows.map Row.toShown = rows.map Row.toShown ++ [⟨task.toEntry, l.text⟩] ∧
      t.pending.map Task.toEntry = l.children ++ rest.map Task.toEntry := by
  cases h with
  | leaf hl => exact ⟨_, line_of_leaf hl task.depth, rfl, by simp [Task.row], by simp⟩
  | again hr hs =>
    refine ⟨_, (line_of_reference hr task.depth).trans (showAllocation_again hs _ _ _), rfl, ?_, ?_⟩
    · simp [Task.row]
    · simp
  | expand hr hs ho =>
    refine ⟨_, ((line_of_reference hr task.depth).trans (showAllocation_new hs _ _ _)).trans
      (by rw [ho]; rfl), rfl, ?_, ?_⟩
    · simp [Task.row]
    · simp [map_slotTasks]
  | @cell _ _ _ _ _ _ cell hn hf =>
    have hline : line heap seen ⟨.cell cell, task.depth⟩ = _ := line_of_cell cell task.depth
    rw [hf.followLink_eq, ← hn] at hline
    refine ⟨_, hline, rfl, ?_, ?_⟩
    · simp [Task.row]
    · simp [map_boxTasks]

theorem exists_step {rows : List Row} {seen : List Handle} {task : Task} {l : Line}
    (hl : line heap seen task.toEntry = .ok l) (rest : List Task) :
    ∃ t, Step heap ⟨rows, seen, task :: rest⟩ t := by
  obtain ⟨⟨node, depth⟩, origin⟩ := task
  cases hr : reference node with
  | some p =>
    obtain ⟨h, skip⟩ := p
    rw [line_of_reference hr] at hl
    by_cases hs : h ∈ seen
    · exact ⟨_, .again hr hs⟩
    · rw [showAllocation_new hs] at hl
      cases ho : heap.objects h with
      | error why => simp [ho, Except.map] at hl
      | ok nodes => exact ⟨_, .expand hr hs ho⟩
  | none =>
    cases node with
    | undefined => exact ⟨_, .leaf .undefined⟩
    | scalar value => exact ⟨_, .leaf (.scalar value)⟩
    | pointer target =>
      cases target with
      | none => exact ⟨_, .leaf .emptyList⟩
      | some target => simp [reference] at hr
    | closure => simp [reference] at hr
    | string length h =>
      cases ht : heap.stringText (.string length h) with
      | error why => simp [line, ht, bind, Except.bind] at hl
      | ok text => exact ⟨_, .leaf (.string ht)⟩
    | cell cell =>
      rw [line_of_cell] at hl
      cases hf : followLink heap seen depth cell.next with
      | error why => simp [hf, Except.map] at hl
      | ok r =>
        obtain ⟨link, hfollows⟩ := exists_follows rows.length hf
        exact ⟨_, .cell rfl hfollows⟩

/-- A number of lines more, one after the other. -/
inductive Run (heap : Heap) : Nat → Tour → Tour → Prop
  | done (t : Tour) : Run heap 0 t t
  | step {n : Nat} {a b c : Tour} : Step heap a b → Run heap n b c → Run heap (n + 1) a c

/-- What every line keeps, every dump keeps. -/
theorem Run.invariant {P : Tour → Prop} (hP : ∀ a b, Step heap a b → P a → P b) {n : Nat} {a b : Tour}
    (hr : Run heap n a b) (ha : P a) : P b := by
  induction hr with
  | done => exact ha
  | step hs _ ih => exact ih (hP _ _ hs ha)

/-- All lines of a dump that has come so far. -/
def whole (heap : Heap) (t : Tour) : Except RuntimeError (List Shown) :=
  (walk heap t.seen (t.pending.map Task.toEntry)).map (t.rows.map Row.toShown ++ ·)

theorem Step.whole_eq {a b : Tour} (hs : Step heap a b) : a.whole heap = b.whole heap := by
  obtain ⟨rows, seen, pending⟩ := a
  cases pending with
  | nil => cases hs
  | cons task rest =>
    obtain ⟨l, hl, hseen, hrows, hpending⟩ := hs.line_eq
    rw [whole, whole, List.map_cons, walk_cons_of_ok hl, hrows, hpending, ← hseen]
    cases walk heap l.seen (l.children ++ rest.map Task.toEntry) <;> simp [Except.map]

theorem Run.whole_eq {n : Nat} {a b : Tour} (hr : Run heap n a b) : a.whole heap = b.whole heap := by
  induction hr with
  | done => rfl
  | step hs _ ih => exact hs.whole_eq.trans ih

end Tour

/-- The values that an allocation holds; bytes are none. -/
def slotCount : Payload → Nat
  | .objects nodes => nodes.size
  | .bytes _ => 0

/-- The slots of the allocation at an index of the handle table, none if it was seen. -/
def unseenAt (heap : Heap) (seen : List Handle) (i : Nat) : Nat :=
  if ⟨i, heap.slots.versionOf i⟩ ∈ seen then 0
  else (heap.slots.blockAt? i).elim 0 fun block => slotCount block.payload

/-- All slots of the allocations that were not seen. -/
def unseenSlots (heap : Heap) (seen : List Handle) : Nat :=
  ∑ i ∈ Finset.range heap.slots.slots.size, unseenAt heap seen i

/-- To see an allocation takes its slots off those still to be seen. -/
theorem unseenSlots_cons {heap : Heap} {seen : List Handle} {h : Handle} {nodes : Array Node}
    (hs : h ∉ seen) (ho : heap.objects h = .ok nodes) :
    unseenSlots heap seen = unseenSlots heap (h :: seen) + nodes.size := by
  obtain ⟨b, hb, hp⟩ := Heap.payload?_eq_some.mp (Heap.objects_eq_ok.mp ho)
  obtain ⟨hversion, hblock⟩ := (heap.slots.resolve_eq_some_iff h b).mp hb
  have hindex : h.index ∈ Finset.range heap.slots.slots.size :=
    Finset.mem_range.mpr (heap.slots.lt_size_of_blockAt? h.index b hblock)
  have hat : ∀ i, unseenAt heap seen i =
      unseenAt heap (h :: seen) i + if i = h.index then nodes.size else 0 := by
    intro i
    by_cases hi : i = h.index
    · subst hi
      have hself : (⟨h.index, heap.slots.versionOf h.index⟩ : Handle) = h := by
        rw [SlotTable.versionOf, hversion]
        rfl
      simp [unseenAt, hself, hs, hblock, hp, slotCount]
    · have hother : (⟨i, heap.slots.versionOf i⟩ : Handle) ≠ h :=
        fun he => hi (congrArg Handle.index he)
      simp [unseenAt, hother, hi]
  calc unseenSlots heap seen
      = ∑ i ∈ Finset.range heap.slots.slots.size,
          (unseenAt heap (h :: seen) i + if i = h.index then nodes.size else 0) :=
        Finset.sum_congr rfl fun i _ => hat i
    _ = unseenSlots heap (h :: seen) + nodes.size := by
        rw [Finset.sum_add_distrib, Finset.sum_ite_eq', if_pos hindex, unseenSlots]

theorem weight_pos (node : Node) : 0 < weight node := by
  cases node <;> simp [weight]

theorem weight_le (node : Node) : weight node ≤ 3 := by
  cases node <;> simp [weight]

theorem pendingWeight_le (entries : List Entry) : pendingWeight entries ≤ 3 * entries.length := by
  induction entries with
  | nil => exact Nat.le_refl 0
  | cons entry entries ih =>
    have hle := weight_le entry.node
    rw [pendingWeight, List.length_cons]
    omega

namespace Tour

variable {heap : Heap}

/-- Bound on the lines that are still to come. -/
def load (heap : Heap) (t : Tour) : Nat :=
  pendingWeight (t.pending.map Task.toEntry) + 3 * unseenSlots heap t.seen

theorem Step.load_lt {a b : Tour} (hs : Step heap a b) : b.load heap < a.load heap := by
  cases hs with
  | @leaf _ _ task =>
    have hpos := weight_pos task.node
    simp only [load, List.map_cons, pendingWeight]
    omega
  | @again _ _ task =>
    have hpos := weight_pos task.node
    simp only [load, List.map_cons, pendingWeight]
    omega
  | @expand rows _ task rest h skip nodes hr hs ho =>
    have hpos := weight_pos task.node
    have hseen := unseenSlots_cons hs ho
    have hslots : pendingWeight ((slotTasks rows.length task.depth skip nodes).map Task.toEntry) ≤
        3 * nodes.size := by
      refine (pendingWeight_le _).trans (Nat.mul_le_mul_left 3 ?_)
      simp [slotTasks]
    simp only [load, List.map_cons, List.map_append, pendingWeight, pendingWeight_append]
    omega
  | @cell rows _ _ task _ _ cell hn hf =>
    have hbox : pendingWeight ((boxTasks rows.length task.depth cell.head).map Task.toEntry) ≤ 1 := by
      cases cell.head <;> simp [boxTasks, pendingWeight, weight, Node.ref]
    simp only [load, List.map_cons, List.map_append, pendingWeight, pendingWeight_append, hn, weight]
    generalize cell.next = next at hf
    cases hf with
    | last =>
      simp only [List.map_nil, pendingWeight]
      omega
    | again =>
      simp only [List.map_cons, List.map_nil, pendingWeight, weight, Node.ref]
      omega
    | next hs hc =>
      -- An allocation that begins with a cell has a slot, which pays for the cell.
      obtain ⟨nodes, hp, hfirst⟩ := Heap.readCell_eq_ok_iff.mp hc
      have hseen := unseenSlots_cons hs (Heap.objects_eq_ok.mpr hp)
      have hsize : 0 < nodes.size := (Array.getElem?_eq_some_iff.mp hfirst).1
      simp only [List.map_cons, List.map_nil, pendingWeight, weight]
      omega

/-- Every dump comes to an end: nothing is left to show, or the next value cannot be shown. -/
theorem exists_end (heap : Heap) (t : Tour) : ∃ n t', Run heap n t t' ∧ (t'.pending = [] ∨
    ∃ task rest why, t'.pending = task :: rest ∧ line heap t'.seen task.toEntry = .error why) := by
  induction hload : t.load heap using Nat.strong_induction_on generalizing t with
  | _ load ih =>
    obtain ⟨rows, seen, pending⟩ := t
    cases pending with
    | nil => exact ⟨0, _, .done _, .inl rfl⟩
    | cons task rest =>
      cases hl : line heap seen task.toEntry with
      | error why => exact ⟨0, _, .done _, .inr ⟨task, rest, why, rfl, hl⟩⟩
      | ok l =>
        obtain ⟨b, hs⟩ := exists_step hl rest
        obtain ⟨n, t', hr, hend⟩ := ih (b.load heap) (hload ▸ hs.load_lt) b rfl
        exact ⟨n + 1, t', .step hs hr, hend⟩

end Tour

theorem getElem?_take_eq_some {rows : List Row} {i j : Nat} {row : Row} :
    (rows.take i)[j]? = some row ↔ j < i ∧ rows[j]? = some row := by
  rw [List.getElem?_take, Option.ite_none_right_eq_some]

/-- Every line stands in a relation to the lines before it. -/
def Built (P : List Row → Row → Prop) (rows : List Row) : Prop :=
  ∀ i row, rows[i]? = some row → P (rows.take i) row

theorem built_nil (P : List Row → Row → Prop) : Built P [] := by
  intro i row hrow
  simp at hrow

theorem Built.append {P : List Row → Row → Prop} {rows : List Row} (hb : Built P rows) {row : Row}
    (hrow : P rows row) : Built P (rows ++ [row]) := by
  intro i r hr
  by_cases hi : i < rows.length
  · rw [List.getElem?_append_left hi] at hr
    rw [List.take_append_of_le_length (Nat.le_of_lt hi)]
    exact hb i r hr
  · have hlt := (List.getElem?_eq_some_iff.mp hr).1
    have hlast : i = rows.length := by
      rw [List.length_append, List.length_singleton] at hlt
      omega
    subst hlast
    rw [List.getElem?_concat_length] at hr
    obtain rfl := Option.some.inj hr
    simpa using hrow

/-- The text of the lines of a dump. -/
def render (rows : List Row) : String := String.join (rows.map fun row => row.toShown.render)

theorem describe_eq_whole (heap : Heap) (node : Node) :
    heap.describe node = ((Tour.start node).whole heap).map fun shown =>
      String.join (shown.map Shown.render) := by
  simp only [Heap.describe, Tour.whole, Tour.start, List.map_cons, List.map_nil]
  cases walk heap [] [⟨node, 0⟩] <;> simp [Except.map]

section Outcomes

variable {heap : Heap} {node : Node} {n : Nat}

/-- With nothing left to show, the lines so far are the dump. -/
theorem describe_of_run {rows : List Row} {seen : List Handle}
    (hr : Tour.Run heap n (.start node) ⟨rows, seen, []⟩) : heap.describe node = .ok (render rows) := by
  rw [describe_eq_whole, hr.whole_eq, Tour.whole, List.map_nil, walk]
  simp [Except.map, render, Function.comp_def]

theorem describe_of_stuck {t : Tour} {task : Task} {rest : List Task} {why : RuntimeError}
    (hr : Tour.Run heap n (.start node) t) (hp : t.pending = task :: rest)
    (hl : line heap t.seen task.toEntry = .error why) : heap.describe node = .error why := by
  rw [describe_eq_whole, hr.whole_eq, Tour.whole, hp, List.map_cons, walk_cons_of_error hl]
  rfl

/-- A text that is returned is that of a dump with nothing left to show. -/
theorem run_of_describe {text : String} (hd : heap.describe node = .ok text) :
    ∃ n rows seen, Tour.Run heap n (.start node) ⟨rows, seen, []⟩ ∧ text = render rows := by
  obtain ⟨n, ⟨rows, seen, pending⟩, hr, hend⟩ := Tour.exists_end heap (.start node)
  rcases hend with rfl | ⟨task, rest, why, hp, hl⟩
  · have hok := describe_of_run hr
    rw [hd] at hok
    exact ⟨n, rows, seen, hr, Except.ok.inj hok⟩
  · rw [describe_of_stuck hr hp hl] at hd
    simp at hd

end Outcomes

end Dump

end GenerationalHeap
