import GenerationalHeap.Counting
import GenerationalHeap.Operation.Strings
import GenerationalHeap.Operation.Lists
import GenerationalHeap.Text.Quoted

namespace GenerationalHeap

namespace Dump

/-- A value still to be shown, and how far to indent it. -/
structure Entry where
  node : Node
  depth : Nat

/-- One line with what is to be shown after it, and the allocations shown so far. -/
structure Line where
  text : String
  children : List Entry
  seen : List Handle

def scalarText : Scalar → String
  | .char c => Quoted.char c
  | value => value.text

def headText (head : Head) : String :=
  match head with
  | .boxed _ => (NodeKind.cell head.kind).name
  | .scalar value => (NodeKind.cell head.kind).name ++ " " ++ scalarText value

/-- Shows the values of an allocation, unless it was shown before. -/
def showAllocation (heap : Heap) (seen : List Handle) (h : Handle) (depth skip : Nat)
    (text : Nat → String) : Except RuntimeError Line :=
  if h ∈ seen then .ok ⟨"<seen " ++ h.label ++ ">", [], seen⟩
  else do
    let nodes ← heap.objects h
    .ok ⟨text (nodes.size - skip), (nodes.toList.drop skip).map (⟨·, depth + 1⟩), h :: seen⟩

/-- The next cell of a chain, or a pointer to it if it was shown before. -/
def followLink (heap : Heap) (seen : List Handle) (depth : Nat) :
    Option Handle → Except RuntimeError (List Entry × List Handle)
  | none => .ok ([], seen)
  | some next =>
    if next ∈ seen then .ok ([⟨.ref next, depth⟩], seen)
    else do
      let cell ← heap.readCell next
      .ok ([⟨.cell cell, depth⟩], next :: seen)

/-- The box of a cell's element, one step deeper. -/
def showBox (depth : Nat) : Head → List Entry
  | .boxed box => [⟨.ref box, depth + 1⟩]
  | .scalar _ => []

def line (heap : Heap) (seen : List Handle) (entry : Entry) : Except RuntimeError Line :=
  match entry.node with
  | .undefined => .ok ⟨"undefined", [], seen⟩
  | .scalar value => .ok ⟨value.kind.name ++ " " ++ scalarText value, [], seen⟩
  | .pointer none => .ok ⟨"empty list", [], seen⟩
  | .pointer (some target) =>
    showAllocation heap seen target entry.depth 0 fun slots =>
      "pointer " ++ target.label ++ " (" ++ slots.repr ++ " slots)"
  | .string length handle => do
    let text ← heap.stringText (.string length handle)
    .ok ⟨"string " ++ Quoted.string text ++ " (" ++ length.repr ++ " bytes)", [], seen⟩
  | .closure flavour _ captures =>
    showAllocation heap seen captures entry.depth 1 fun held =>
      (NodeKind.closure flavour).name ++ " " ++ captures.label ++ " (" ++ held.repr ++ " captures)"
  | .cell cell => do
    let (next, seen) ← followLink heap seen entry.depth cell.next
    .ok ⟨headText cell.head, next ++ showBox entry.depth cell.head, seen⟩

/-- Live handles not shown so far. -/
def unseen (heap : Heap) (seen : List Handle) : Nat :=
  (List.range heap.slots.slots.size).countP fun i =>
    match heap.slots.slots[i]? with
    | some slot => slot.block.isSome && !seen.contains ⟨i, slot.version⟩
    | none => false

/-- Bound on the lines that a value can add without showing another allocation. -/
def weight : Node → Nat
  | .cell _ => 3
  | _ => 1

def pendingWeight : List Entry → Nat
  | [] => 0
  | entry :: pending => weight entry.node + pendingWeight pending

theorem pendingWeight_append (first second : List Entry) :
    pendingWeight (first ++ second) = pendingWeight first + pendingWeight second := by
  induction first with
  | nil => simp [pendingWeight]
  | cons entry first ih =>
    rw [List.cons_append, pendingWeight, pendingWeight, ih]
    omega

theorem unseen_cons_lt (heap : Heap) (seen : List Handle) (h : Handle) (block : Block)
    (hb : heap.block? h = some block) (hs : h ∉ seen) : unseen heap (h :: seen) < unseen heap seen := by
  unfold Heap.block? SlotTable.resolve at hb
  split at hb
  · rename_i slot hslot
    split at hb
    · rename_i hv
      have hh : (⟨h.index, slot.version⟩ : Handle) = h := by cases h; simp_all
      apply countP_lt_of_imp _ _ _ h.index
      · rw [List.mem_range]
        exact (Array.getElem?_eq_some_iff.mp hslot).1
      · intro i _ hi
        split at hi
        · simp_all
        · simp at hi
      · simp [hslot, hb, hh]
      · simp [hslot, hb, hh, hs]
    · simp at hb
  · simp at hb

theorem objects_resolves (heap : Heap) (h : Handle) (nodes : Array Node)
    (ho : heap.objects h = .ok nodes) : ∃ block, heap.block? h = some block := by
  unfold Heap.objects at ho
  split at ho
  · simp at ho
  · rename_i block hb
    exact ⟨block, hb⟩

theorem showAllocation_decreases (heap : Heap) (seen : List Handle) (h : Handle) (depth skip : Nat)
    (text : Nat → String) (l : Line) (hl : showAllocation heap seen h depth skip text = .ok l) :
    unseen heap l.seen < unseen heap seen ∨ l.seen = seen ∧ l.children = [] := by
  unfold showAllocation at hl
  split at hl
  · obtain rfl := Except.ok.inj hl
    exact .inr ⟨rfl, rfl⟩
  · rename_i hs
    cases ho : heap.objects h with
    | error why => simp [ho, bind, Except.bind] at hl
    | ok nodes =>
      obtain ⟨block, hb⟩ := objects_resolves heap h nodes ho
      simp only [ho, bind, Except.bind, Except.ok.injEq] at hl
      subst hl
      exact .inl (unseen_cons_lt heap seen h block hb hs)

theorem followLink_decreases (heap : Heap) (seen : List Handle) (depth : Nat) (next : Option Handle)
    (r : List Entry × List Handle) (hr : followLink heap seen depth next = .ok r) :
    unseen heap r.2 < unseen heap seen ∨ r.2 = seen ∧ pendingWeight r.1 ≤ 1 := by
  unfold followLink at hr
  split at hr
  · obtain rfl := Except.ok.inj hr
    exact .inr ⟨rfl, by simp [pendingWeight]⟩
  · rename_i h
    split at hr
    · obtain rfl := Except.ok.inj hr
      exact .inr ⟨rfl, by simp [pendingWeight, weight, Node.ref]⟩
    · rename_i hs
      cases hc : heap.readCell h with
      | error why => simp [hc, bind, Except.bind] at hr
      | ok cell =>
        simp only [hc, bind, Except.bind, Except.ok.injEq] at hr
        subst hr
        cases ho : heap.objects h with
        | error why => simp [Heap.readCell, ho, bind, Except.bind] at hc
        | ok nodes =>
          obtain ⟨block, hb⟩ := objects_resolves heap h nodes ho
          exact .inl (unseen_cons_lt heap seen h block hb hs)

/-- Every line shows a new allocation or leaves less to show. -/
theorem line_decreases (heap : Heap) (seen : List Handle) (entry : Entry) (l : Line)
    (hl : line heap seen entry = .ok l) :
    unseen heap l.seen < unseen heap seen ∨
      l.seen = seen ∧ pendingWeight l.children < weight entry.node := by
  have leaf {text : String} (h : Except.ok ⟨text, [], seen⟩ = (Except.ok l : Except RuntimeError Line))
      (hw : 0 < weight entry.node) : l.seen = seen ∧ pendingWeight l.children < weight entry.node := by
    obtain rfl := Except.ok.inj h
    exact ⟨rfl, by simpa [pendingWeight] using hw⟩
  have shown {h : Handle} {skip : Nat} {text : Nat → String} (hw : 0 < weight entry.node)
      (hl : showAllocation heap seen h entry.depth skip text = .ok l) :
      unseen heap l.seen < unseen heap seen ∨
        l.seen = seen ∧ pendingWeight l.children < weight entry.node := by
    rcases showAllocation_decreases heap seen h entry.depth skip text l hl with hlt | ⟨hs, hc⟩
    · exact .inl hlt
    · exact .inr ⟨hs, by simpa [hc, pendingWeight] using hw⟩
  unfold line at hl
  split at hl
  case h_1 hn => exact .inr (leaf hl (by simp [hn, weight]))
  case h_2 hn => exact .inr (leaf hl (by simp [hn, weight]))
  case h_3 hn => exact .inr (leaf hl (by simp [hn, weight]))
  case h_4 hn => exact shown (by simp [hn, weight]) hl
  case h_5 length handle hn =>
    cases ht : heap.stringText (.string length handle) with
    | error why => simp [ht, bind, Except.bind] at hl
    | ok text =>
      simp only [ht, bind, Except.bind] at hl
      exact .inr (leaf hl (by simp [hn, weight]))
  case h_6 hn => exact shown (by simp [hn, weight]) hl
  case h_7 cell hn =>
    cases hf : followLink heap seen entry.depth cell.next with
    | error why => simp [hf, bind, Except.bind] at hl
    | ok r =>
      simp only [hf, bind, Except.bind, Except.ok.injEq] at hl
      subst hl
      rcases followLink_decreases heap seen entry.depth cell.next r hf with hlt | ⟨hs, hw⟩
      · exact .inl hlt
      · refine .inr ⟨hs, ?_⟩
        have hbox : pendingWeight (showBox entry.depth cell.head) ≤ 1 := by
          cases cell.head <;> simp [showBox, pendingWeight, weight, Node.ref]
        have hcell : weight entry.node = 3 := by rw [hn, weight]
        rw [pendingWeight_append]
        omega

/-- A value that was shown, with its text. -/
structure Shown extends Entry where
  text : String

/-- Shows the pending values, the first of them first and what it leads to before the others. -/
def walk (heap : Heap) (seen : List Handle) : List Entry → Except RuntimeError (List Shown)
  | [] => .ok []
  | entry :: pending =>
    match hl : line heap seen entry with
    | .error why => .error why
    | .ok l =>
      have := line_decreases heap seen entry l hl
      (walk heap l.seen (l.children ++ pending)).map (⟨entry, l.text⟩ :: ·)
termination_by pending => (unseen heap seen, pendingWeight pending)
decreasing_by
  rcases this with hlt | ⟨hs, hw⟩
  · exact Prod.Lex.left _ _ hlt
  · rw [hs]
    refine Prod.Lex.right _ ?_
    rw [pendingWeight, pendingWeight_append]
    omega

/-- One line of the dump, two blanks for each step of depth. -/
def Shown.render (shown : Shown) : String :=
  String.ofList (List.replicate (2 * shown.depth) ' ') ++ shown.text ++ "\n"

end Dump

/-- Indented dump of a value and all it refers to. Each allocation is shown once. -/
def Heap.describe (heap : Heap) (node : Node) : Except RuntimeError String :=
  (Dump.walk heap [] [⟨node, 0⟩]).map fun shown => String.join (shown.map Dump.Shown.render)

end GenerationalHeap
