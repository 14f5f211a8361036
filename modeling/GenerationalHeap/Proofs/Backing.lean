import GenerationalHeap.Proofs.Contents
import GenerationalHeap.Proofs.Chains
import GenerationalHeap.Operation.Dump
import GenerationalHeap.Operation.Closures
import GenerationalHeap.Operation.Print

namespace GenerationalHeap

variable {α β : Type}

def RuntimeError.IsDangling : RuntimeError → Prop
  | .danglingHandle _ => True
  | _ => False

/-- The result is no error about a handle that stands for nothing. -/
def Clean : Except RuntimeError α → Prop
  | .ok _ => True
  | .error e => ¬ e.IsDangling

@[simp] theorem clean_ok (a : α) : Clean (.ok a : Except RuntimeError α) := trivial

@[simp] theorem clean_error (e : RuntimeError) :
    Clean (.error e : Except RuntimeError α) ↔ ¬ e.IsDangling := Iff.rfl

theorem clean_bind (r : Except RuntimeError α) (f : α → Except RuntimeError β) (hr : Clean r)
    (hf : ∀ a, r = .ok a → Clean (f a)) : Clean (r >>= f) := by
  cases r with
  | ok a => exact hf a rfl
  | error e => exact hr

theorem clean_map (r : Except RuntimeError α) (f : α → β) : Clean (r.map f) ↔ Clean r := by
  cases r <;> exact Iff.rfl

namespace Heap

/-- Every allocation the value refers to is there. -/
def Backs (heap : Heap) (node : Node) : Prop := ∀ h ∈ node.references, heap.Live h

/-- Everything in the heap refers to allocations that are there. -/
def Closed (heap : Heap) : Prop := ∀ h p, heap.payload? h = some p → ∀ g ∈ p.references, heap.Live g

variable {heap : Heap} {h : Handle}

theorem Closed.backs (hc : heap.Closed) {nodes : Array Node}
    (hp : heap.payload? h = some (.objects nodes)) (node : Node) (hn : node ∈ nodes) :
    heap.Backs node := by
  intro g hg
  refine hc h _ hp g ?_
  rw [Payload.references, List.mem_flatMap]
  exact ⟨node, by simpa using hn, hg⟩

theorem backs_ref : heap.Backs (.ref h) ↔ heap.Live h := by
  simp [Backs, Node.ref, Node.references]

theorem backs_undefined : heap.Backs .undefined := by
  simp [Backs, Node.references]

theorem Closed.backs_getElem? (hc : heap.Closed) {nodes : Array Node}
    (hp : heap.payload? h = some (.objects nodes)) (i : Nat) :
    heap.Backs (nodes[i]?.getD .undefined) := by
  cases hi : nodes[i]? with
  | none => exact backs_undefined
  | some node => exact hc.backs hp node (Array.mem_of_getElem? hi)

theorem clean_objects (hl : heap.Live h) : Clean (heap.objects h) := by
  obtain ⟨p, hp⟩ := live_iff.mp hl
  rw [objects_eq, hp]
  cases p <;> simp [RuntimeError.IsDangling]

theorem clean_bytes (hl : heap.Live h) : Clean (heap.bytes h) := by
  obtain ⟨p, hp⟩ := live_iff.mp hl
  rw [bytes_eq, hp]
  cases p <;> simp [RuntimeError.IsDangling]

theorem clean_stringBytes (node : Node) (hb : heap.Backs node) : Clean (heap.stringBytes node) := by
  cases node with
  | string length handle =>
    refine clean_bind _ _ (clean_bytes (hb handle (by simp [Node.references]))) fun data _ => ?_
    split <;> simp [RuntimeError.IsDangling]
  | undefined | pointer | scalar | closure | cell => exact id

theorem clean_stringText (node : Node) (hb : heap.Backs node) : Clean (heap.stringText node) :=
  (clean_map _ _).mpr (clean_stringBytes node hb)

theorem clean_render (node : Node) (hb : heap.Backs node) : Clean (heap.render node) := by
  cases node with
  | string length handle => exact clean_stringText _ hb
  | scalar => exact trivial
  | undefined | pointer | closure | cell => exact id

theorem clean_printWith (ending : String) (node : Node) (w : Writer) (hb : heap.Backs node) :
    Clean (heap.printWith ending node w).1 := by
  have hr := clean_render node hb
  unfold printWith
  cases hrender : heap.render node with
  | error e =>
    rw [hrender] at hr
    exact hr
  | ok text =>
    dsimp only
    split
    · exact trivial
    · exact id

theorem clean_unbox (node : Node) (hb : heap.Backs node) : Clean (heap.unbox node) := by
  cases node with
  | pointer target =>
    cases target with
    | none => exact id
    | some target =>
      refine clean_bind _ _ (clean_objects (backs_ref.mp hb)) fun nodes _ => ?_
      cases nodes[0]? <;> simp [RuntimeError.IsDangling]
  | undefined | scalar | string | closure | cell => exact id

theorem clean_readCell (hl : heap.Live h) : Clean (heap.readCell h) := by
  refine clean_bind _ _ (clean_objects hl) fun nodes _ => ?_
  cases nodes[0]?.getD .undefined <;> simp [RuntimeError.IsDangling]

/-- A cell that was read stands at the start of its allocation. -/
theorem readCell_eq_ok {cell : Cell} (hr : heap.readCell h = .ok cell) :
    ∃ nodes, heap.payload? h = some (.objects nodes) ∧ nodes[0]?.getD .undefined = .cell cell := by
  unfold readCell at hr
  cases ho : heap.objects h with
  | error e => simp [ho, bind, Except.bind] at hr
  | ok nodes =>
    simp only [ho, bind, Except.bind] at hr
    refine ⟨nodes, objects_eq_ok.mp ho, ?_⟩
    split at hr
    · rename_i c hc
      obtain rfl := Except.ok.inj hr
      exact hc
    · simp at hr

theorem Closed.backs_cell (hc : heap.Closed) {cell : Cell} (hr : heap.readCell h = .ok cell) :
    heap.Backs (.cell cell) := by
  obtain ⟨nodes, hp, hn⟩ := readCell_eq_ok hr
  rw [← hn]
  exact hc.backs_getElem? hp 0

theorem Backs.next {cell : Cell} {next : Handle} (hb : heap.Backs (.cell cell))
    (hn : cell.next = some next) : heap.Live next :=
  hb next (by simp [Node.references, hn])

theorem clean_cellValue (cell : Cell) (hb : heap.Backs (.cell cell)) : Clean (heap.cellValue cell) := by
  unfold cellValue
  split
  · exact trivial
  · rename_i box hbox
    refine clean_unbox _ (backs_ref.mpr (hb box ?_))
    simp [Node.references, hbox, Head.references]

theorem clean_firstCell (list : Node) (hb : heap.Backs list) : Clean (heap.firstCell list) := by
  cases list with
  | pointer target =>
    cases target with
    | none => exact trivial
    | some target => exact (clean_map _ _).mpr (clean_readCell (backs_ref.mp hb))
  | undefined | scalar | string | closure | cell => exact id

theorem firstCell_eq_none {list : Node} (hf : heap.firstCell list = .ok none) :
    list = .emptyList := by
  cases list with
  | pointer target =>
    cases target with
    | none => rfl
    | some target => cases hr : heap.readCell target <;> simp [firstCell, hr, Except.map] at hf
  | undefined | scalar | string | closure | cell => simp [firstCell] at hf

theorem firstCell_eq_some {list : Node} {first : Handle} {cell : Cell}
    (hf : heap.firstCell list = .ok (some (first, cell))) :
    list = .ref first ∧ heap.readCell first = .ok cell := by
  cases list with
  | pointer target =>
    cases target with
    | none => simp [firstCell] at hf
    | some target =>
      unfold firstCell at hf
      cases hr : heap.readCell target with
      | error e => simp [hr, Except.map] at hf
      | ok c =>
        simp only [hr, Except.map, Except.ok.injEq, Option.some.injEq, Prod.mk.injEq] at hf
        obtain ⟨rfl, rfl⟩ := hf
        exact ⟨rfl, hr⟩
  | undefined | scalar | string | closure | cell => simp [firstCell] at hf

theorem clean_car (hc : heap.Closed) (list : Node) (hb : heap.Backs list) : Clean (heap.car list) := by
  refine clean_bind _ _ (clean_firstCell list hb) fun first hf => ?_
  cases first with
  | none => exact id
  | some p => exact clean_cellValue p.2 (hc.backs_cell (firstCell_eq_some hf).2)

theorem clean_cdr (list : Node) (hb : heap.Backs list) : Clean (heap.cdr list) := by
  refine clean_bind _ _ (clean_firstCell list hb) fun first _ => ?_
  cases first <;> simp [RuntimeError.IsDangling]

/-- A walk along a chain that starts at an allocation never leaves the heap. -/
theorem walk_clean (hc : heap.Closed) (visit : Handle → Cell → Except RuntimeError α)
    (hvisit : ∀ h cell, heap.readCell h = .ok cell → Clean (visit h cell)) (good : Handle → α → Prop)
    (hgood : ∀ h cell a, heap.Live h → visit h cell = .ok a → good h a) (steps : Nat) (hl : heap.Live h) :
    Walked (fun l => l ≠ [] ∧ ∀ a ∈ l, ∃ g, heap.Live g ∧ good g a) (¬ ·.IsDangling)
      (heap.walk visit steps h).run := by
  apply heap.walk_walked visit heap.Live
  · intro h e hl hr
    have hclean := clean_readCell hl
    rwa [hr] at hclean
  · intro h cell e _ hr hv
    have hclean := hvisit h cell hr
    rwa [hv] at hclean
  · intro h cell a hl _ hv
    exact ⟨h, hl, hgood h cell a hl hv⟩
  · intro h cell next _ hr hn
    exact (hc.backs_cell hr).next hn
  · exact hl

theorem walkList_clean (hc : heap.Closed) (visit : Handle → Cell → Except RuntimeError α)
    (hvisit : ∀ h cell, heap.readCell h = .ok cell → Clean (visit h cell)) (list : Node)
    (hb : heap.Backs list) :
    Walked (fun l => ∀ a ∈ l, True) (¬ ·.IsDangling) (heap.walkList visit list).run := by
  apply heap.walkList_walked visit _ (fun _ => True)
  · intro kind _
    exact id
  · intro h he
    subst he
    have hw := walk_clean hc visit hvisit (fun _ _ => True) (fun _ _ _ _ _ => trivial)
      heap.chainBound (backs_ref.mp hb)
    revert hw
    cases (heap.walk visit heap.chainBound h).run with
    | error why => exact id
    | ok r =>
      cases r with
      | error e => exact id
      | ok l => exact fun h => ⟨h.1, fun _ _ => trivial⟩

theorem lastCell_clean (hc : heap.Closed) (hl : heap.Live h) :
    Walked heap.Live (¬ ·.IsDangling) (heap.lastCell h).run := by
  apply heap.lastCell_walked
  have hw := walk_clean hc (fun h _ => .ok h) (fun _ _ _ => trivial) (fun g a => g = a)
    (fun h _ a _ ha => Except.ok.inj ha) heap.chainBound hl
  revert hw
  cases (heap.walk (fun h _ => .ok h) heap.chainBound h).run with
  | error why => exact id
  | ok r =>
    cases r with
    | error e => exact id
    | ok l =>
      intro hvisited
      obtain ⟨hne, hall⟩ := hvisited
      refine ⟨hne, fun a ha => ?_⟩
      obtain ⟨g, hg, rfl⟩ := hall a ha
      exact hg

theorem clean_captureCount (hl : heap.Live h) : Clean (heap.captureCount h) := by
  refine clean_bind _ _ (clean_objects hl) fun nodes _ => ?_
  dsimp only
  split
  · split <;> simp [RuntimeError.IsDangling]
  · simp [RuntimeError.IsDangling]

end Heap

namespace Dump

variable {heap : Heap}

/-- What a line leads to is backed like the line itself. -/
def Good (heap : Heap) : Except RuntimeError Line → Prop
  | .ok l => ∀ e ∈ l.children, heap.Backs e.node
  | .error e => ¬ e.IsDangling

theorem showAllocation_good (hc : heap.Closed) (seen : List Handle) (h : Handle) (depth skip : Nat)
    (text : Nat → String) (hl : heap.Live h) : Good heap (showAllocation heap seen h depth skip text) := by
  unfold showAllocation
  split
  · simp [Good]
  · have hclean := Heap.clean_objects hl
    cases ho : heap.objects h with
    | error e =>
      rw [ho] at hclean
      exact hclean
    | ok nodes =>
      intro e he
      simp only [List.mem_map] at he
      obtain ⟨node, hnode, rfl⟩ := he
      exact hc.backs (Heap.objects_eq_ok.mp ho) node (by simpa using List.mem_of_mem_drop hnode)

theorem followLink_good (hc : heap.Closed) (seen : List Handle) (depth : Nat) (next : Option Handle)
    (hn : ∀ h, next = some h → heap.Live h) :
    match followLink heap seen depth next with
    | .ok r => ∀ e ∈ r.1, heap.Backs e.node
    | .error e => ¬ e.IsDangling := by
  cases next with
  | none => simp [followLink]
  | some h =>
    have hl := hn h rfl
    unfold followLink
    by_cases hs : h ∈ seen
    · simp only [hs, if_true]
      intro e he
      obtain rfl := List.mem_singleton.mp he
      exact Heap.backs_ref.mpr hl
    · simp only [hs, if_false]
      have hclean := Heap.clean_readCell hl
      cases hr : heap.readCell h with
      | error e =>
        rw [hr] at hclean
        exact hclean
      | ok cell =>
        intro e he
        obtain rfl := List.mem_singleton.mp he
        exact hc.backs_cell hr

theorem line_good (hc : heap.Closed) (seen : List Handle) (entry : Entry) (hb : heap.Backs entry.node) :
    Good heap (line heap seen entry) := by
  unfold line
  split
  · simp [Good]
  · simp [Good]
  · simp [Good]
  · rename_i target hn
    rw [hn] at hb
    exact showAllocation_good hc seen target _ _ _ (Heap.backs_ref.mp hb)
  · rename_i length handle hn
    rw [hn] at hb
    have hclean := Heap.clean_stringText _ hb
    cases ht : heap.stringText (.string length handle) with
    | error e =>
      rw [ht] at hclean
      exact hclean
    | ok text =>
      intro e he
      simp at he
  · rename_i flavour code captures hn
    rw [hn] at hb
    exact showAllocation_good hc seen captures _ _ _ (hb captures (by simp [Node.references]))
  · rename_i cell hn
    rw [hn] at hb
    have hfollow := followLink_good hc seen entry.depth cell.next fun h hh => hb.next hh
    cases hf : followLink heap seen entry.depth cell.next with
    | error e =>
      rw [hf] at hfollow
      exact hfollow
    | ok r =>
      rw [hf] at hfollow
      intro e he
      rcases List.mem_append.mp he with hnext | hbox
      · exact hfollow e hnext
      · cases hh : cell.head with
        | scalar value => simp [showBox, hh] at hbox
        | boxed box =>
          simp only [showBox, hh, List.mem_singleton] at hbox
          subst hbox
          exact Heap.backs_ref.mpr (hb box (by simp [Node.references, hh, Head.references]))

/-- A dump of backed values meets no handle that stands for nothing. -/
theorem walk_clean (hc : heap.Closed) (seen : List Handle) (pending : List Entry)
    (hb : ∀ e ∈ pending, heap.Backs e.node) : Clean (walk heap seen pending) := by
  induction seen, pending using walk.induct heap with
  | case1 seen =>
    rw [walk]
    exact trivial
  | case2 seen entry pending why hl =>
    have hgood := line_good hc seen entry (hb entry List.mem_cons_self)
    rw [walk]
    split
    · rename_i why' hl'
      rw [hl'] at hgood
      exact hgood
    · rename_i l hl'
      rw [hl] at hl'
      simp at hl'
  | case3 seen entry pending l hl _ ih =>
    have hgood := line_good hc seen entry (hb entry List.mem_cons_self)
    rw [walk]
    split
    · rename_i why hl'
      rw [hl] at hl'
      simp at hl'
    · rename_i l' hl'
      rw [hl] at hl' hgood
      obtain rfl := Except.ok.inj hl'
      rw [clean_map]
      apply ih
      intro e he
      rcases List.mem_append.mp he with hchild | hrest
      · exact hgood e hchild
      · exact hb e (List.mem_cons_of_mem _ hrest)

end Dump

theorem Heap.clean_describe {heap : Heap} (hc : heap.Closed) (node : Node) (hb : heap.Backs node) :
    Clean (heap.describe node) :=
  (clean_map _ _).mpr (Dump.walk_clean hc _ _ fun e he => by
    obtain rfl := List.mem_singleton.mp he
    exact hb)

end GenerationalHeap
