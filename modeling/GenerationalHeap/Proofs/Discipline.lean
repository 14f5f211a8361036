import GenerationalHeap.Proofs.Unbroken

namespace GenerationalHeap

/-- The handles that an operation is given, by themselves or in values. -/
def Action.operands : Action Operands.resolved → List Handle
  | .push node | .writeLocal _ node | .registerRoot node | .setRoot _ node => Node.references node
  | .objects h | .getObject h _ | .bytes h _ _ | .setBytes h _ _ | .allocation h => [h]
  | .setObject h _ node => h :: Node.references node
  | .value node | .inspect node | .isA node _ | .stringBytes node | .stringText node | .toText node
  | .describe node | .boxValue node | .unbox node => Node.references node
  | .car list | .cdr list | .listElements list | .listLength list => Node.references list
  | .same a b | .append a b => Node.references a ++ Node.references b
  | .pop | .peek | .readLocal _ | .reserve _ | .drop _ | .pushFrame | .popFrame _ | .allocateBytes _
  | .allocateObjects _ | .collect | .checkpoint | .lastCollection | .collectInfo | .totals | .config
  | .arena | .unregisterRoot _ | .getRoot _ | .makeCaptures _ | .makeClosure _ _ _ | .capture _
  | .captureCount | .newString _ _ | .emptyList => []

def Event.operands : Event → List Handle
  | .act action => action.operands
  | .print _ node _ => node.references
  | .call closure args => closure.references ++ args.flatMap Node.references
  | .leave _ | .inhibit | .permit => []

namespace Mutator

variable {α : Type} {ctx : Context}

theorem keeps_silently {m : Mutator Unit} {P : Unit → Context → Prop} (hm : m.Keeps ctx P) :
    (silently m).Keeps ctx fun _ _ => True :=
  hm.bind fun _ _ hc _ => keeps_pure hc _ trivial

theorem keeps_ask (hu : ctx.Unbroken) (f : Context → Answer) : (ask f).Keeps ctx fun _ _ => True :=
  ⟨hu, trivial, fun _ _ => trivial⟩

theorem keeps_pushFrame (hu : ctx.Unbroken) : pushFrame.Keeps ctx fun _ _ => True :=
  (keeps_onStack hu (fun s => .ok s.pushFrame) [] trivial
    (fun a s h => by
      obtain rfl : ctx.stack.pushFrame.2 = s := congrArg Prod.snd (Except.ok.inj h)
      exact ValueStack.turn_pushFrame ctx.stack) (by simp)).mono fun _ _ _ => trivial

theorem keeps_getObject (hu : ctx.Unbroken) (h : Handle) (index : Nat) (hl : ctx.heap.Live h) :
    (getObject h index).Keeps ctx fun _ _ => True := by
  refine (keeps_read hu _ (Heap.clean_objects hl)).bind fun nodes c hc _ => ?_
  cases nodes[index]? <;> exact keeps_pure hc _ trivial

theorem keeps_setObject (hu : ctx.Unbroken) (h : Handle) (index : Nat) (node : Node)
    (hl : ctx.heap.Live h) (hb : ctx.heap.Backs node) :
    (setObject h index node).Keeps ctx fun _ _ => True := by
  refine (keeps_read hu _ (Heap.clean_objects hl)).bind ?_
  intro nodes c hc hread
  obtain ⟨_, rfl⟩ := hread
  by_cases hi : index < nodes.size
  · rw [if_pos hi]
    refine (keeps_modifyObjects hc _ hl fun nodes hp => ⟨by simp, fun a ha => ?_⟩).bind
      fun _ c' hc' _ => keeps_pure hc' _ trivial
    rcases Array.mem_or_eq_of_mem_setIfInBounds ha with hin | rfl
    · exact hc.closed.backs hp a hin
    · exact hb
  · rw [if_neg hi]
    exact keeps_pure hc _ trivial

theorem keeps_getBytes (hu : ctx.Unbroken) (h : Handle) (start length : Option Nat)
    (hl : ctx.heap.Live h) : (getBytes h start length).Keeps ctx fun _ _ => True := by
  refine (keeps_read hu _ (Heap.clean_bytes hl)).bind fun data c hc _ => ?_
  cases slice? data (start.getD 0) length <;> exact keeps_pure hc _ trivial

theorem keeps_setBytes (hu : ctx.Unbroken) (h : Handle) (start : Nat) (patch : Array UInt8)
    (hl : ctx.heap.Live h) : (setBytes h start patch).Keeps ctx fun _ _ => True := by
  refine (keeps_read hu _ (Heap.clean_bytes hl)).bind ?_
  intro data c hc hread
  obtain ⟨hd, rfl⟩ := hread
  by_cases hle : start + patch.size ≤ data.size
  · rw [if_pos hle]
    refine (keeps_modifyBytes hc _ hl fun data' hp => ?_).bind fun _ c' hc' _ => keeps_pure hc' _ trivial
    rw [Heap.bytes_eq_ok.mp hd] at hp
    simp only [Option.some.injEq, Payload.bytes.injEq] at hp
    subst hp
    exact size_overwrite data patch start hle
  · rw [if_neg hle]
    exact keeps_pure hc _ trivial

theorem keeps_modifyRoots (hu : ctx.Unbroken) (roots : RootRegistry)
    (hr : ∀ id node, roots.find? id = some node → ctx.heap.Backs node) :
    (modify fun ctx => { ctx with roots } : Mutator Unit).Keeps ctx fun _ _ => True :=
  ⟨⟨hu.heap, hu.tidy, hu.stack, hr, hu.captures, hu.closed⟩, trivial, fun _ _ => trivial⟩

theorem keeps_registerRoot (hu : ctx.Unbroken) (node : Node) (hb : ctx.heap.Backs node) :
    (registerRoot node).Keeps ctx fun _ _ => True := by
  refine ⟨⟨hu.heap, hu.tidy, hu.stack, fun id a ha => ?_, hu.captures, hu.closed⟩, trivial,
    fun _ _ => trivial⟩
  rcases ctx.roots.find?_register node id a ha with rfl | hf
  · exact hb
  · exact hu.roots id a hf

theorem keeps_unregisterRoot (hu : ctx.Unbroken) (id : RootId) :
    (unregisterRoot id).Keeps ctx fun _ _ => True := by
  refine (keeps_read hu (·.roots.unregister id) ?_).bind ?_
  · unfold RootRegistry.unregister
    split <;> simp [RuntimeError.IsDangling]
  · intro found c hc hread
    obtain ⟨node, roots⟩ := found
    obtain ⟨hun, rfl⟩ := hread
    refine (keeps_modifyRoots hc roots fun id' a ha => ?_).bind fun _ c' hc' _ => keeps_pure hc' _ trivial
    exact hc.roots id' a (c.roots.find?_unregister roots id node hun id' a ha)

theorem keeps_setRoot (hu : ctx.Unbroken) (id : RootId) (node : Node) (hb : ctx.heap.Backs node) :
    (setRoot id node).Keeps ctx fun _ _ => True := by
  refine (keeps_read hu (·.roots.set id node) ?_).bind ?_
  · unfold RootRegistry.set
    split <;> simp [RuntimeError.IsDangling]
  · intro roots c hc hread
    obtain ⟨hset, rfl⟩ := hread
    refine keeps_modifyRoots hc roots fun id' a ha => ?_
    rcases c.roots.find?_set roots id node hset id' a ha with rfl | hf
    · exact hb
    · exact hc.roots id' a hf

theorem activeCaptures_live (hu : ctx.Unbroken) (h : Handle) (ha : ctx.activeCaptures = .ok h) :
    ctx.heap.Live h := by
  unfold Context.activeCaptures at ha
  split at ha
  · rename_i block rest hc
    obtain rfl := Except.ok.inj ha
    exact hu.captures block (by simp [hc])
  · simp at ha

theorem clean_activeCaptures (ctx : Context) : Clean ctx.activeCaptures := by
  unfold Context.activeCaptures
  split <;> simp [RuntimeError.IsDangling]

theorem clean_captureCount (hu : ctx.Unbroken) : Clean ctx.captureCount :=
  clean_bind _ _ (clean_activeCaptures ctx) fun h ha =>
    Heap.clean_captureCount (activeCaptures_live hu h ha)

theorem clean_capture (hu : ctx.Unbroken) (index : Nat) : Clean (ctx.capture index) := by
  refine clean_bind _ _ (clean_activeCaptures ctx) fun h ha => ?_
  have hl := activeCaptures_live hu h ha
  refine clean_bind _ _ (Heap.clean_captureCount hl) fun count _ => ?_
  split
  · exact clean_bind _ _ (Heap.clean_objects hl) fun nodes _ => trivial
  · simp [RuntimeError.IsDangling]

theorem keeps_enter (hu : ctx.Unbroken) (closure : Node) (hb : ctx.heap.Backs closure) :
    (enter closure).Keeps ctx fun _ c => c.heap = ctx.heap := by
  cases closure with
  | closure flavour code captures =>
    have hl : ctx.heap.Live captures := hb captures (by simp [Node.references])
    have hclean := Heap.clean_captureCount hl
    unfold Keeps Ends
    rw [run_enter]
    cases hc : ctx.heap.captureCount captures with
    | error e =>
      rw [hc] at hclean
      exact ⟨hu, hclean, fun a ha => by simp at ha⟩
    | ok n =>
      have ht := hu.turn (ValueStack.turn_pushFrame ctx.stack) (by simp)
      refine ⟨⟨ht.heap, ht.tidy, ht.stack, ht.roots, ?_, ht.closed⟩, trivial, fun _ _ => rfl⟩
      exact List.forall_mem_cons.mpr ⟨hl, hu.captures⟩
  | undefined | pointer | scalar | string | cell =>
    exact ⟨hu, id, fun a ha => by cases ha⟩

theorem keeps_pushAll (nodes : List Node) (hu : ctx.Unbroken)
    (hb : ∀ node ∈ nodes, ctx.heap.Backs node) : (pushAll nodes).Keeps ctx fun _ _ => True := by
  induction nodes generalizing ctx with
  | nil => exact keeps_pure hu _ trivial
  | cons node nodes ih =>
    refine (keeps_push hu node (hb node List.mem_cons_self)).bind ?_
    intro _ c hc hpushed
    obtain ⟨hheap, _, _⟩ := hpushed
    apply ih hc
    intro a ha
    rw [hheap]
    exact hb a (List.mem_cons_of_mem _ ha)

theorem keeps_leave (hu : ctx.Unbroken) (activation : Activation) :
    (leave activation).Keeps ctx fun _ _ => True := by
  have hout : (modify fun ctx => { ctx with captures := ctx.captures.tail } : Mutator Unit).Keeps ctx
      fun _ _ => True :=
    ⟨⟨hu.heap, hu.tidy, hu.stack, hu.roots, fun h hh => hu.captures h (List.mem_of_mem_tail hh),
      hu.closed⟩, trivial, fun _ _ => trivial⟩
  exact hout.bind fun _ c hc _ => keeps_popFrame hc activation.frame

end Mutator

open Mutator in
/-- Operations on operands that stand for allocations keep everything in order. -/
theorem Action.keeps (action : Action Operands.resolved) {ctx : Context} (hu : ctx.Unbroken)
    (ho : ∀ h ∈ action.operands, ctx.heap.Live h) : action.run.Keeps ctx fun _ _ => True := by
  cases action with
  | push node => exact keeps_silently (keeps_push hu node ho)
  | pop =>
    refine (keeps_onStack hu (·.pop) [] ?_ (fun a s h => ValueStack.turn_pop _ s a h) (by simp)).map _
    unfold ValueStack.pop
    split <;> simp [RuntimeError.IsDangling]
  | peek =>
    refine (keeps_read hu (·.stack.peek) ?_).map _
    unfold ValueStack.peek
    split <;> simp [RuntimeError.IsDangling]
  | readLocal index => exact (keeps_read hu (·.stack.readLocal index) (readLocal_clean _ index)).map _
  | writeLocal index node =>
    refine keeps_silently (keeps_updateStack hu (·.writeLocal index node) [node] ?_
      (fun s h => ValueStack.turn_writeLocal _ s index node h) (List.forall_mem_singleton.mpr ho))
    unfold ValueStack.writeLocal ValueStack.position
    split <;> simp [Except.map, RuntimeError.IsDangling]
  | reserve count =>
    refine keeps_silently (keeps_updateStack hu (·.reserve count) [] ?_
      (fun s h => ValueStack.turn_reserve _ s count h) (by simp))
    unfold ValueStack.reserve
    split
    · split <;> simp [RuntimeError.IsDangling]
    · simp [RuntimeError.IsDangling]
  | drop count =>
    refine keeps_silently (keeps_updateStack hu (·.drop count) [] ?_
      (fun s h => ValueStack.turn_drop _ s count h) (by simp))
    unfold ValueStack.drop
    split <;> simp [RuntimeError.IsDangling]
  | pushFrame => exact (keeps_pushFrame hu).map _
  | popFrame frame => exact keeps_silently (keeps_popFrame hu frame)
  | allocateBytes count | allocateObjects count => exact (keeps_allocate hu _ count).map _
  | objects h => exact (keeps_read hu _ (Heap.clean_objects (ho h List.mem_cons_self))).map _
  | getObject h index => exact keeps_getObject hu h index (ho h List.mem_cons_self)
  | setObject h index node =>
    exact keeps_setObject hu h index node (ho h List.mem_cons_self) fun g hg =>
      ho g (List.mem_cons_of_mem _ hg)
  | bytes h start length => exact keeps_getBytes hu h start length (ho h List.mem_cons_self)
  | setBytes h start data => exact keeps_setBytes hu h start data (ho h List.mem_cons_self)
  | collect => exact (keeps_collectWith hu .explicit).map _
  | checkpoint => exact (keeps_checkpoint hu).map _
  | lastCollection | collectInfo | totals | config | arena | allocation => exact keeps_ask hu _
  | registerRoot node => exact (keeps_registerRoot hu node ho).map _
  | unregisterRoot id => exact (keeps_unregisterRoot hu id).map _
  | setRoot id node => exact keeps_silently (keeps_setRoot hu id node ho)
  | getRoot id =>
    refine (keeps_read hu (·.roots.get id) ?_).map _
    unfold RootRegistry.get
    split <;> simp [RuntimeError.IsDangling]
  | makeCaptures slots => exact (keeps_makeCaptures hu slots).map _
  | makeClosure flavour code slots =>
    exact ((keeps_makeCaptures hu slots).bind fun h c hc _ =>
      keeps_pure (P := fun _ _ => True) hc (Node.closure flavour code h) trivial).map _
  | capture index => exact (keeps_read hu (·.capture index) (clean_capture hu index)).map _
  | captureCount => exact (keeps_read hu (·.captureCount) (clean_captureCount hu)).map _
  | value | inspect | same | isA | emptyList => exact keeps_pure hu _ trivial
  | newString text times => exact (keeps_newString hu _).map _
  | stringBytes node => exact (keeps_read hu _ (Heap.clean_stringBytes node ho)).map _
  | stringText node => exact (keeps_read hu _ (Heap.clean_stringText node ho)).map _
  | toText node => exact (keeps_toText hu node ho).map _
  | describe node => exact (keeps_read hu _ (Heap.clean_describe hu.closed node ho)).map _
  | boxValue node =>
    exact ((keeps_allocateBox hu node ho).bind fun h c hc _ =>
      keeps_pure (P := fun _ _ => True) hc (Node.ref h) trivial).map _
  | unbox node => exact (keeps_read hu _ (Heap.clean_unbox node ho)).map _
  | append list item =>
    exact (keeps_append hu list item (fun g hg => ho g (List.mem_append_left _ hg)) fun g hg =>
      ho g (List.mem_append_right _ hg)).map _
  | car list => exact (keeps_read hu _ (Heap.clean_car hu.closed list ho)).map _
  | cdr list => exact (keeps_read hu _ (Heap.clean_cdr list ho)).map _
  | listElements list =>
    exact (keeps_readChain hu _ _ (Heap.walkList_clean hu.closed _
      (fun _ cell hr => Heap.clean_cellValue cell (hu.closed.backs_cell hr)) list ho)).map _
  | listLength list =>
    exact (keeps_readChain hu _ (fun _ => True) ((Heap.walkList_clean hu.closed
      (fun _ _ => .ok ()) (fun _ _ _ => trivial) list ho).map _ fun _ _ => trivial)).map _

open Mutator in
theorem Event.keeps (event : Event) {ctx : Context} (hu : ctx.Unbroken)
    (ho : ∀ h ∈ event.operands, ctx.heap.Live h) : event.run.Keeps ctx fun _ _ => True := by
  cases event with
  | act action => exact (action.keeps hu ho).bind fun _ c hc _ => keeps_pure hc _ trivial
  | print ending node writer =>
    refine (keeps_read hu _ ?_).mono fun _ _ _ => trivial
    exact (clean_map _ _).mpr (Heap.clean_printWith ending node writer ho)
  | call closure args =>
    refine (keeps_enter hu closure fun h hh => ho h (List.mem_append_left _ hh)).bind ?_
    intro _ c hc hheap
    apply keeps_pushAll args hc
    intro node hn h hh
    rw [hheap]
    exact ho h (List.mem_append_right _ (List.mem_flatMap.mpr ⟨node, hn, hh⟩))
  | leave activation => exact keeps_leave hu activation
  | inhibit =>
    exact ⟨⟨hu.heap, hu.tidy, hu.stack, hu.roots, hu.captures, hu.closed⟩, trivial, fun _ _ => trivial⟩
  | permit =>
    exact ⟨⟨hu.heap, hu.tidy, hu.stack, hu.roots, hu.captures, hu.closed⟩, trivial, fun _ _ => trivial⟩

/-- Contexts of runs in which every operand stands for an allocation at the moment it is used. -/
inductive Disciplined (config : Config) : Context → Prop
  | start {ctx : Context} : Context.ofConfig config = .ok ctx → Disciplined config ctx
  | step {ctx ctx' : Context} {r : Except RuntimeError Unit} (event : Event) :
      Disciplined config ctx → (∀ h ∈ event.operands, ctx.heap.Live h) →
      event.run.run.run ctx = .ok (r, ctx') → Disciplined config ctx'

theorem Disciplined.unbroken {config : Config} {ctx : Context} (hd : Disciplined config ctx) :
    ctx.Unbroken := by
  induction hd with
  | start hc => exact Context.unbroken_ofConfig hc
  | step event _ ho hrun ih => exact (Mutator.ends_of_ok (event.keeps ih ho) hrun).1

/-- Whether a sequence of events meets only operands that stand for allocations. -/
def Context.minds (ctx : Context) : List Event → Bool
  | [] => true
  | event :: events =>
    event.operands.all ctx.heap.contains &&
      match event.run.run.run ctx with
      | .ok (_, c) => c.minds events
      | .error _ => true

theorem Disciplined.after {config : Config} {ctx : Context} (hd : Disciplined config ctx)
    (events : List Event) (hm : ctx.minds events = true) : Disciplined config (ctx.after events) := by
  induction events generalizing ctx with
  | nil => exact hd
  | cons event events ih =>
    unfold Context.minds at hm
    unfold Context.after
    cases hrun : event.run.run.run ctx with
    | error why => exact hd
    | ok p =>
      simp only [hrun, Bool.and_eq_true, List.all_eq_true] at hm
      exact ih (.step event hd hm.1 hrun) hm.2

/-- A program that uses only handles of live allocations never breaks the heap: all that is held
stays backed, a collection at any moment ends, and no event meets a handle that stands for nothing. -/
theorem disciplined_never_dangles {config : Config} {ctx : Context} (hd : Disciplined config ctx) :
    (∀ i, ∀ h ∈ (ctx.stack.slot i).references, ctx.heap.Live h) ∧
      (∀ id node, ctx.roots.find? id = some node → ∀ h ∈ node.references, ctx.heap.Live h) ∧
      (∀ h ∈ ctx.captures, ctx.heap.Live h) ∧
      (∀ h p, ctx.heap.payload? h = some p → ∀ g ∈ p.references, ctx.heap.Live g) ∧
      (∀ trigger, ∃ record c, ctx.collect trigger = .ok (record, c)) ∧
      ∀ (event : Event), (∀ h ∈ event.operands, ctx.heap.Live h) → ∀ x,
        event.run.run.run ctx ≠ .error (.danglingReference x) ∧
        ∀ c, event.run.run.run ctx ≠ .ok (.error (.danglingHandle x), c) := by
  have hu := hd.unbroken
  refine ⟨hu.stack, hu.roots, hu.captures, hu.closed, hu.collect_ok, ?_⟩
  intro event ho x
  have hkeeps := event.keeps hu ho
  constructor
  · intro hf
    exact Mutator.ends_of_error hkeeps hf trivial
  · intro c hf
    exact (Mutator.ends_of_ok hkeeps hf).2.1 trivial

/-- Every allocation of this run but the first has to collect. -/
theorem disciplined_never_dangles_full_arena :
    ∃ ctx, Disciplined { arenaBytes := 80, stackSlots := 8 } ctx ∧ ctx.totals.collections = 3 ∧
      (∀ h ∈ ctx.captures, ctx.heap.Live h) ∧ ctx.captures = [⟨1, 2⟩] := by
  have hstart : Disciplined { arenaBytes := 80, stackSlots := 8 } _ := .start rfl
  have hd := hstart.after [.act (.allocateObjects (1 : Nat)), .act (.push (Node.ref ⟨0, 1⟩)),
    .act (.append Node.emptyList (Node.ref ⟨0, 1⟩)), .act (.makeClosure .value 7 [(0 : Nat)]),
    .call (.closure .value 7 ⟨1, 2⟩) [.ref ⟨0, 1⟩]] (by cbv)
  have hsafe := disciplined_never_dangles hd
  exact ⟨_, hd, by cbv, hsafe.2.2.1, by cbv⟩

end GenerationalHeap
