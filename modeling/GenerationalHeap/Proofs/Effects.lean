import GenerationalHeap.Proofs.Discipline
import GenerationalHeap.Proofs.Retention

namespace GenerationalHeap

/-- The allocation that an action is told to write to. -/
def Action.target? : Action Operands.resolved → Option Handle
  | .setObject h _ _ | .setBytes h _ _ => some h
  | _ => none

/-- An action writes to its target; appending also writes to a cell of the list. -/
def Action.Touches (action : Action Operands.resolved) (h : Handle) (p : Payload) : Prop :=
  action.target? = some h ∨ (∃ list value, action = .append list value) ∧ p.firstIsCell = true

/-- What an operation with these operands has in hand: the roots and the operands. -/
def Context.Holds (ctx : Context) (operands : List Handle) (h : Handle) : Prop :=
  ctx.IsRoot h ∨ h ∈ operands

/-- What an action does. The captures of running closures stay, and so does all of the stack below the
current frame, unless the action ends a frame that begins further down. -/
structure Action.Effect (action : Action Operands.resolved) (a b : Context) : Prop where
  captures : b.captures = a.captures
  stack : ∀ t : ValueStack, t.Supports a.stack →
    (∀ frame, action = .popFrame frame → t.top ≤ frame.base ∧ frame.base ≤ frame.top) →
    t.Supports b.stack
  survives : a.Survives (a.Holds action.operands) action.Touches b

namespace Context

variable {a b : Context} {shelter : Handle → Prop} {touches : Handle → Payload → Prop}

/-- An operation that leaves the heap alone loses nothing. -/
theorem survives_of_heap_eq (hheap : b.heap = a.heap) (htotals : b.totals = a.totals)
    (hissued : b.issued = a.issued) : a.Survives shelter touches b := by
  refine ⟨by rw [htotals], ?_, ?_⟩
  · intro h p hp _
    exact ⟨p, by rw [hheap, hp], rfl, rfl, .inl rfl⟩
  · intro h hh
    exact .inl (hissued ▸ hh)

end Context

namespace Mutator

variable {α β : Type} {a : Context} {Q : Context → Prop}

theorem leaves_map {m : Mutator α} (hm : m.Leaves a fun _ b => Q b) (f : α → β) :
    (f <$> m).Leaves a fun _ b => Q b := by
  rw [← bind_pure_comp]
  exact hm.bind (fun _ _ h => h) fun x c h => leaves_pure (f x) h

theorem leaves_silently {m : Mutator Unit} (hm : m.Leaves a fun _ b => Q b) :
    (silently m).Leaves a fun _ b => Q b :=
  hm.bind (fun _ _ h => h) fun _ _ h => leaves_pure _ h

theorem leaves_read_same (ask : Context → Except RuntimeError α) (h : Q a) :
    (read ask).Leaves a fun _ b => Q b :=
  (leaves_read ask).mono fun _ _ hread => hread.2 ▸ h

theorem leaves_readChain (ask : Heap → ChainReader α) (h : Q a) :
    (readChain ask).Leaves a fun _ b => Q b := by
  intro r b hrun
  rw [run_readChain] at hrun
  cases hr : (ask a.heap).run with
  | error why => simp [hr] at hrun
  | ok found =>
    rw [hr] at hrun
    obtain ⟨_, rfl⟩ := Prod.mk.inj (Except.ok.inj hrun)
    exact h

theorem leaves_getObject (h : Handle) (index : Nat) (hsame : Q a) :
    (getObject h index).Leaves a fun _ b => Q b := by
  refine leaves_read_bind (fun e => hsame) fun nodes _ => ?_
  cases nodes[index]? <;> exact leaves_pure _ hsame

theorem leaves_getBytes (h : Handle) (start length : Option Nat) (hsame : Q a) :
    (getBytes h start length).Leaves a fun _ b => Q b := by
  refine leaves_read_bind (fun e => hsame) fun data _ => ?_
  cases slice? data (start.getD 0) length <;> exact leaves_pure _ hsame

theorem leaves_onStack (f : ValueStack → Except RuntimeError (α × ValueStack)) (hsame : Q a)
    (hf : ∀ x s, f a.stack = .ok (x, s) → Q { a with stack := s }) :
    (onStack f).Leaves a fun _ b => Q b := by
  intro r b hrun
  rw [run_onStack] at hrun
  cases hs : f a.stack with
  | error e =>
    rw [hs] at hrun
    obtain ⟨_, rfl⟩ := Prod.mk.inj (Except.ok.inj hrun)
    exact hsame
  | ok p =>
    rw [hs] at hrun
    obtain ⟨_, rfl⟩ := Prod.mk.inj (Except.ok.inj hrun)
    exact hf p.1 p.2 hs

theorem leaves_updateStack (f : ValueStack → Except RuntimeError ValueStack) (hsame : Q a)
    (hf : ∀ s, f a.stack = .ok s → Q { a with stack := s }) :
    (updateStack f).Leaves a fun _ b => Q b := by
  refine leaves_onStack _ hsame fun x s hs => hf s ?_
  cases hfs : f a.stack with
  | error e => simp [hfs, Except.map] at hs
  | ok s' =>
    simp only [hfs, Except.map, Except.ok.injEq, Prod.mk.injEq] at hs
    rw [hs.2]

theorem leaves_popFrame (frame : Frame)
    (hf : ∀ s, a.stack.popFrame frame = .ok s → Q { a with stack := s }) :
    (popFrame frame).Leaves a fun _ b => Q b := by
  intro r b hrun
  rw [run_popFrame] at hrun
  cases hs : a.stack.popFrame frame with
  | error why => simp [hs] at hrun
  | ok s =>
    rw [hs] at hrun
    obtain ⟨_, rfl⟩ := Prod.mk.inj (Except.ok.inj hrun)
    exact hf s hs

theorem leaves_modifyRoots (roots : RootRegistry) (h : Q { a with roots }) :
    (modify fun ctx => { ctx with roots } : Mutator Unit).Leaves a fun _ b => Q b := by
  intro r b hrun
  obtain ⟨_, rfl⟩ := Prod.mk.inj (Except.ok.inj hrun)
  exact h

theorem leaves_collectWith (trigger : Trigger)
    (h : ∀ record b, a.collect trigger = .ok (record, b) → Q b) :
    (collectWith trigger).Leaves a fun _ b => Q b := by
  intro r b hrun
  rw [run_collectWith] at hrun
  cases hc : a.collect trigger with
  | error why => simp [hc] at hrun
  | ok p =>
    rw [hc] at hrun
    obtain ⟨_, rfl⟩ := Prod.mk.inj (Except.ok.inj hrun)
    exact h p.1 p.2 hc

theorem leaves_checkpoint (hsame : Q a)
    (h : ∀ record b, a.collect .checkpoint = .ok (record, b) → Q b) :
    checkpoint.Leaves a fun _ b => Q b := by
  intro r b hrun
  rw [run_checkpoint] at hrun
  split at hrun
  · cases hc : a.collect .checkpoint with
    | error why => simp [hc] at hrun
    | ok p =>
      rw [hc] at hrun
      obtain ⟨_, rfl⟩ := Prod.mk.inj (Except.ok.inj hrun)
      exact h p.1 p.2 hc
  · obtain ⟨_, rfl⟩ := Prod.mk.inj (Except.ok.inj hrun)
    exact hsame

theorem leaves_modifyObjects (h : Handle) (f : Array Node → Array Node) (hsame : Q a)
    (hwrite : ∀ nodes, a.heap.payload? h = some (.objects nodes) →
      Q { a with heap := a.heap.setPayload h.index (.objects (f nodes)) }) :
    (modifyObjects h f).Leaves a fun _ b => Q b := by
  intro r b hrun
  rw [run_modifyObjects, Heap.modifyObjects] at hrun
  cases ho : a.heap.objects h with
  | error e =>
    rw [ho] at hrun
    obtain ⟨_, rfl⟩ := Prod.mk.inj (Except.ok.inj hrun)
    exact hsame
  | ok nodes =>
    rw [ho] at hrun
    obtain ⟨_, rfl⟩ := Prod.mk.inj (Except.ok.inj hrun)
    exact hwrite nodes (Heap.objects_eq_ok.mp ho)

theorem leaves_modifyBytes (h : Handle) (f : Array UInt8 → Array UInt8) (hsame : Q a)
    (hwrite : ∀ data, a.heap.payload? h = some (.bytes data) →
      Q { a with heap := a.heap.setPayload h.index (.bytes (f data)) }) :
    (modifyBytes h f).Leaves a fun _ b => Q b := by
  intro r b hrun
  rw [run_modifyBytes, Heap.modifyBytes] at hrun
  cases ho : a.heap.bytes h with
  | error e =>
    rw [ho] at hrun
    obtain ⟨_, rfl⟩ := Prod.mk.inj (Except.ok.inj hrun)
    exact hsame
  | ok data =>
    rw [ho] at hrun
    obtain ⟨_, rfl⟩ := Prod.mk.inj (Except.ok.inj hrun)
    exact hwrite data (Heap.bytes_eq_ok.mp ho)

end Mutator

namespace Action

variable {action : Action Operands.resolved} {a b : Context}

theorem Effect.refl (action : Action Operands.resolved) (a : Context) : action.Effect a a :=
  ⟨rfl, fun _ h _ => h, Context.survives_of_heap_eq rfl rfl rfl⟩

/-- An action inside the current frame. -/
theorem effect_stack {s : ValueStack} (h : ∀ t : ValueStack, t.Supports a.stack → t.Supports s) :
    action.Effect a { a with stack := s } :=
  ⟨rfl, fun t ht _ => h t ht, Context.survives_of_heap_eq rfl rfl rfl⟩

theorem effect_roots (roots : RootRegistry) : action.Effect a { a with roots } :=
  ⟨rfl, fun _ h _ => h, Context.survives_of_heap_eq rfl rfl rfl⟩

theorem effect_sheltered (hs : a.Sheltered (a.Holds action.operands) b) (hstack : b.stack = a.stack) :
    action.Effect a b :=
  ⟨hs.captures, fun _ ht _ => hstack ▸ ht, hs.survives⟩

theorem effect_collect (hops : action.operands = []) (hw : a.heap.WellFormed) {trigger : Trigger}
    {record : CollectionRecord} (hc : a.collect trigger = .ok (record, b)) : action.Effect a b := by
  have hs := Context.sheltered_refl hw (a.Holds action.operands)
  refine effect_sheltered (hs.collected ?_ (fun g hg => .inl hg) hc) (Context.collect_frame _ _ hc).1
  intro g hg
  simpa [Context.Holds, hops] using hg

theorem effect_write {h : Handle} {p q : Payload} (htarget : action.target? = some h)
    (hw : a.heap.WellFormed) (hp : a.heap.payload? h = some p) (hk : q.kind = p.kind)
    (hc : q.count = p.count) :
    action.Effect a { a with heap := a.heap.setPayload h.index q } :=
  ⟨rfl, fun _ ht _ => ht,
    (Context.sheltered_refl hw (a.Holds action.operands)).written hp hk hc (.inl htarget)⟩

open Mutator in
theorem allocate_effect (kind : PayloadKind) (count : Nat) (hops : action.operands = [])
    (hw : a.heap.WellFormed) : (allocate kind count).Leaves a fun _ b => action.Effect a b := by
  have hs := Context.sheltered_refl hw (a.Holds action.operands)
  refine (leaves_allocate kind count hs ?_ (fun g hg => .inl hg)).mono ?_
  · intro g hg
    simpa [Context.Holds, hops] using hg
  · intro r b hallocated
    rcases hallocated with ⟨_, _, rfl⟩ | ⟨h, _, hs', _, hstack, _⟩
    · exact .refl action b
    · exact effect_sheltered hs' hstack

open Mutator in
theorem setObject_effect (h : Handle) (index : Nat) (node : Node) (hw : a.heap.WellFormed) :
    (Mutator.setObject h index node).Leaves a fun _ b =>
      Effect (.setObject h index node) a b := by
  have hsame : Effect (.setObject h index node) a a := .refl _ a
  refine leaves_read_bind (fun e => hsame) fun nodes _ => ?_
  by_cases hi : index < nodes.size
  · rw [if_pos hi]
    refine (leaves_modifyObjects h _ hsame fun held hp => ?_).bind (fun _ _ hb => hb) fun _ _ hb =>
      leaves_pure _ hb
    exact effect_write rfl hw hp rfl (by simp [Payload.count])
  · rw [if_neg hi]
    exact leaves_pure _ hsame

open Mutator in
theorem setBytes_effect (h : Handle) (start : Nat) (patch : Array UInt8) (hw : a.heap.WellFormed) :
    (Mutator.setBytes h start patch).Leaves a fun _ b => Effect (.setBytes h start patch) a b := by
  have hsame : Effect (.setBytes h start patch) a a := .refl _ a
  refine leaves_read_bind (fun e => hsame) fun data hdata => ?_
  by_cases hle : start + patch.size ≤ data.size
  · rw [if_pos hle]
    refine (leaves_modifyBytes h _ hsame fun held hp => ?_).bind (fun _ _ hb => hb) fun _ _ hb =>
      leaves_pure _ hb
    have hheld : held = data := by
      simpa [Heap.bytes_eq_ok.mpr hp] using hdata
    exact effect_write rfl hw hp rfl (by rw [hheld]; exact size_overwrite data patch start hle)
  · rw [if_neg hle]
    exact leaves_pure _ hsame

open Mutator in
theorem append_effect (list value : Node) (hw : a.heap.WellFormed) (ht : a.stack.Tidy) :
    (Mutator.append list value).Leaves a fun _ b => Effect (.append list value) a b := by
  have hheld : ∀ g, a.Holds (list.references ++ value.references) g →
      a.IsRoot g ∨ g ∈ list.references ∨ g ∈ value.references := by
    intro g hg
    simpa [Context.Holds] using hg
  refine (append_survives list value hw ht hheld).mono ?_
  intro _ b hb
  obtain ⟨hstack, hcaptures, hs⟩ := hb
  refine ⟨hcaptures, fun _ h _ => hstack ▸ h, hs.collections_le, fun h p hp hg => ?_, hs.issued⟩
  obtain ⟨q, hq, hk, hc, hsame⟩ := hs.kept h p hp hg
  exact ⟨q, hq, hk, hc, hsame.imp id fun hcell => .inr ⟨⟨list, value, rfl⟩, hcell⟩⟩

open Mutator in
/-- What each action does, whatever its result. -/
theorem effect (action : Action Operands.resolved) (hw : a.heap.WellFormed) (ht : a.stack.Tidy) :
    action.run.Leaves a fun _ b => action.Effect a b := by
  have hsame := Effect.refl action a
  have hheld : action.operands = [] → ∀ g, a.Holds action.operands g → a.IsRoot g := by
    intro hops g hg
    simpa [Context.Holds, hops] using hg
  cases action with
  | push node =>
    exact leaves_silently (leaves_updateStack _ hsame fun s hs => effect_stack fun t h => h.push hs)
  | pop => exact leaves_map (leaves_onStack _ hsame fun x s hs => effect_stack fun t h => h.pop hs) _
  | writeLocal index node =>
    exact leaves_silently
      (leaves_updateStack _ hsame fun s hs => effect_stack fun t h => h.writeLocal hs)
  | reserve count =>
    exact leaves_silently (leaves_updateStack _ hsame fun s hs => effect_stack fun t h => h.reserve hs)
  | drop count =>
    exact leaves_silently (leaves_updateStack _ hsame fun s hs => effect_stack fun t h => h.drop hs)
  | pushFrame =>
    refine leaves_map (leaves_onStack _ hsame fun x s hs => effect_stack fun t h => ?_) _
    obtain rfl : a.stack.pushFrame.2 = s := congrArg Prod.snd (Except.ok.inj hs)
    exact h.pushFrame
  | popFrame frame =>
    refine leaves_silently (leaves_popFrame frame fun s hs => ?_)
    refine ⟨rfl, fun t h hown => ?_, Context.survives_of_heap_eq rfl rfl rfl⟩
    obtain ⟨hbase, hle⟩ := hown frame rfl
    exact h.popFrame hbase hle hs
  | allocateBytes count | allocateObjects count => exact leaves_map (allocate_effect _ count rfl hw) _
  | setObject h index node => exact setObject_effect h index node hw
  | setBytes h start data => exact setBytes_effect h start data hw
  | collect => exact leaves_map (leaves_collectWith _ fun record b hc => effect_collect rfl hw hc) _
  | checkpoint => exact leaves_map (leaves_checkpoint hsame fun record b hc => effect_collect rfl hw hc) _
  | registerRoot node =>
    refine leaves_map (fun r b hrun => ?_) _
    obtain ⟨_, rfl⟩ := Prod.mk.inj (Except.ok.inj hrun)
    exact effect_roots _
  | unregisterRoot id =>
    refine leaves_map (leaves_read_bind (fun e => hsame) fun x _ => ?_) _
    exact (leaves_modifyRoots x.2 (effect_roots x.2)).bind (fun _ _ hb => hb) fun _ _ hb => leaves_pure _ hb
  | setRoot id node =>
    refine leaves_silently (leaves_read_bind (fun e => hsame) fun roots _ => ?_)
    exact leaves_modifyRoots roots (effect_roots roots)
  | makeCaptures slots =>
    exact leaves_map ((makeCaptures_shelters slots hw (hheld rfl)).mono fun _ b hb =>
      effect_sheltered hb.1 hb.2) _
  | makeClosure flavour code slots =>
    refine leaves_map (((makeCaptures_shelters slots hw (hheld rfl)).mono fun _ b hb =>
      effect_sheltered hb.1 hb.2).bind (fun _ _ hb => hb) fun _ _ hb => leaves_pure _ hb) _
  | newString text times =>
    exact leaves_map ((newString_shelters _ hw (hheld rfl)).mono fun _ b hb =>
      effect_sheltered hb.1 hb.2) _
  | toText node =>
    exact leaves_map ((toText_shelters node hw fun _ hg => hg).mono fun _ b hb =>
      effect_sheltered hb.1 hb.2) _
  | boxValue node =>
    have hs := Context.sheltered_refl hw (a.Holds node.references)
    refine leaves_map (((allocateBox_shelters node hs ht (fun _ hg => hg) (List.Subset.refl _)).mono
      fun _ b hb => effect_sheltered hb.1 hb.2.1).bind (fun _ _ hb => hb) fun _ _ hb =>
        leaves_pure _ hb) _
  | append list value => exact leaves_map (append_effect list value hw ht) _
  | getObject h index => exact leaves_getObject h index hsame
  | bytes h start length => exact leaves_getBytes h start length hsame
  | lastCollection | collectInfo | totals | config | arena | allocation => exact leaves_pure _ hsame
  | value | inspect | same | isA | emptyList => exact leaves_pure _ hsame
  | listElements list | listLength list => exact leaves_map (leaves_readChain _ hsame) _
  | peek | readLocal | objects | getRoot | capture | captureCount | stringBytes | stringText
  | describe | unbox | car | cdr => exact leaves_map (leaves_read_same _ hsame) _

end Action

/-- The allocation that an event is told to write to. -/
def Event.target? : Event → Option Handle
  | .act action => action.target?
  | _ => none

def Event.Touches (event : Event) (h : Handle) (p : Payload) : Prop :=
  event.target? = some h ∨ (∃ list value, event = .act (.append list value)) ∧ p.firstIsCell = true

/-- Contents that an event is not told to write to stay as they are, lists apart. -/
theorem Context.Survives.intact {a b : Context} {shelter : Handle → Prop} {event : Event}
    (hs : a.Survives shelter event.Touches b) {h : Handle} {p : Payload} (hp : a.heap.payload? h = some p)
    (hsafe : b.totals.collections = a.totals.collections ∨ a.heap.slots.Reaches shelter h)
    (htarget : event.target? ≠ some h) (hcell : p.firstIsCell = false) : b.heap.payload? h = some p := by
  obtain ⟨q, hq, _, _, hcontents⟩ := hs.kept h p hp hsafe
  rcases hcontents with rfl | htouch | ⟨_, hfirst⟩
  · exact hq
  · exact absurd htouch htarget
  · simp [hcell] at hfirst

namespace Mutator

variable {a : Context}

/-- A call begins in a frame of its own with its captures rooted, or not at all. -/
theorem leaves_enter (closure : Node) : (enter closure).Leaves a fun r b =>
    (∃ e, r = .error e ∧ b = a) ∨
      ∃ flavour code block n, closure = .closure flavour code block ∧
        a.heap.captureCount block = .ok n ∧ r = .ok ⟨flavour, code, a.stack.pushFrame.1⟩ ∧
        b = { a with stack := a.stack.pushFrame.2, captures := block :: a.captures } := by
  intro r b hrun
  cases closure with
  | closure flavour code block =>
    rw [run_enter] at hrun
    cases hc : a.heap.captureCount block with
    | error e =>
      rw [hc] at hrun
      obtain ⟨rfl, rfl⟩ := Prod.mk.inj (Except.ok.inj hrun)
      exact .inl ⟨e, rfl, rfl⟩
    | ok n =>
      rw [hc] at hrun
      obtain ⟨rfl, rfl⟩ := Prod.mk.inj (Except.ok.inj hrun)
      exact .inr ⟨flavour, code, block, n, rfl, hc, rfl, rfl⟩
  | undefined | pointer | scalar | string | cell =>
    obtain ⟨rfl, rfl⟩ := Prod.mk.inj (Except.ok.inj hrun)
    exact .inl ⟨_, rfl, rfl⟩

/-- Arguments go on top of the stack, as far as there is room. -/
theorem leaves_pushAll (nodes : List Node) : (pushAll nodes).Leaves a fun _ b =>
    ∃ s, b = { a with stack := s } ∧ ∀ t : ValueStack, t.Supports a.stack → t.Supports s := by
  induction nodes generalizing a with
  | nil => exact leaves_pure _ ⟨a.stack, rfl, fun _ h => h⟩
  | cons node nodes ih =>
    refine leaves_push_bind node (fun e => ⟨a.stack, rfl, fun _ h => h⟩) ?_
    intro s hpush
    refine ih.mono ?_
    intro _ b hb
    obtain ⟨s', rfl, hs'⟩ := hb
    exact ⟨s', rfl, fun t h => hs' t (h.push hpush)⟩

theorem run_leave (activation : Activation) (a : Context) :
    (leave activation).run.run a =
      match a.stack.popFrame activation.frame with
      | .ok s => .ok (.ok (), { a with stack := s, captures := a.captures.tail })
      | .error why => .error why := by
  have hout : (modify fun ctx => { ctx with captures := ctx.captures.tail } : Mutator Unit).run.run a =
      .ok (.ok (), { a with captures := a.captures.tail }) := rfl
  rw [leave, run_bind, hout]
  refine (run_popFrame _ activation.frame).trans ?_
  cases a.stack.popFrame activation.frame <;> rfl

theorem leaves_leave (activation : Activation) : (leave activation).Leaves a fun _ b =>
    ∃ s, a.stack.popFrame activation.frame = .ok s ∧
      b = { a with stack := s, captures := a.captures.tail } := by
  intro r b hrun
  rw [run_leave] at hrun
  cases hs : a.stack.popFrame activation.frame with
  | error why => simp [hs] at hrun
  | ok s =>
    rw [hs] at hrun
    obtain ⟨_, rfl⟩ := Prod.mk.inj (Except.ok.inj hrun)
    exact ⟨s, rfl, rfl⟩

end Mutator

open Mutator in
/-- What each event leaves of the allocations it met. -/
theorem Event.survives (event : Event) {a : Context} (hw : a.heap.WellFormed) (ht : a.stack.Tidy) :
    event.run.Leaves a fun _ b => a.Survives (a.Holds event.operands) event.Touches b := by
  have hsame : ∀ b : Context, b.heap = a.heap → b.totals = a.totals → b.issued = a.issued →
      a.Survives (a.Holds event.operands) event.Touches b := fun _ => Context.survives_of_heap_eq
  cases event with
  | act action =>
    have hact : action.run.Leaves a fun _ b =>
        a.Survives (a.Holds action.operands) (Event.act action).Touches b := by
      refine (action.effect hw ht).mono fun _ b hb => ?_
      obtain ⟨hle, hkept, hissued⟩ := hb.survives
      refine ⟨hle, fun h p hp hg => ?_, hissued⟩
      obtain ⟨q, hq, hk, hc, hcontents⟩ := hkept h p hp hg
      refine ⟨q, hq, hk, hc, hcontents.imp id fun htouch => htouch.imp id fun hcell => ?_⟩
      obtain ⟨⟨list, value, rfl⟩, hfirst⟩ := hcell
      exact ⟨⟨list, value, rfl⟩, hfirst⟩
    exact hact.bind (fun _ _ hb => hb) fun _ _ hb => leaves_pure _ hb
  | print ending node writer => exact leaves_read_same _ (hsame a rfl rfl rfl)
  | call closure args =>
    refine (leaves_enter closure).bind ?_ ?_
    · intro e c hentered
      rcases hentered with ⟨_, _, rfl⟩ | ⟨_, _, _, _, _, _, he, _⟩
      · exact hsame c rfl rfl rfl
      · simp at he
    · intro activation c hentered
      rcases hentered with ⟨_, he, _⟩ | ⟨_, _, block, _, _, _, _, rfl⟩
      · simp at he
      · refine (leaves_pushAll args).mono fun _ b hb => ?_
        obtain ⟨s, rfl, _⟩ := hb
        exact hsame _ rfl rfl rfl
  | leave activation =>
    refine (leaves_leave activation).mono fun _ b hb => ?_
    obtain ⟨s, _, rfl⟩ := hb
    exact hsame _ rfl rfl rfl
  | inhibit | permit =>
    intro r b hrun
    obtain ⟨_, rfl⟩ := Prod.mk.inj (Except.ok.inj hrun)
    exact hsame _ rfl rfl rfl

end GenerationalHeap
