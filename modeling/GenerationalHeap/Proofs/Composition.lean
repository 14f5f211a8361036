import GenerationalHeap.Proofs.Effects

namespace GenerationalHeap

namespace Mutator

variable {α β : Type} {R : Context → Context → Prop}

/-- The relation leads from whatever context an operation starts in to the one it leaves. -/
def Within (R : Context → Context → Prop) (m : Mutator α) : Prop :=
  ∀ ctx, m.Leaves ctx fun _ c => R ctx c

theorem Within.map {m : Mutator α} (hm : m.Within R) (f : α → β) : (f <$> m).Within R :=
  fun ctx => leaves_map (hm ctx) f

end Mutator

open Mutator in
/-- A relation that holds along every operation, since it holds along the steps operations are made of. -/
structure Stepwise (R : Context → Context → Prop) : Prop where
  refl : ∀ c, R c c
  trans : ∀ {a b c : Context}, R a b → R b c → R a c
  stack : ∀ (c : Context) (stack : ValueStack), R c { c with stack }
  captures : ∀ (c : Context) (captures : List Handle), R c { c with captures }
  write : ∀ (c : Context) (index : Nat) (payload : Payload),
    R c { c with heap := c.heap.setPayload index payload }
  allocate : ∀ (kind : PayloadKind) (count : Nat), (allocate kind count).Within R
  checkpoint : checkpoint.Within R

/-- Whether an event may change the registered roots. -/
def Event.changesRoots : Event → Bool
  | .act (.registerRoot _) | .act (.unregisterRoot _) | .act (.setRoot _ _) => true
  | _ => false

/-- Whether an event may do more than change stack, captures, roots and contents and allocate: it
collects on request, or begins or ends a section without collections. -/
def Event.governs : Event → Bool
  | .act .collect | .inhibit | .permit => true
  | _ => false

namespace Stepwise

open Mutator

variable {α β : Type} {R : Context → Context → Prop} (hR : Stepwise R)
include hR

theorem pure (x : α) : (pure x : Mutator α).Within R := fun ctx => leaves_pure x (hR.refl ctx)

theorem read (ask : Context → Except RuntimeError α) : (read ask).Within R :=
  fun ctx => leaves_read_same ask (hR.refl ctx)

theorem readChain (ask : Heap → ChainReader α) : (readChain ask).Within R :=
  fun ctx => leaves_readChain ask (hR.refl ctx)

theorem bind {m : Mutator α} {f : α → Mutator β} (hm : m.Within R) (hf : ∀ x, (f x).Within R) :
    (m >>= f).Within R := by
  intro ctx
  refine (hm ctx).bind (fun _ _ h => h) ?_
  intro x c hc
  exact (hf x c).mono fun _ _ h => hR.trans hc h

theorem silently {m : Mutator Unit} (hm : m.Within R) : (silently m).Within R :=
  hR.bind hm fun _ => hR.pure _

theorem onStack (f : ValueStack → Except RuntimeError (α × ValueStack)) : (onStack f).Within R :=
  fun ctx => leaves_onStack f (hR.refl ctx) fun _ s _ => hR.stack ctx s

theorem updateStack (f : ValueStack → Except RuntimeError ValueStack) : (updateStack f).Within R :=
  hR.onStack _

theorem popFrame (frame : Frame) : (popFrame frame).Within R :=
  fun ctx => leaves_popFrame frame fun s _ => hR.stack ctx s

theorem scratch {m : Mutator α} (hm : m.Within R) : (scratch m).Within R := by
  have hattempt : (attempt m).Within R := by
    intro ctx r c hrun
    rw [run_attempt] at hrun
    cases hm' : m.run.run ctx with
    | error why => simp [hm', Except.map] at hrun
    | ok p =>
      simp only [hm', Except.map, Except.ok.injEq, Prod.mk.injEq] at hrun
      obtain ⟨_, rfl⟩ := hrun
      exact hm ctx p.1 p.2 hm'
  refine hR.bind (hR.onStack _) fun frame => hR.bind hattempt fun result => ?_
  exact hR.bind (hR.popFrame frame) fun _ => hR.read fun _ => result

theorem modifyObjects (h : Handle) (f : Array Node → Array Node) : (modifyObjects h f).Within R :=
  fun ctx => leaves_modifyObjects h f (hR.refl ctx) fun _ _ => hR.write ctx _ _

theorem modifyBytes (h : Handle) (f : Array UInt8 → Array UInt8) : (modifyBytes h f).Within R :=
  fun ctx => leaves_modifyBytes h f (hR.refl ctx) fun _ _ => hR.write ctx _ _

theorem newString (text : String) : (newString text).Within R :=
  hR.bind (hR.allocate _ _) fun h => hR.bind (hR.modifyBytes h _) fun _ => hR.pure _

theorem toText (node : Node) : (toText node).Within R := by
  have hother : ∀ node, (Mutator.read (·.heap.render node) >>= Mutator.newString).Within R :=
    fun _ => hR.bind (hR.read _) hR.newString
  cases node with
  | string length handle => exact hR.pure _
  | undefined | pointer | scalar | closure | cell => exact hother _

theorem makeCaptures (slots : List Nat) : (makeCaptures slots).Within R :=
  hR.bind (hR.read _) fun _ => hR.bind (hR.allocate _ _) fun h =>
    hR.bind (hR.modifyObjects h _) fun _ => hR.pure _

theorem allocateBox (value : Node) : (allocateBox value).Within R := by
  apply hR.scratch
  refine hR.bind (hR.updateStack _) fun _ => hR.bind (hR.allocate _ _) fun h => ?_
  exact hR.bind (hR.modifyObjects h _) fun _ => hR.pure _

theorem makeHead (value : Node) : (makeHead value).Within R := by
  have hboxed : ∀ value, (do
      let box ← Mutator.allocateBox value
      push (.ref box)
      return Head.boxed box : Mutator Head).Within R := fun value =>
    hR.bind (hR.allocateBox value) fun _ => hR.bind (hR.updateStack _) fun _ => hR.pure _
  cases value with
  | scalar value => exact hR.pure _
  | undefined | pointer | string | closure | cell => exact hboxed _

theorem attach (list : Node) (first : Option (Handle × Cell)) (link : Handle) :
    (attach list first link).Within R := by
  cases first with
  | none => exact hR.pure _
  | some p =>
    have hlink : (linkLast p.1 link).Within R :=
      hR.bind (hR.readChain _) fun last => hR.modifyObjects last _
    exact hR.bind hlink fun _ => hR.pure _

theorem append (list value : Node) : (append list value).Within R := by
  refine hR.bind (hR.read _) fun first => hR.scratch ?_
  refine hR.bind (hR.updateStack _) fun _ => hR.bind (hR.updateStack _) fun _ => ?_
  refine hR.bind (hR.makeHead value) fun head => hR.bind (hR.allocate _ _) fun link => ?_
  exact hR.bind (hR.modifyObjects link _) fun _ => hR.attach list first link

theorem setObject (h : Handle) (index : Nat) (node : Node) : (setObject h index node).Within R := by
  refine hR.bind (hR.read _) fun nodes => ?_
  split
  · exact hR.bind (hR.modifyObjects h _) fun _ => hR.pure _
  · exact hR.pure _

theorem setBytes (h : Handle) (start : Nat) (patch : Array UInt8) : (setBytes h start patch).Within R := by
  refine hR.bind (hR.read _) fun data => ?_
  split
  · exact hR.bind (hR.modifyBytes h _) fun _ => hR.pure _
  · exact hR.pure _

theorem action (action : Action Operands.resolved) (hgoverns : (Event.act action).governs = false)
    (hroots : (Event.act action).changesRoots = false) : action.run.Within R := by
  cases action with
  | collect => simp [Event.governs] at hgoverns
  | registerRoot | unregisterRoot | setRoot => simp [Event.changesRoots] at hroots
  | push | writeLocal | reserve | drop => exact hR.silently (hR.updateStack _)
  | pop | pushFrame => exact (hR.onStack _).map _
  | popFrame frame => exact hR.silently (hR.popFrame frame)
  | allocateBytes count | allocateObjects count => exact (hR.allocate _ count).map _
  | getObject h index => exact fun ctx => leaves_getObject h index (hR.refl ctx)
  | bytes h start length => exact fun ctx => leaves_getBytes h start length (hR.refl ctx)
  | setObject h index node => exact hR.setObject h index node
  | setBytes h start data => exact hR.setBytes h start data
  | checkpoint => exact hR.checkpoint.map _
  | lastCollection | collectInfo | totals | config | arena | allocation =>
    exact fun ctx => leaves_pure _ (hR.refl ctx)
  | makeCaptures slots => exact (hR.makeCaptures slots).map _
  | makeClosure flavour code slots =>
    exact (hR.bind (hR.makeCaptures slots) fun _ => hR.pure _).map _
  | value | inspect | same | isA | emptyList => exact hR.pure _
  | newString text times => exact (hR.newString _).map _
  | toText node => exact (hR.toText node).map _
  | boxValue node => exact (hR.bind (hR.allocateBox node) fun _ => hR.pure _).map _
  | append list item => exact (hR.append list item).map _
  | listElements list | listLength list => exact (hR.readChain _).map _
  | peek | readLocal | objects | getRoot | capture | captureCount | stringBytes | stringText
  | describe | unbox | car | cdr => exact (hR.read _).map _

theorem enter (closure : Node) : (enter closure).Within R := by
  intro ctx
  refine (leaves_enter closure).mono ?_
  intro r c hentered
  rcases hentered with ⟨_, _, rfl⟩ | ⟨_, _, block, _, _, _, _, rfl⟩
  · exact hR.refl c
  · exact hR.trans (hR.stack ctx ctx.stack.pushFrame.2) (hR.captures _ (block :: ctx.captures))

theorem leave (activation : Activation) : (leave activation).Within R := by
  intro ctx
  refine (leaves_leave activation).mono ?_
  intro r c hleft
  obtain ⟨s, _, rfl⟩ := hleft
  exact hR.trans (hR.stack ctx s) (hR.captures _ ctx.captures.tail)

theorem pushAll (nodes : List Node) : (pushAll nodes).Within R := by
  induction nodes with
  | nil => exact hR.pure ()
  | cons node nodes ih => exact hR.bind (hR.updateStack _) fun _ => ih

/-- What holds along the steps of operations holds along events. -/
theorem event (event : Event) (hgoverns : event.governs = false)
    (hroots : event.changesRoots = false) : event.run.Within R := by
  cases event with
  | act action => exact hR.bind (hR.action action hgoverns hroots) fun _ => hR.pure ()
  | print ending node writer => exact hR.read _
  | call closure args => exact hR.bind (hR.enter closure) fun _ => hR.pushAll args
  | leave activation => exact hR.leave activation
  | inhibit | permit => simp [Event.governs] at hgoverns

omit hR in
theorem registerRoot (hset : ∀ (c : Context) (roots : RootRegistry), R c { c with roots }) (node : Node) :
    (registerRoot node).Within R := by
  intro ctx r c hrun
  obtain ⟨_, rfl⟩ := Prod.mk.inj (Except.ok.inj hrun)
  exact hset ctx _

theorem unregisterRoot (hset : ∀ (c : Context) (roots : RootRegistry), R c { c with roots })
    (id : RootId) : (unregisterRoot id).Within R := by
  refine hR.bind (hR.read _) fun p => hR.bind ?_ fun _ => hR.pure _
  exact fun ctx => leaves_modifyRoots p.2 (hset ctx p.2)

theorem setRoot (hset : ∀ (c : Context) (roots : RootRegistry), R c { c with roots }) (id : RootId)
    (node : Node) : (setRoot id node).Within R :=
  hR.bind (hR.read _) fun roots ctx => leaves_modifyRoots roots (hset ctx roots)

theorem rootAction (hset : ∀ (c : Context) (roots : RootRegistry), R c { c with roots })
    (action : Action Operands.resolved) (hroots : (Event.act action).changesRoots = true) :
    action.run.Within R := by
  cases action with
  | registerRoot node => exact (Stepwise.registerRoot hset node).map _
  | unregisterRoot id => exact (hR.unregisterRoot hset id).map _
  | setRoot id node => exact hR.silently (hR.setRoot hset id node)
  | _ => simp [Event.changesRoots] at hroots

/-- The same for a relation that holds along every change of the registered roots. -/
theorem event_of_roots (hset : ∀ (c : Context) (roots : RootRegistry), R c { c with roots })
    (event : Event) (hgoverns : event.governs = false) : event.run.Within R := by
  cases hroots : event.changesRoots with
  | false => exact hR.event event hgoverns hroots
  | true =>
    cases event with
    | act action => exact hR.bind (hR.rootAction hset action hroots) fun _ => hR.pure ()
    | print | call | leave | inhibit | permit => simp [Event.changesRoots] at hroots

end Stepwise

end GenerationalHeap
