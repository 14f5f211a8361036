-- With the whole library come the equations of the state monad by which runs on fixed inputs are evaluated.
import Mathlib
import GenerationalHeap.Proofs.Scripts
import GenerationalHeap.Proofs.Tracing

namespace GenerationalHeap

/-- What a running program does with its memory: an operation, the printing of a value, the start
and the end of a call, the start and the end of a section without collections. -/
inductive Event
  | act (action : Action Operands.resolved)
  | print (ending : String) (node : Node) (writer : Writer)
  | call (closure : Node) (args : List Node)
  | leave (activation : Mutator.Activation)
  | inhibit
  | permit

open Mutator in
def Event.run : Event → Mutator Unit
  | .act action => action.run >>= fun _ => pure ()
  | .print ending node writer => read fun ctx =>
    (ctx.heap.printWith ending node writer).1.map fun _ => ()
  | .call closure args => do
    let _ ← enter closure
    pushAll args
  | .leave activation => Mutator.leave activation
  | .inhibit => beginInhibit
  | .permit => endInhibit

/-- An operation that an event stands for, run as that event. -/
theorem Event.run_eq_ok {α : Type} {event : Event} {m : Mutator α} {a c : Context}
    {r : Except RuntimeError α} (hev : event.run = m >>= fun _ => pure ())
    (hm : m.run.run a = .ok (r, c)) : event.run.run.run a = .ok (r.map fun _ => (), c) := by
  rw [hev, Mutator.run_bind, hm]
  cases r <;> rfl

/-- The start of a call, up to its code, as one event. -/
theorem Event.run_call {a a₁ a₂ : Context} {closure : Node} {args : List Node}
    {activation : Mutator.Activation} {r : Except RuntimeError Unit}
    (henter : (Mutator.enter closure).run.run a = .ok (.ok activation, a₁))
    (hpush : (Mutator.pushAll args).run.run a₁ = .ok (r, a₂)) :
    (Event.call closure args).run.run.run a = .ok (r, a₂) := by
  rw [Event.run, Mutator.run_bind, henter]
  exact hpush

/-- The context that a sequence of events leaves; a fault ends it where it stands. -/
def Context.after (ctx : Context) : List Event → Context
  | [] => ctx
  | event :: events =>
    match event.run.run.run ctx with
    | .ok (_, c) => c.after events
    | .error _ => ctx

/-- Contexts that a program can bring about from a new one. An event that fails leaves its context
behind; a fault leaves none. -/
inductive Reachable (config : Config) : Context → Prop
  | start {ctx : Context} : Context.ofConfig config = .ok ctx → Reachable config ctx
  | step {ctx ctx' : Context} {r : Except RuntimeError Unit} (event : Event) :
      Reachable config ctx → event.run.run.run ctx = .ok (r, ctx') → Reachable config ctx'

namespace Mutator

theorem run_enter (ctx : Context) (flavour : Flavour) (code : Nat) (captures : Handle) :
    (enter (.closure flavour code captures)).run.run ctx =
      match ctx.heap.captureCount captures with
      | .error e => .ok (.error e, ctx)
      | .ok _ => .ok (.ok ⟨flavour, code, ctx.stack.pushFrame.1⟩, { ctx with
          stack := ctx.stack.pushFrame.2
          captures := captures :: ctx.captures }) := by
  rw [enter, run_bind, run_read]
  cases ctx.heap.captureCount captures <;> rfl

theorem traced_enter (closure : Node) : (enter closure).Traced 0 := by
  cases closure with
  | closure flavour code captures =>
    intro ctx hw
    unfold Ends
    rw [run_enter]
    cases hc : ctx.heap.captureCount captures with
    | error e => exact ⟨0, Nat.le_refl 0, .refl ctx⟩
    | ok n =>
      have hframe := Move.stack ctx [] ctx.stack.pushFrame.2 (ValueStack.turn_pushFrame ctx.stack)
      have hroot := Move.enter { ctx with stack := ctx.stack.pushFrame.2 } captures n hc
      exact ⟨0, Nat.le_refl 0, hframe.once.trans hroot.once⟩
  | undefined | pointer | scalar | string | cell => exact traced_ofExcept _

theorem traced_pushAll (nodes : List Node) : (pushAll nodes).Traced 0 := by
  induction nodes with
  | nil => exact traced_pure ()
  | cons node nodes ih => exact (traced_push node).bind fun _ => ih

theorem traced_leave (activation : Activation) : (leave activation).Traced 0 :=
  Traced.bind (n := 0) (k := 0) (traced_of_move fun ctx => .inr (.leave ctx)) fun _ =>
    traced_popFrame activation.frame

end Mutator

open Mutator in
theorem Event.traced (event : Event) : event.run.Traced 2 := by
  cases event with
  | act action => exact action.traced.bind fun _ => traced_pure ()
  | print ending node writer => exact (traced_read _).mono (by omega)
  | call closure args =>
    exact ((traced_enter closure).bind fun _ => traced_pushAll args).mono (by omega)
  | leave activation => exact (traced_leave activation).mono (by omega)
  | inhibit =>
    apply Traced.mono (n := 0) _ (by omega)
    exact traced_of_move fun ctx => .inr (.inhibit ctx (ctx.inhibitDepth + 1))
  | permit =>
    apply Traced.mono (n := 0) _ (by omega)
    exact traced_of_move fun ctx => .inr (.inhibit ctx (ctx.inhibitDepth - 1))

/-- A new arena is empty, and its mapping, in pages of any size, holds all of its capacity. -/
theorem Arena.reserve_of_pages {k : Nat} (hk : k ≤ 64) {capacity : Nat} {arena : Arena}
    (h : Arena.reserve capacity (2 ^ k) = .ok arena) :
    arena.used = 0 ∧ arena.blocks = #[] ∧ arena.capacity = capacity ∧
      arena.capacity ≤ arena.mapped ∧ arena.mapped < Word.span := by
  unfold Arena.reserve mappedLength at h
  by_cases hz : capacity = 0
  · rw [if_pos hz] at h
    obtain rfl := Except.ok.inj h
    exact ⟨rfl, rfl, hz.symm, Nat.le_refl 0, by decide⟩
  · rw [if_neg hz, if_neg hz] at h
    cases hr : roundToPages capacity (2 ^ k) with
    | none => simp [hr, Except.map] at h
    | some mapped =>
      simp only [hr, Except.map, Except.ok.injEq] at h
      obtain rfl := h
      have hbounds := Word.roundUp?_bounds k capacity mapped hk hr
      exact ⟨rfl, rfl, rfl, hbounds.1, hbounds.2⟩

theorem Arena.reserve_eq_ok (capacity : Nat) (arena : Arena) (h : Arena.reserve capacity = .ok arena) :
    arena.used = 0 ∧ arena.blocks = #[] ∧ arena.capacity = capacity ∧
      arena.capacity ≤ arena.mapped ∧ arena.mapped < Word.span :=
  Arena.reserve_of_pages (k := 12) (by decide) h

theorem Context.ofConfig_eq_ok {config : Config} {page : Nat} {ctx : Context}
    (h : Context.ofConfig config page = .ok ctx) :
    ∃ arena, Arena.reserve config.arenaBytes page = .ok arena ∧
      ctx = { config, heap := { arena }, stack := ValueStack.ofCapacity config.stackSlots } := by
  unfold Context.ofConfig at h
  cases ha : Arena.reserve config.arenaBytes page with
  | error why => simp [ha] at h
  | ok arena =>
    simp only [ha, Except.ok.injEq] at h
    exact ⟨arena, rfl, h.symm⟩

theorem wellFormed_of_pages {k : Nat} (hk : k ≤ 64) {config : Config} {ctx : Context}
    (h : Context.ofConfig config (2 ^ k) = .ok ctx) : ctx.heap.WellFormed := by
  obtain ⟨arena, ha, rfl⟩ := Context.ofConfig_eq_ok h
  obtain ⟨hused, hblocks, _, hcap, hmapped⟩ := Arena.reserve_of_pages hk ha
  have hvacant : ∀ i, ({} : SlotTable).blockAt? i = none := fun i => by simp [SlotTable.blockAt?]
  constructor
  · exact SlotTable.sound_empty
  · intro i b hb
    simp [hvacant] at hb
  · simp [hblocks, hused, SlotTable.Tiled]
  · simp [hused]
  · exact hcap
  · exact hmapped
  · simp [hblocks]
  · intro i
    simp [hblocks, SlotTable.placeAt?, hvacant]
  · simp
  · intro i
    simp [SlotTable.placeAt?, hvacant]
  · rfl

theorem wellFormed_ofConfig {config : Config} {ctx : Context}
    (h : Context.ofConfig config = .ok ctx) : ctx.heap.WellFormed :=
  wellFormed_of_pages (k := 12) (by decide) h

/-- What every elementary change of a well-formed heap keeps, every event keeps. -/
theorem Event.invariant {P : Context → Prop}
    (hmove : ∀ n a b, Move n a b → a.heap.WellFormed → P a → P b) {event : Event} {a c : Context}
    {r : Except RuntimeError Unit} (hrun : event.run.run.run a = .ok (r, c))
    (ha : a.heap.WellFormed ∧ P a) : c.heap.WellFormed ∧ P c := by
  obtain ⟨k, _, hmoves⟩ := Mutator.ends_of_ok (event.traced _ ha.1) hrun
  apply hmoves.invariant (P := fun c => c.heap.WellFormed ∧ P c) _ ha
  intro n a b hm ha
  exact ⟨hm.wellFormed ha.1, hmove n a b hm ha.1 ha.2⟩

/-- What every elementary change of a well-formed heap keeps, every sequence of events keeps. -/
theorem Context.after_invariant {P : Context → Prop}
    (hmove : ∀ n a b, Move n a b → a.heap.WellFormed → P a → P b) {ctx : Context}
    (h : ctx.heap.WellFormed ∧ P ctx) (events : List Event) :
    (ctx.after events).heap.WellFormed ∧ P (ctx.after events) := by
  induction events generalizing ctx with
  | nil => exact h
  | cons event events ih =>
    unfold Context.after
    cases hrun : event.run.run.run ctx with
    | error why => exact h
    | ok p => exact ih (Event.invariant hmove hrun h)

/-- What holds of every new context and is kept by every elementary change of a well-formed heap holds
of every reachable context. -/
theorem Reachable.invariant {config : Config} {P : Context → Prop}
    (hstart : ∀ ctx, Context.ofConfig config = .ok ctx → P ctx)
    (hmove : ∀ n a b, Move n a b → a.heap.WellFormed → P a → P b) {ctx : Context}
    (h : Reachable config ctx) : ctx.heap.WellFormed ∧ P ctx := by
  induction h with
  | start hc => exact ⟨wellFormed_ofConfig hc, hstart _ hc⟩
  | step event _ hrun ih => exact Event.invariant hmove hrun ih

theorem Reachable.wellFormed {config : Config} {ctx : Context} (h : Reachable config ctx) :
    ctx.heap.WellFormed :=
  (h.invariant (P := fun _ => True) (fun _ _ => trivial) (fun _ _ _ _ _ _ => trivial)).1

theorem Reachable.tidy {config : Config} {ctx : Context} (h : Reachable config ctx) :
    ctx.stack.Tidy := by
  apply (h.invariant (P := fun c => c.stack.Tidy) ?_ fun _ _ _ hm _ ht => hm.tidy ht).2
  intro c hc
  obtain ⟨arena, _, rfl⟩ := Context.ofConfig_eq_ok hc
  exact ValueStack.tidy_ofCapacity config.stackSlots

theorem Reachable.after {config : Config} {ctx : Context} (h : Reachable config ctx)
    (events : List Event) : Reachable config (ctx.after events) := by
  induction events generalizing ctx with
  | nil => exact h
  | cons event events ih =>
    unfold Context.after
    cases hrun : event.run.run.run ctx with
    | error why => exact h
    | ok p => exact ih (.step event h hrun)

namespace Session

variable {α β : Type} {config : Config}

/-- A part of a script that leads from reachable contexts to reachable ones. -/
def Stays (config : Config) (m : SessionM α) : Prop :=
  ∀ s a s', Reachable config s.context → m.run s = .ok (a, s') → Reachable config s'.context

theorem Stays.bind {m : SessionM α} {f : α → SessionM β} (hm : Stays config m)
    (hf : ∀ a, Stays config (f a)) : Stays config (m >>= f) := by
  intro s b s' hs hrun
  obtain ⟨a, s₁, hfirst, hrest⟩ := run_bind_eq_ok hrun
  exact hf a s₁ b s' (hm s a s₁ hs hfirst) hrest

theorem stays_of_context {m : SessionM α}
    (h : ∀ s a s', m.run s = .ok (a, s') → s'.context = s.context) : Stays config m := by
  intro s a s' hs hrun
  rw [h s a s' hrun]
  exact hs

theorem stays_pure (a : α) : Stays config (pure a : SessionM α) :=
  stays_of_context fun s b s' h => by
    obtain ⟨_, rfl⟩ := Prod.mk.inj (Except.ok.inj h)
    rfl

theorem stays_get : Stays config (get : SessionM Session) :=
  stays_of_context fun s b s' h => by
    obtain ⟨_, rfl⟩ := Prod.mk.inj (Except.ok.inj h)
    rfl

theorem stays_onEnv (f : Env → Env) : Stays config (onEnv f) :=
  stays_of_context fun s b s' h => by
    obtain ⟨_, rfl⟩ := Prod.mk.inj (Except.ok.inj h)
    rfl

theorem stays_report (outcome : Outcome) (attachment : Attachment Report) :
    Stays config (report outcome attachment) :=
  stays_of_context fun s b s' h => by
    obtain ⟨_, rfl⟩ := Prod.mk.inj (Except.ok.inj h)
    rfl

theorem stays_conclude (options : Options) (outcome : Outcome) (attachment : Attachment Report) :
    Stays config (conclude options outcome attachment) := by
  have hreport : Stays config (report outcome attachment) := stays_report outcome attachment
  unfold conclude
  cases options.name with
  | none => exact (stays_pure ()).bind fun _ => hreport
  | some name =>
    cases outcome.binding? with
    | none => exact (stays_pure ()).bind fun _ => hreport
    | some binding => exact (stays_onEnv _).bind fun _ => hreport

/-- An operation that an event stands for. -/
theorem stays_onContext {m : Mutator α} (event : Event)
    (hev : event.run = m >>= fun _ => pure ()) : Stays config (onContext m) := by
  intro s r s' hs hrun
  obtain ⟨c, hc, rfl⟩ := onContext_eq_ok hrun
  exact .step event hs (Event.run_eq_ok hev hc)

theorem stays_runAction (action : Action Operands.written) (options : Options) :
    Stays config (runAction action options) := by
  refine stays_get.bind fun s => ?_
  cases action.resolve s.env with
  | error why => exact stays_report _ _
  | ok action => exact (stays_onContext (.act action) rfl).bind fun r => stays_conclude _ _ _

theorem stays_runPrint (node : NodeExpr) (ending : String) (writer : WriterExpr) (options : Options) :
    Stays config (runPrint node ending writer options) := by
  refine stays_get.bind fun s => ?_
  cases (do return (← node.eval s.env, ← writer.eval s.env) : Except Refusal _) with
  | error why => exact stays_report _ _
  | ok p => exact stays_conclude _ _ _

theorem stays_callClosure {invoke : Invoke} (hinvoke : ∀ code, Stays config (invoke code))
    (closure : Node) (args : List Node) : Stays config (callClosure invoke closure args) := by
  intro s a s' hs hrun
  obtain ⟨entered, s₁, henter, hrest⟩ := run_bind_eq_ok hrun
  have hs₁ : Reachable config s₁.context :=
    stays_onContext (.call closure []) rfl s entered s₁ hs henter
  cases entered with
  | error why => exact stays_pure _ s₁ a s' hs₁ hrest
  | ok activation =>
    obtain ⟨passed, s₂, hpass, hcode⟩ := run_bind_eq_ok hrest
    -- The arguments are pushed by the event that entered the call, so the context after both is
    -- reached from the one before the call.
    have hs₂ : Reachable config s₂.context := by
      obtain ⟨c₁, hc₁, rfl⟩ := onContext_eq_ok henter
      obtain ⟨c₂, hc₂, rfl⟩ := onContext_eq_ok hpass
      exact .step (.call closure args) hs (Event.run_call hc₁ hc₂)
    have hleave : Stays config (onContext (Mutator.leave activation)) :=
      stays_onContext (.leave activation) (bind_pure _).symm
    cases passed with
    | error why => exact hleave.bind (fun _ => stays_pure _) s₂ a s' hs₂ hcode
    | ok _ =>
      exact (hinvoke activation.code).bind (fun _ => hleave.bind fun _ => stays_pure _)
        s₂ a s' hs₂ hcode

theorem stays_runCall {invoke : Invoke} (hinvoke : ∀ code, Stays config (invoke code))
    (closure : NodeExpr) (args : List NodeExpr) (options : Options) :
    Stays config (runCall invoke closure args options) := by
  refine stays_get.bind fun s => ?_
  dsimp only
  cases (do return (← closure.eval s.env, ← args.mapM (NodeExpr.eval s.env)) : Except Refusal _) with
  | error why => exact stays_report _ _
  | ok p => exact (stays_callClosure hinvoke p.1 p.2).bind fun r => stays_conclude _ _ _

theorem stays_compositional : Compositional (Stays config) where
  pure := stays_pure
  bind := Stays.bind
  get := stays_get
  round _ := stays_onEnv _
  report := stays_report
  inhibited hm hf := (stays_onContext .inhibit rfl).bind fun _ => hm.bind fun a =>
    (stays_onContext .permit rfl).bind fun _ => hf a
  act := stays_runAction
  print := stays_runPrint
  call := stays_runCall
  tooDeep := fun _ _ _ _ h => by cases h

/-- A script brings about reachable contexts only, the code of its closures included. -/
theorem runBlock_reachable (functions : List Function) (steps : List Step) {ctx : Context}
    (h : Context.ofConfig config = .ok ctx) {reports : List Report} {s : Session}
    (hrun : (runBlock (invoke functions callLimit) steps).run { context := ctx } = .ok (reports, s)) :
    Reachable config s.context :=
  stays_compositional.runBlock (stays_compositional.invoke functions callLimit) steps _ reports s
    (.start h) hrun

end Session

end GenerationalHeap
