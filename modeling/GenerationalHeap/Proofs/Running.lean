import GenerationalHeap.Session.Action

namespace GenerationalHeap

/-- A result that passes a check is there. -/
theorem exists_ok_of_any {ε α : Type} {r : Except ε α} {check : α → Bool}
    (h : r.toOption.any check = true) : ∃ a, r = .ok a ∧ check a = true := by
  cases r with
  | error e => simp [Except.toOption] at h
  | ok a => exact ⟨a, rfl, h⟩

namespace Mutator

variable {α β : Type}

/-- The outcome of an operation on a context: `done` holds of its answer or error and of the context
it leaves, or `broken` holds of its fault. -/
def Ends (m : Mutator α) (ctx : Context) (done : Except RuntimeError α → Context → Prop)
    (broken : Fault → Prop) : Prop :=
  match m.run.run ctx with
  | .ok (r, c) => done r c
  | .error why => broken why

theorem ends_of_ok {m : Mutator α} {ctx : Context} {done : Except RuntimeError α → Context → Prop}
    {broken : Fault → Prop} (he : m.Ends ctx done broken) {r : Except RuntimeError α} {c : Context}
    (h : m.run.run ctx = .ok (r, c)) : done r c := by
  unfold Ends at he
  rw [h] at he
  exact he

theorem ends_of_error {m : Mutator α} {ctx : Context} {done : Except RuntimeError α → Context → Prop}
    {broken : Fault → Prop} (he : m.Ends ctx done broken) {why : Fault}
    (h : m.run.run ctx = .error why) : broken why := by
  unfold Ends at he
  rw [h] at he
  exact he

theorem ends_mono {m : Mutator α} {ctx : Context} {done done' : Except RuntimeError α → Context → Prop}
    {broken broken' : Fault → Prop} (he : m.Ends ctx done broken)
    (hd : ∀ r c, done r c → done' r c) (hb : ∀ why, broken why → broken' why) :
    m.Ends ctx done' broken' := by
  unfold Ends at he ⊢
  split at he
  · exact hd _ _ he
  · exact hb _ he

/-- What is left to do after a first part: an error of the first part is handed on. -/
def After (f : α → Mutator β) (done : Except RuntimeError β → Context → Prop) (broken : Fault → Prop) :
    Except RuntimeError α → Context → Prop
  | .ok a, c => (f a).Ends c done broken
  | .error e, c => done (.error e) c

theorem run_bind (m : Mutator α) (f : α → Mutator β) (ctx : Context) :
    (m >>= f).run.run ctx =
      match m.run.run ctx with
      | .ok (.ok a, c) => (f a).run.run c
      | .ok (.error e, c) => .ok (.error e, c)
      | .error why => .error why := by
  rw [ExceptT.run_bind, StateT.run_bind]
  cases m.run.run ctx with
  | error why => rfl
  | ok p =>
    obtain ⟨r, c⟩ := p
    cases r <;> rfl

theorem ends_bind (m : Mutator α) (f : α → Mutator β) (ctx : Context)
    (done : Except RuntimeError β → Context → Prop) (broken : Fault → Prop) :
    (m >>= f).Ends ctx done broken ↔ m.Ends ctx (After f done broken) broken := by
  unfold Ends
  rw [run_bind]
  cases m.run.run ctx with
  | error why => rfl
  | ok p =>
    obtain ⟨r, c⟩ := p
    cases r <;> rfl

section Primitives

variable (ctx : Context)

@[simp] theorem run_get : (get : Mutator Context).run.run ctx = .ok (.ok ctx, ctx) := rfl

@[simp] theorem run_attempt (m : Mutator α) :
    (attempt m).run.run ctx = (m.run.run ctx).map fun p => (.ok p.1, p.2) := by
  have hb : (attempt m).run.run ctx = (m.run.run ctx).bind fun p => .ok (.ok p.1, p.2) := rfl
  rw [hb]
  cases m.run.run ctx <;> rfl

theorem run_map (f : α → β) (m : Mutator α) :
    (f <$> m).run.run ctx = (m.run.run ctx).map fun p => (p.1.map f, p.2) := by
  rw [← bind_pure_comp, run_bind]
  cases m.run.run ctx with
  | error why => rfl
  | ok p =>
    obtain ⟨r, c⟩ := p
    cases r <;> rfl

@[simp] theorem run_read (ask : Context → Except RuntimeError α) :
    (read ask).run.run ctx = .ok (ask ctx, ctx) := rfl

theorem run_onStack (f : ValueStack → Except RuntimeError (α × ValueStack)) :
    (onStack f).run.run ctx =
      match f ctx.stack with
      | .ok (a, stack) => .ok (.ok a, { ctx with stack })
      | .error e => .ok (.error e, ctx) := by
  rw [onStack, run_bind, run_read]
  cases f ctx.stack <;> rfl

theorem run_updateStack (f : ValueStack → Except RuntimeError ValueStack) :
    (updateStack f).run.run ctx =
      match f ctx.stack with
      | .ok stack => .ok (.ok (), { ctx with stack })
      | .error e => .ok (.error e, ctx) := by
  rw [updateStack, run_onStack]
  cases f ctx.stack <;> rfl

theorem run_popFrame (frame : Frame) :
    (popFrame frame).run.run ctx =
      match ctx.stack.popFrame frame with
      | .ok stack => .ok (.ok (), { ctx with stack })
      | .error why => .error why := by
  rw [popFrame, run_bind, run_get]
  simp only
  cases ctx.stack.popFrame frame <;> rfl

/-- A scratch frame begins where the stack stands and ends there, whatever becomes of the operation
in it. -/
theorem run_scratch (m : Mutator α) :
    (scratch m).run.run ctx =
      match m.run.run { ctx with stack := ctx.stack.pushFrame.2 } with
      | .ok (r, c) =>
        match c.stack.popFrame ctx.stack.pushFrame.1 with
        | .ok stack => .ok (r, { c with stack })
        | .error why => .error why
      | .error why => .error why := by
  have hframe : pushFrame.run.run ctx =
      .ok (.ok ctx.stack.pushFrame.1, { ctx with stack := ctx.stack.pushFrame.2 }) := rfl
  rw [scratch, run_bind, hframe]
  simp only
  rw [run_bind, run_attempt]
  cases m.run.run { ctx with stack := ctx.stack.pushFrame.2 } with
  | error why => rfl
  | ok p =>
    obtain ⟨r, c⟩ := p
    simp only [Except.map]
    rw [run_bind, run_popFrame]
    cases c.stack.popFrame ctx.stack.pushFrame.1 <;> rfl

theorem run_modifyObjects (h : Handle) (f : Array Node → Array Node) :
    (modifyObjects h f).run.run ctx =
      match ctx.heap.modifyObjects h f with
      | .ok heap => .ok (.ok (), { ctx with heap })
      | .error e => .ok (.error e, ctx) := by
  rw [modifyObjects, run_bind, run_read]
  cases ctx.heap.modifyObjects h f <;> rfl

theorem run_modifyBytes (h : Handle) (f : Array UInt8 → Array UInt8) :
    (modifyBytes h f).run.run ctx =
      match ctx.heap.modifyBytes h f with
      | .ok heap => .ok (.ok (), { ctx with heap })
      | .error e => .ok (.error e, ctx) := by
  rw [modifyBytes, run_bind, run_read]
  cases ctx.heap.modifyBytes h f <;> rfl

theorem run_unregisterRoot (id : RootId) :
    (unregisterRoot id).run.run ctx =
      match ctx.roots.unregister id with
      | .ok (node, roots) => .ok (.ok node, { ctx with roots })
      | .error e => .ok (.error e, ctx) := by
  rw [unregisterRoot, run_bind, run_read]
  cases ctx.roots.unregister id <;> rfl

theorem run_setRoot (id : RootId) (node : Node) :
    (setRoot id node).run.run ctx =
      match ctx.roots.set id node with
      | .ok roots => .ok (.ok (), { ctx with roots })
      | .error e => .ok (.error e, ctx) := by
  rw [setRoot, run_bind, run_read]
  cases ctx.roots.set id node <;> rfl

theorem run_collectWith (trigger : Trigger) :
    (collectWith trigger).run.run ctx =
      match ctx.collect trigger with
      | .ok (record, c) => .ok (.ok record, c)
      | .error why => .error why := by
  rw [collectWith, run_bind, run_get]
  simp only
  cases ctx.collect trigger with
  | error why => rfl
  | ok p => rfl

theorem run_checkpoint :
    checkpoint.run.run ctx =
      if ctx.inhibitDepth = 0 ∧ ctx.config.condition ctx.collectInfo then
        match ctx.collect .checkpoint with
        | .ok (record, c) => .ok (.ok (some record), c)
        | .error why => .error why
      else .ok (.ok none, ctx) := by
  rw [checkpoint, run_bind, run_get]
  simp only
  split
  · rw [run_bind, run_collectWith]
    cases ctx.collect .checkpoint <;> rfl
  · rfl

theorem run_readChain (ask : Heap → ChainReader α) :
    (readChain ask).run.run ctx =
      match (ask ctx.heap).run with
      | .ok r => .ok (r, ctx)
      | .error why => .error why := by
  rw [readChain, run_bind, run_get]
  simp only
  cases (ask ctx.heap).run <;> rfl

end Primitives

end Mutator

end GenerationalHeap
