import GenerationalHeap.Proofs.Bodies

namespace GenerationalHeap

/-- Contents of a capture block: the values behind their number. -/
def Payload.captures (values : List Node) : Payload :=
  .objects (.integer (values.length : Nat) :: values).toArray

/-- Whether a value can be called: it is a closure, and its capture block is one. -/
def Heap.Callable (heap : Heap) (node : Node) : Prop :=
  ∃ flavour code block values, node = .closure flavour code block ∧
    heap.payload? block = some (.captures values)

/-- A count is accepted if it is the first slot's and that of the slots behind. -/
theorem Heap.captureCount_eq_ok {heap : Heap} {block : Handle} {n : Nat} :
    heap.captureCount block = .ok n ↔ ∃ values, values.length = n ∧
      heap.payload? block = some (.captures values) := by
  unfold captureCount Payload.captures
  cases ho : heap.objects block with
  | error e =>
    refine ⟨fun h => by simp [bind, Except.bind] at h, fun h => ?_⟩
    obtain ⟨values, _, hp⟩ := h
    rw [objects_eq_ok.mpr hp] at ho
    simp at ho
  | ok nodes =>
    rw [objects_eq_ok] at ho
    obtain ⟨list⟩ := nodes
    simp only [ho, bind, Except.bind, Option.some.injEq, Payload.objects.injEq]
    cases list with
    | nil => simp
    | cons first values =>
      constructor
      · intro h
        simp only [List.size_toArray, List.length_cons, Nat.add_sub_cancel, List.getElem?_toArray,
          List.getElem?_cons_zero] at h
        split at h
        · rename_i m hm
          split at h
          · rename_i hcount
            obtain rfl := Option.some.inj hm
            subst hcount
            exact ⟨values, Except.ok.inj h, rfl⟩
          · simp at h
        · simp at h
      · intro h
        obtain ⟨values', hlen, he⟩ := h
        obtain ⟨rfl, rfl⟩ : first = .integer (values'.length : Nat) ∧ values = values' := by simpa using he
        simp [Node.integer, hlen]

namespace Mutator

variable {ctx : Context} {closure : Node} {args : List Node}

theorem enter_ok_iff :
    (∃ activation c, (enter closure).run.run ctx = .ok (.ok activation, c)) ↔
      ctx.heap.Callable closure := by
  constructor
  · intro h
    obtain ⟨activation, c, hrun⟩ := h
    rcases leaves_enter closure _ _ hrun with ⟨_, he, _⟩ | ⟨flavour, code, block, n, hc, hcount, _⟩
    · simp at he
    · obtain ⟨values, _, hp⟩ := Heap.captureCount_eq_ok.mp hcount
      exact ⟨flavour, code, block, values, hc, hp⟩
  · intro h
    obtain ⟨flavour, code, block, values, rfl, hp⟩ := h
    have hcount := Heap.captureCount_eq_ok.mpr ⟨values, rfl, hp⟩
    rw [run_enter, hcount]
    exact ⟨_, _, rfl⟩

/-- What cannot be called is refused before anything is done. -/
theorem enter_refused (h : ¬ ctx.heap.Callable closure) :
    ∃ e, (enter closure).run.run ctx = .ok (.error e, ctx) := by
  cases closure with
  | closure flavour code block =>
    rw [run_enter]
    cases hcount : ctx.heap.captureCount block with
    | error e => exact ⟨e, rfl⟩
    | ok n =>
      obtain ⟨values, _, hp⟩ := Heap.captureCount_eq_ok.mp hcount
      exact absurd ⟨flavour, code, block, values, rfl, hp⟩ h
  | undefined | pointer | scalar | string | cell => exact ⟨_, rfl⟩

theorem enter_error_same {e : RuntimeError} {c : Context}
    (h : (enter closure).run.run ctx = .ok (.error e, c)) : c = ctx := by
  rcases leaves_enter closure _ _ h with ⟨_, _, hsame⟩ | ⟨_, _, _, _, _, _, ha, _⟩
  · exact hsame
  · simp at ha

theorem run_enter_ne_fault (closure : Node) (ctx : Context) (why : Fault) :
    (enter closure).run.run ctx ≠ .error why := by
  cases closure with
  | closure flavour code block =>
    rw [run_enter]
    cases ctx.heap.captureCount block <;> simp
  | undefined | pointer | scalar | string | cell => exact fun h => by cases h

theorem run_pushAll_ne_fault (nodes : List Node) (ctx : Context) (why : Fault) :
    (pushAll nodes).run.run ctx ≠ .error why := by
  induction nodes generalizing ctx with
  | nil => exact fun h => by cases h
  | cons node nodes ih =>
    rw [pushAll, run_bind, push, run_updateStack]
    cases ctx.stack.push node with
    | error e => simp
    | ok s => exact ih _

end Mutator

namespace Session

variable {α β : Type} {config : Config} {invoke : Invoke} {closure : Node} {args : List Node} {s : Session}

/-- The code runs as a body that ends only frames of its own. -/
def Confined (m : SessionM α) (s : Session) : Prop :=
  ∀ x s', m.run s = .ok (x, s') → ∃ frames, Body PopsOwn [] s.context frames s'.context

/-- What the code of a call leads to: it runs if the arguments were passed, else nothing is done. -/
def Ran (invoke : Invoke) (code : Nat) (passed : Except RuntimeError Unit) (s s' : Session) : Prop :=
  match passed with
  | .ok _ => ∃ x, (invoke code).run s = .ok (x, s')
  | .error _ => s' = s

theorem callClosure_eq_ok {x : Except RuntimeError Node × List Report} {s' : Session}
    (h : (callClosure invoke closure args).run s = .ok (x, s')) :
    (∃ e c, (Mutator.enter closure).run.run s.context = .ok (.error e, c) ∧
      s' = { s with context := c }) ∨
    ∃ activation c₁ passed c₂ s₃ r c₄,
      (Mutator.enter closure).run.run s.context = .ok (.ok activation, c₁) ∧
      (Mutator.pushAll args).run.run c₁ = .ok (passed, c₂) ∧
      Ran invoke activation.code passed { s with context := c₂ } s₃ ∧
      (Mutator.leave activation).run.run s₃.context = .ok (r, c₄) ∧ s' = { s₃ with context := c₄ } := by
  obtain ⟨entered, s₁, henter, hrest⟩ := run_bind_eq_ok h
  obtain ⟨c₁, hentered, rfl⟩ := onContext_eq_ok henter
  cases entered with
  | error e =>
    obtain ⟨_, rfl⟩ := Prod.mk.inj (Except.ok.inj hrest)
    exact .inl ⟨e, c₁, hentered, rfl⟩
  | ok activation =>
    obtain ⟨passed, s₂, hpass, hcode⟩ := run_bind_eq_ok hrest
    obtain ⟨c₂, hpassed, rfl⟩ := onContext_eq_ok hpass
    have hend : ∀ (y : Except RuntimeError Node × List Report) s₃,
        (onContext (Mutator.leave activation) >>= fun _ => pure y).run s₃ = .ok (x, s') →
        ∃ r c₄, (Mutator.leave activation).run.run s₃.context = .ok (r, c₄) ∧
          s' = { s₃ with context := c₄ } := by
      intro y s₃ hlast
      obtain ⟨r, s₄, hleave, hpure⟩ := run_bind_eq_ok hlast
      obtain ⟨c₄, hleft, rfl⟩ := onContext_eq_ok hleave
      obtain ⟨_, rfl⟩ := Prod.mk.inj (Except.ok.inj hpure)
      exact ⟨r, c₄, hleft, rfl⟩
    cases passed with
    | error e =>
      obtain ⟨r, c₄, hleave, hlast⟩ := hend _ _ hcode
      exact .inr ⟨activation, c₁, .error e, c₂, _, r, c₄, hentered, hpassed, rfl, hleave, hlast⟩
    | ok _ =>
      obtain ⟨y, s₃, hrun, hlast⟩ := run_bind_eq_ok hcode
      obtain ⟨r, c₄, hleave, hlast⟩ := hend _ _ hlast
      exact .inr ⟨activation, c₁, .ok (), c₂, s₃, r, c₄, hentered, hpassed, ⟨y, hrun⟩, hleave, hlast⟩

/-- A fault of a call is one of its code or of its end. -/
theorem callClosure_eq_error {why : Fault} (h : (callClosure invoke closure args).run s = .error why) :
    ∃ activation c₁ passed c₂,
      (Mutator.enter closure).run.run s.context = .ok (.ok activation, c₁) ∧
      (Mutator.pushAll args).run.run c₁ = .ok (passed, c₂) ∧
      ((∃ u, passed = .ok u) ∧ (invoke activation.code).run { s with context := c₂ } = .error why ∨
        ∃ s₃, Ran invoke activation.code passed { s with context := c₂ } s₃ ∧
          (Mutator.leave activation).run.run s₃.context = .error why) := by
  rcases run_bind_eq_error h with henter | ⟨entered, s₁, henter, hrest⟩
  · exact absurd (onContext_eq_error henter) (Mutator.run_enter_ne_fault _ _ _)
  obtain ⟨c₁, hentered, rfl⟩ := onContext_eq_ok henter
  cases entered with
  | error e => cases hrest
  | ok activation =>
    rcases run_bind_eq_error hrest with hpass | ⟨passed, s₂, hpass, hcode⟩
    · exact absurd (onContext_eq_error hpass) (Mutator.run_pushAll_ne_fault _ _ _)
    obtain ⟨c₂, hpassed, rfl⟩ := onContext_eq_ok hpass
    have hend : ∀ (y : Except RuntimeError Node × List Report) s₃,
        (onContext (Mutator.leave activation) >>= fun _ => pure y).run s₃ = .error why →
        (Mutator.leave activation).run.run s₃.context = .error why := by
      intro y s₃ hlast
      rcases run_bind_eq_error hlast with hleave | ⟨_, _, _, hpure⟩
      · exact onContext_eq_error hleave
      · cases hpure
    refine ⟨activation, c₁, passed, c₂, hentered, hpassed, ?_⟩
    cases passed with
    | error e => exact .inr ⟨_, rfl, hend _ _ hcode⟩
    | ok u =>
      rcases run_bind_eq_error hcode with hrun | ⟨y, s₃, hrun, hlast⟩
      · exact .inl ⟨⟨u, rfl⟩, hrun⟩
      · exact .inr ⟨s₃, ⟨y, hrun⟩, hend _ _ hlast⟩

/-- The end of a call gives the caller's stack and captures back, after its code as well as after
arguments that overflowed the stack. -/
theorem Ran.leave_eq {c₁ c₂ : Context} {activation : Mutator.Activation}
    {passed : Except RuntimeError Unit} {s₃ : Session} (hr : Reachable config s.context)
    (hcode : ∀ flavour code block c, closure = .closure flavour code block →
      (Event.call closure args).run.run.run s.context = .ok (.ok (), c) →
      Confined (invoke code) { s with context := c })
    (henter : (Mutator.enter closure).run.run s.context = .ok (.ok activation, c₁))
    (hpass : (Mutator.pushAll args).run.run c₁ = .ok (passed, c₂))
    (hran : Ran invoke activation.code passed { s with context := c₂ } s₃) :
    (Mutator.leave activation).run.run s₃.context = .ok (.ok (),
      { s₃.context with stack := s.context.stack, captures := s.context.captures }) := by
  suffices hbody : ∃ frames, Body PopsOwn [] c₂ frames s₃.context by
    obtain ⟨frames, hbody⟩ := hbody
    exact Mutator.leave_restores hr.wellFormed hr.tidy henter hpass hbody
  cases passed with
  | error e =>
    obtain rfl := hran
    exact ⟨[], .done [] c₂⟩
  | ok _ =>
    obtain ⟨x, hran⟩ := hran
    obtain ⟨block, _, hclosure, _⟩ := Mutator.call_begins henter hpass
    exact hcode _ _ block c₂ hclosure (Event.run_call henter hpass) x s₃ hran

end Session

/-- All frames that names stand for are listed. -/
def Env.FramesIn (env : Env) (frames : List Frame) : Prop :=
  ∀ p ∈ env.bindings, ∀ frame, p.2 = .frame frame → frame ∈ frames

namespace Env.FramesIn

variable {env : Env} {frames : List Frame}

theorem of_get (h : env.FramesIn frames) {name : String} {frame : Frame}
    (hget : env.get Binding.toFrame name = .ok frame) : frame ∈ frames := by
  unfold Env.get at hget
  cases hfind : env.find? name with
  | none => simp [hfind] at hget
  | some binding =>
    rw [hfind] at hget
    obtain ⟨before, after, hbindings, _⟩ := List.lookup_eq_some_iff.mp hfind
    cases binding with
    | frame frame' =>
      obtain rfl := Except.ok.inj hget
      exact h (name, .frame frame') (by simp [hbindings]) frame' rfl
    | node | handle | root => cases hget

theorem append (h : env.FramesIn frames) (new : List Frame) : env.FramesIn (new ++ frames) :=
  fun p hp frame hframe => List.mem_append_right new (h p hp frame hframe)

theorem named (h : env.FramesIn frames) (options : Options) {result : Except RuntimeError Answer}
    (hresult : ∀ frame, result = .ok (.frame frame) → frame ∈ frames) :
    (env.named options (.ofResult result)).FramesIn frames := by
  unfold Env.named
  split
  · rename_i name binding _ hbinding
    intro p hp frame hframe
    rcases List.mem_cons.mp hp with rfl | hold
    · obtain rfl : binding = .frame frame := hframe
      refine hresult frame ?_
      cases result with
      | error e => simp [Outcome.ofResult, Outcome.binding?] at hbinding
      | ok answer =>
        cases answer <;> simp_all [Outcome.ofResult, Outcome.binding?, Answer.binding?]
    · exact h p (List.mem_of_mem_filter hold) frame hframe
  · exact h

end Env.FramesIn

theorem lookup_bind_eq_ok {α β : Type} {look : Except Refusal α} {f : α → Except Refusal β} {b : β} :
    look >>= f = .ok b ↔ ∃ a, look = .ok a ∧ f a = .ok b := by
  cases look <;> simp [bind, Except.bind]

/-- Only names of frames stand for frames to end. -/
theorem Action.get_of_resolve_popFrame {env : Env} {action : Action Operands.written} {frame : Frame}
    (h : action.resolve env = .ok (.popFrame frame)) :
    ∃ name, env.get Binding.toFrame name = .ok frame := by
  cases action with
  | popFrame name =>
    obtain ⟨frame', hget, hframe⟩ := lookup_bind_eq_ok.mp h
    obtain rfl : frame' = frame := Action.popFrame.inj (Except.ok.inj hframe)
    exact ⟨name, hget⟩
  | _ => simp [Action.resolve, lookup_bind_eq_ok, pure, Except.pure] at h

namespace Mutator

variable {α β : Type}

/-- The property holds of whatever an operation yields. -/
def Yields (m : Mutator α) (P : α → Prop) : Prop :=
  ∀ a x b, m.run.run a = .ok (.ok x, b) → P x

theorem yields_pure {P : α → Prop} {x : α} (h : P x) : (pure x : Mutator α).Yields P := by
  intro a y b hrun
  obtain ⟨hy, _⟩ := Prod.mk.inj (Except.ok.inj hrun)
  rw [← Except.ok.inj hy]
  exact h

theorem yields_bind {P : β → Prop} {m : Mutator α} {f : α → Mutator β} (h : ∀ x, (f x).Yields P) :
    (m >>= f).Yields P := by
  intro a y b hrun
  rw [run_bind] at hrun
  split at hrun
  · rename_i x c _
    exact h x c y b hrun
  · simp at hrun
  · simp at hrun

theorem yields_map {P : β → Prop} {m : Mutator α} {f : α → β} (h : ∀ x, P (f x)) :
    (f <$> m).Yields P := by
  rw [← bind_pure_comp]
  exact yields_bind fun x => yields_pure (h x)

end Mutator

open Mutator in
/-- Frames come from one action only. -/
theorem Action.yields_no_frame {action : Action Operands.resolved} (h : action ≠ .pushFrame) :
    action.run.Yields fun answer => ∀ frame, answer ≠ .frame frame := by
  cases action with
  | pushFrame => exact absurd rfl h
  | push | writeLocal | reserve | drop | popFrame | setRoot =>
    exact yields_bind fun _ => yields_pure fun _ => by simp
  | lastCollection =>
    refine yields_bind fun ctx => yields_pure fun _ => ?_
    show Answer.ofCollection? ctx.lastCollection ≠ _
    cases ctx.lastCollection <;> simp [Answer.ofCollection?]
  | checkpoint => exact yields_map fun record _ => by cases record <;> simp [Answer.ofCollection?]
  | getObject | bytes =>
    refine yields_bind fun content => ?_
    split <;> exact yields_pure fun _ => by simp
  | setObject | setBytes =>
    refine yields_bind fun content => ?_
    split
    · exact yields_bind fun _ => yields_pure fun _ => by simp
    · exact yields_pure fun _ => by simp
  | value | inspect | same | isA | emptyList => exact yields_pure fun _ => by simp
  | _ => exact yields_map fun _ _ => by simp

/-- The frame that an action yields is the one it begins. -/
theorem Action.frame_mem_opened {action : Action Operands.resolved} {a b : Context} {frame : Frame}
    (h : action.run.run.run a = .ok (.ok (.frame frame), b)) :
    frame ∈ (Event.act action).opened a := by
  by_cases hpush : action = .pushFrame
  · subst hpush
    obtain ⟨hframe, _⟩ := Prod.mk.inj (Except.ok.inj h)
    obtain rfl : a.stack.pushFrame.1 = frame := Answer.frame.inj (Except.ok.inj hframe)
    exact List.mem_singleton.mpr rfl
  · exact absurd rfl (Action.yields_no_frame hpush a _ b h frame)

namespace Session

variable {α β : Type}

/-- A program goes on with a body: it ends only frames that are listed, and the list covers all that
it has names for. -/
def GoesOn (m : SessionM α) : Prop :=
  ∀ s x s', m.run s = .ok (x, s') → ∀ frames, s.env.FramesIn frames →
    ∃ frames', Body PopsOwn frames s.context frames' s'.context ∧ s'.env.FramesIn frames'

theorem GoesOn.bind {m : SessionM α} {f : α → SessionM β} (hm : GoesOn m) (hf : ∀ x, GoesOn (f x)) :
    GoesOn (m >>= f) := by
  intro s y s' hrun frames henv
  obtain ⟨x, s₁, hfirst, hrest⟩ := run_bind_eq_ok hrun
  obtain ⟨frames₁, hbody₁, henv₁⟩ := hm s x s₁ hfirst frames henv
  obtain ⟨frames₂, hbody₂, henv₂⟩ := hf x s₁ y s' hrest frames₁ henv₁
  exact ⟨frames₂, hbody₁.trans hbody₂, henv₂⟩

theorem goesOn_of_same {m : SessionM α} (h : ∀ s x s', m.run s = .ok (x, s') →
    s'.context = s.context ∧ s'.env.bindings = s.env.bindings) : GoesOn m := by
  intro s x s' hrun frames henv
  obtain ⟨hcontext, hbindings⟩ := h s x s' hrun
  refine ⟨frames, hcontext ▸ .done frames s'.context, ?_⟩
  unfold Env.FramesIn
  rw [hbindings]
  exact henv

theorem goesOn_pure (x : α) : GoesOn (pure x : SessionM α) :=
  goesOn_of_same fun s y s' h => by
    obtain ⟨_, rfl⟩ := Prod.mk.inj (Except.ok.inj h)
    exact ⟨rfl, rfl⟩

theorem goesOn_get : GoesOn (get : SessionM Session) :=
  goesOn_of_same fun s y s' h => by
    obtain ⟨_, rfl⟩ := Prod.mk.inj (Except.ok.inj h)
    exact ⟨rfl, rfl⟩

theorem goesOn_report (outcome : Outcome) (attachment : Attachment Report) :
    GoesOn (report outcome attachment) :=
  goesOn_of_same fun s y s' h => by
    obtain ⟨_, rfl⟩ := Prod.mk.inj (Except.ok.inj h)
    exact ⟨rfl, rfl⟩

theorem goesOn_conclude_node (options : Options) (result : Except RuntimeError Node)
    (attachment : Attachment Report) :
    GoesOn (conclude options (.ofResult (result.map .node)) attachment) := by
  intro s x s' hrun frames henv
  rw [run_conclude] at hrun
  obtain ⟨_, rfl⟩ := Prod.mk.inj (Except.ok.inj hrun)
  refine ⟨frames, .done frames s.context, henv.named options fun frame hframe => ?_⟩
  cases result <;> simp [Except.map] at hframe

theorem goesOn_event {m : Mutator α} (event : Event) (hplain : event.plain = true)
    (hev : event.run = m >>= fun _ => pure ()) (hpop : ∀ frame, event ≠ .act (.popFrame frame)) :
    GoesOn (onContext m) := by
  intro s r s' hrun frames henv
  obtain ⟨c, hc, rfl⟩ := onContext_eq_ok hrun
  have hown : PopsOwn frames event := fun frame he => absurd he (hpop frame)
  exact ⟨_, .step event hplain hown (Event.run_eq_ok hev hc) (.done _ c), henv.append _⟩

theorem goesOn_runAction (action : Action Operands.written) (options : Options) :
    GoesOn (runAction action options) := by
  intro s r s' hrun frames henv
  rcases runAction_eq_ok hrun with ⟨_, _, _, hcontext, hsame⟩ | ⟨resolved, result, hresolve, hact, _, hnamed⟩
  · rw [hsame]
    exact ⟨frames, hcontext ▸ .done frames s'.context, henv⟩
  · have hown : PopsOwn frames (.act resolved) := by
      intro frame he
      obtain rfl := Event.act.inj he
      obtain ⟨name, hget⟩ := Action.get_of_resolve_popFrame hresolve
      exact henv.of_get hget
    refine ⟨_, .step (.act resolved) rfl hown (Event.run_eq_ok rfl hact) (.done _ s'.context), ?_⟩
    rw [hnamed]
    refine (henv.append _).named options fun frame hframe => ?_
    rw [hframe] at hact
    exact List.mem_append_left _ (Action.frame_mem_opened hact)

theorem goesOn_runPrint (node : NodeExpr) (ending : String) (writer : WriterExpr) (options : Options) :
    GoesOn (runPrint node ending writer options) := by
  refine goesOn_get.bind fun s => ?_
  cases (do return (← node.eval s.env, ← writer.eval s.env) : Except Refusal _) with
  | error why => exact goesOn_report _ _
  | ok p => exact goesOn_conclude_node _ _ _

theorem goesOn_callClosure {invoke : Invoke} (hinvoke : ∀ code, GoesOn (invoke code)) (closure : Node)
    (args : List Node) : GoesOn (callClosure invoke closure args) := by
  intro s x s' hrun frames henv
  rcases callClosure_eq_ok hrun with
    ⟨e, c, henter, rfl⟩ | ⟨activation, c₁, passed, c₂, s₃, r, c₄, henter, hpass, hran, hleave, rfl⟩
  · obtain rfl := Mutator.enter_error_same henter
    exact ⟨frames, .done frames _, henv⟩
  · cases passed with
    | error e =>
      obtain rfl := hran
      exact ⟨frames, .call henter hpass (.done frames c₂) hleave (.done frames c₄), henv⟩
    | ok _ =>
      obtain ⟨y, hcode⟩ := hran
      obtain ⟨frames', hbody, henv'⟩ := hinvoke activation.code _ y s₃ hcode frames henv
      exact ⟨frames', .call henter hpass hbody hleave (.done frames' c₄), henv'⟩

theorem goesOn_runCall {invoke : Invoke} (hinvoke : ∀ code, GoesOn (invoke code)) (closure : NodeExpr)
    (args : List NodeExpr) (options : Options) : GoesOn (runCall invoke closure args options) := by
  refine goesOn_get.bind fun s => ?_
  dsimp only
  cases (do return (← closure.eval s.env, ← args.mapM (NodeExpr.eval s.env)) : Except Refusal _) with
  | error why => exact goesOn_report _ _
  | ok p => exact (goesOn_callClosure hinvoke p.1 p.2).bind fun r => goesOn_conclude_node _ _ _

theorem goesOn_compositional : Compositional GoesOn where
  pure := goesOn_pure
  bind := GoesOn.bind
  get := goesOn_get
  round _ := goesOn_of_same fun s x s' h => by
    obtain ⟨_, rfl⟩ := Prod.mk.inj (Except.ok.inj h)
    exact ⟨rfl, rfl⟩
  report := goesOn_report
  inhibited hm hf := (goesOn_event .inhibit rfl rfl fun _ => by simp).bind fun _ => hm.bind fun a =>
    (goesOn_event .permit rfl rfl fun _ => by simp).bind fun _ => hf a
  act := goesOn_runAction
  print := goesOn_runPrint
  call := goesOn_runCall
  tooDeep := fun _ _ _ h => by cases h

/-- The code of a script ends only frames of its own if it has names for no others when it starts. -/
theorem confined_invoke (functions : List Function) (depth code : Nat) {s : Session}
    (henv : s.env.FramesIn []) : Confined (invoke functions depth code) s := by
  intro x s' hrun
  obtain ⟨frames, hbody, _⟩ := goesOn_compositional.invoke functions depth code s x s' hrun [] henv
  exact ⟨frames, hbody⟩

end Session

open Session in
/-- A call whose code ends only frames of its own gives its caller everything back, however it ends:
the stack as it was, with nothing above its top, and the captures. It ends in a fault only if its code
does, and its code runs only if the closure's capture block has the form of one; the session is left
alone otherwise. -/
theorem call_restores_caller {config : Config} {s : Session} (hr : Reachable config s.context)
    (invoke : Invoke) (closure : Node) (args : List Node)
    (hcode : ∀ flavour code block c, closure = .closure flavour code block →
      (Event.call closure args).run.run.run s.context = .ok (.ok (), c) →
      Confined (invoke code) { s with context := c }) :
    (∀ x s', (callClosure invoke closure args).run s = .ok (x, s') →
      s'.context.stack = s.context.stack ∧ s'.context.captures = s.context.captures ∧
      ∀ i, s'.context.stack.top ≤ i → s'.context.stack.slot i = .undefined) ∧
    (∀ why, (callClosure invoke closure args).run s = .error why →
      ∃ flavour code block c, closure = .closure flavour code block ∧
        (Event.call closure args).run.run.run s.context = .ok (.ok (), c) ∧
        (invoke code).run { s with context := c } = .error why) ∧
    ((∃ activation c, (Mutator.enter closure).run.run s.context = .ok (.ok activation, c)) ↔
      s.context.heap.Callable closure) ∧
    (¬ s.context.heap.Callable closure →
      ∃ e, ∀ invoke', (callClosure invoke' closure args).run s = .ok ((.error e, []), s)) := by
  refine ⟨fun x s' hrun => ?_, fun why hrun => ?_, Mutator.enter_ok_iff, fun hbad => ?_⟩
  · have hback : s'.context.stack = s.context.stack ∧ s'.context.captures = s.context.captures := by
      rcases callClosure_eq_ok hrun with
        ⟨e, c, henter, rfl⟩ | ⟨activation, c₁, passed, c₂, s₃, r, c₄, henter, hpass, hran, hleave, rfl⟩
      · obtain rfl := Mutator.enter_error_same henter
        exact ⟨rfl, rfl⟩
      · rw [hran.leave_eq hr hcode henter hpass] at hleave
        obtain ⟨_, rfl⟩ := Prod.mk.inj (Except.ok.inj hleave)
        exact ⟨rfl, rfl⟩
    refine ⟨hback.1, hback.2, ?_⟩
    rw [hback.1]
    exact hr.tidy.above
  · obtain ⟨activation, c₁, passed, c₂, henter, hpass, hwhere⟩ := callClosure_eq_error hrun
    rcases hwhere with ⟨⟨_, rfl⟩, hfault⟩ | ⟨s₃, hran, hfault⟩
    · obtain ⟨block, _, hclosure, _⟩ := Mutator.call_begins henter hpass
      exact ⟨_, _, block, c₂, hclosure, Event.run_call henter hpass, hfault⟩
    · rw [hran.leave_eq hr hcode henter hpass] at hfault
      simp at hfault
  · obtain ⟨e, henter⟩ := Mutator.enter_refused hbad
    refine ⟨e, fun invoke' => ?_⟩
    unfold callClosure
    rw [StateT.run_bind, run_onContext, henter]
    rfl

open Session in
/-- The code of this call begins a frame, ends it after a collection and fails on its own empty frame. -/
theorem call_restores_caller_failed_code :
    ∃ (start ctx : Context) (s' : Session) (reports : List Report),
      Context.ofConfig { arenaBytes := 80, stackSlots := 8 } = .ok start ∧
      start.after [.act (.push .undefined), .act (.makeClosure .value 0 [(0 : Nat)])] = ctx ∧
      (callClosure (Session.invoke [⟨[.act .pushFrame { name := "inner" }, .act .collect {},
        .act (.popFrame "inner") {}, .act .pop {}, .act .pop {}], none⟩] 1) (.closure .value 0 ⟨0, 1⟩)
        [.undefined]).run { context := ctx } = .ok ((.error .stackUnderflow, reports), s') ∧
      s'.context.stack = ctx.stack ∧ s'.context.captures = ctx.captures := by
  obtain ⟨start, hstart, hcheck⟩ : ∃ start,
      Context.ofConfig { arenaBytes := 80, stackSlots := 8 } = .ok start ∧
      ((callClosure (Session.invoke [⟨[.act .pushFrame { name := "inner" }, .act .collect {},
        .act (.popFrame "inner") {}, .act .pop {}, .act .pop {}], none⟩] 1) (.closure .value 0 ⟨0, 1⟩)
        [.undefined]).run { context := start.after [.act (.push .undefined),
          .act (.makeClosure .value 0 [(0 : Nat)])] }).toOption.any
            (fun p => p.1.1 = .error .stackUnderflow) = true := ⟨_, rfl, by cbv⟩
  obtain ⟨⟨⟨result, reports⟩, s'⟩, hrun, hfailed⟩ := exists_ok_of_any hcheck
  have hr := (Reachable.start hstart).after
    [.act (.push .undefined), .act (.makeClosure .value 0 [(0 : Nat)])]
  obtain ⟨hback, _⟩ := call_restores_caller (s := { context := _ }) hr _ _ _
    fun _ code _ _ _ _ => confined_invoke _ _ code fun _ hp => by simp at hp
  obtain ⟨hstack, hcaptures, _⟩ := hback _ _ hrun
  obtain rfl : result = .error .stackUnderflow := of_decide_eq_true hfailed
  exact ⟨start, _, s', reports, hstart, rfl, hrun, hstack, hcaptures⟩

end GenerationalHeap
