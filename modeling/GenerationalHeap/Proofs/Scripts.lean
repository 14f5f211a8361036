import GenerationalHeap.Session.Run

namespace GenerationalHeap

/-- The environment after a step: the result of the step has its name. -/
def Env.named (env : Env) (options : Options) (outcome : Outcome) : Env :=
  match options.name, outcome.binding? with
  | some name, some binding => env.bind name binding
  | _, _ => env

namespace Session

section Runs

variable {α β : Type} {s s' : Session}

theorem run_bind_eq_ok {m : SessionM α} {f : α → SessionM β} {b : β}
    (h : (m >>= f).run s = .ok (b, s')) :
    ∃ a s₁, m.run s = .ok (a, s₁) ∧ (f a).run s₁ = .ok (b, s') := by
  rw [StateT.run_bind] at h
  cases hfirst : m.run s with
  | error why => simp [hfirst, Bind.bind, Except.bind] at h
  | ok p =>
    simp only [hfirst, Bind.bind, Except.bind] at h
    exact ⟨p.1, p.2, rfl, h⟩

theorem run_bind_eq_error {m : SessionM α} {f : α → SessionM β} {why : Fault}
    (h : (m >>= f).run s = .error why) :
    m.run s = .error why ∨ ∃ x s₁, m.run s = .ok (x, s₁) ∧ (f x).run s₁ = .error why := by
  rw [StateT.run_bind] at h
  cases hfirst : m.run s with
  | error why' =>
    simp only [hfirst, Bind.bind, Except.bind, Except.error.injEq] at h
    exact .inl (by rw [h])
  | ok p =>
    simp only [hfirst, Bind.bind, Except.bind] at h
    exact .inr ⟨p.1, p.2, rfl, h⟩

theorem run_onContext (m : Mutator α) (s : Session) :
    (onContext m).run s = match m.run.run s.context with
      | .ok (r, c) => .ok (r, { s with context := c })
      | .error why => .error why := rfl

theorem onContext_eq_ok {m : Mutator α} {r : Except RuntimeError α}
    (h : (onContext m).run s = .ok (r, s')) :
    ∃ c, m.run.run s.context = .ok (r, c) ∧ s' = { s with context := c } := by
  rw [run_onContext] at h
  cases hm : m.run.run s.context with
  | error why => simp [hm] at h
  | ok p =>
    simp only [hm, Except.ok.injEq, Prod.mk.injEq] at h
    obtain ⟨rfl, rfl⟩ := h
    exact ⟨p.2, rfl, rfl⟩

theorem onContext_eq_error {m : Mutator α} {why : Fault} (h : (onContext m).run s = .error why) :
    m.run.run s.context = .error why := by
  rw [run_onContext] at h
  cases hm : m.run.run s.context with
  | error why' =>
    simp only [hm, Except.error.injEq] at h
    rw [h]
  | ok p => simp [hm] at h

/-- A step ends with its report, and its result has its name. -/
theorem run_conclude (options : Options) (outcome : Outcome) (attachment : Attachment Report)
    (s : Session) : (conclude options outcome attachment).run s =
      (report outcome attachment).run { s with env := s.env.named options outcome } := by
  unfold conclude Env.named
  cases options.name with
  | none => rfl
  | some name => cases outcome.binding? <;> rfl

/-- What one operation of a script does: it is refused and changes nothing, or it runs and its result
gets its name. -/
theorem runAction_eq_ok {action : Action Operands.written} {options : Options} {r : Report}
    (h : (runAction action options).run s = .ok (r, s')) :
    (∃ why, action.resolve s.env = .error why ∧ r.outcome = .refused why ∧ s'.context = s.context ∧
      s'.env = s.env) ∨
    ∃ resolved result, action.resolve s.env = .ok resolved ∧
      resolved.run.run.run s.context = .ok (result, s'.context) ∧ r.outcome = .ofResult result ∧
      s'.env = s.env.named options (.ofResult result) := by
  unfold runAction at h
  obtain ⟨s₀, s₁, hget, hrest⟩ := run_bind_eq_ok h
  obtain ⟨rfl, rfl⟩ := Prod.mk.inj (Except.ok.inj hget)
  cases ha : action.resolve s.env with
  | error why =>
    rw [ha] at hrest
    obtain ⟨rfl, rfl⟩ := Prod.mk.inj (Except.ok.inj hrest)
    exact .inl ⟨why, rfl, rfl, rfl, rfl⟩
  | ok resolved =>
    rw [ha] at hrest
    obtain ⟨result, s₂, hact, hconclude⟩ := run_bind_eq_ok hrest
    obtain ⟨c, hc, rfl⟩ := onContext_eq_ok hact
    rw [run_conclude] at hconclude
    obtain ⟨rfl, rfl⟩ := Prod.mk.inj (Except.ok.inj hconclude)
    exact .inr ⟨resolved, result, rfl, hc, rfl, rfl⟩

end Runs

/-- A property of programs that a script has if all its single steps have it. -/
structure Compositional (P : ∀ {α : Type}, SessionM α → Prop) : Prop where
  pure : ∀ {α : Type} (a : α), P (pure a)
  bind : ∀ {α β : Type} {m : SessionM α} {f : α → SessionM β}, P m → (∀ a, P (f a)) → P (m >>= f)
  get : P get
  round : ∀ f : Env → Nat, P (onEnv fun env => { env with round := f env })
  report : ∀ outcome attachment, P (report outcome attachment)
  inhibited : ∀ {α β : Type} {m : SessionM α} {f : α → SessionM β}, P m → (∀ a, P (f a)) →
    P (onContext Mutator.beginInhibit >>= fun _ => m >>= fun a =>
      onContext Mutator.endInhibit >>= fun _ => f a)
  act : ∀ action options, P (runAction action options)
  print : ∀ node ending writer options, P (runPrint node ending writer options)
  call : ∀ {invoke : Invoke}, (∀ code, P (invoke code)) → ∀ closure args options,
    P (runCall invoke closure args options)
  tooDeep : ∀ {α : Type}, P (fun _ => .error .callDepth : SessionM α)

namespace Compositional

variable {P : ∀ {α : Type}, SessionM α → Prop} (hP : Compositional P)
include hP

theorem runRounds {block : SessionM (List Report)} (hblock : P block) (rounds round : Nat)
    (last : List Report) : P (runRounds block round rounds last) := by
  induction rounds generalizing round last with
  | zero => exact hP.pure last
  | succ rounds ih =>
    exact hP.bind (hP.round _) fun _ => hP.bind hblock fun reports => ih (round + 1) reports

theorem runLoop {block : SessionM (List Report)} (hblock : P block) (rounds : Nat) :
    P (runLoop block rounds) :=
  hP.bind hP.get fun _ => hP.bind (hP.runRounds hblock rounds 0 []) fun reports =>
    hP.bind (hP.round _) fun _ => hP.pure reports

section Steps

variable {invoke : Invoke}

mutual

theorem runStep (hinvoke : ∀ code, P (invoke code)) : (step : Step) → P (runStep invoke step)
  | .act action options => by
    rw [Session.runStep]
    exact hP.act action options
  | .print node ending writer options => by
    rw [Session.runStep]
    exact hP.print node ending writer options
  | .call closure args options => by
    rw [Session.runStep]
    exact hP.call hinvoke closure args options
  | .inhibit steps => by
    rw [Session.runStep]
    exact hP.inhibited (runBlock hinvoke steps) fun reports => hP.report _ _
  | .loop times steps => by
    rw [Session.runStep]
    refine hP.bind hP.get fun s => ?_
    cases times.eval s.env with
    | error why => exact hP.report _ _
    | ok rounds => exact hP.bind (hP.runLoop (runBlock hinvoke steps) rounds) fun reports => hP.report _ _
  | .malformed mentions => by
    rw [Session.runStep]
    exact hP.bind hP.get fun s => hP.report _ _

theorem runBlock (hinvoke : ∀ code, P (invoke code)) :
    (steps : List Step) → P (runBlock invoke steps)
  | [] => by
    rw [Session.runBlock]
    exact hP.pure []
  | step :: steps => by
    rw [Session.runBlock]
    exact hP.bind (runStep hinvoke step) fun first => hP.bind (runBlock hinvoke steps) fun rest => hP.pure _

end

theorem runBody (hinvoke : ∀ code, P (invoke code)) (steps : List Step) :
    P (runBody invoke steps) := by
  induction steps with
  | nil => exact hP.pure _
  | cons step steps ih =>
    refine hP.bind (hP.runStep hinvoke step) fun first => ?_
    cases first.outcome with
    | failed why =>
      cases step.tolerant with
      | false => exact hP.pure _
      | true => exact hP.bind ih fun p => hP.pure _
    | answered answer => exact hP.bind ih fun p => hP.pure _
    | refused why => exact hP.bind ih fun p => hP.pure _

end Steps

/-- What holds of all steps holds of all code, however deep its calls go. -/
theorem invoke (functions : List Function) (depth code : Nat) :
    P (invoke functions depth code) := by
  induction depth generalizing code with
  | zero => exact hP.tooDeep
  | succ depth ih =>
    rw [Session.invoke]
    cases functions[code]? with
    | none => exact hP.pure _
    | some function =>
      refine hP.bind (hP.runBody ih function.steps) ?_
      intro outcome
      obtain ⟨stopped, reports⟩ := outcome
      cases stopped with
      | some why => exact hP.pure _
      | none => exact hP.bind hP.get fun s => hP.pure _

end Compositional

end Session

end GenerationalHeap
