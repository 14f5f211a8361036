import GenerationalHeap.Proofs.Calls
import GenerationalHeap.Proofs.Inhibition

namespace GenerationalHeap

/-- Events that end all sections they begin, and no others. -/
def Nested (events : List Event) : Prop := ∀ n, openSections n events = some n

theorem openSections_append (n : Nat) (events events' : List Event) :
    openSections n (events ++ events') = (openSections n events).bind fun k => openSections k events' :=
  List.foldlM_append

theorem nested_event {event : Event} (h : ∀ n, event.sections n = some n) : Nested [event] := by
  intro n
  simp [openSections, h]

theorem Nested.append {events events' : List Event} (h : Nested events) (h' : Nested events') :
    Nested (events ++ events') := by
  intro n
  rw [openSections_append, h n]
  exact h' n

theorem Nested.inhibited {events : List Event} (h : Nested events) :
    Nested (.inhibit :: events ++ [.permit]) := by
  intro n
  have hinside : openSections n (.inhibit :: events) = some (n + 1) := by
    simpa [openSections, Event.sections] using h (n + 1)
  rw [openSections_append, hinside]
  simp [openSections, Event.sections]

namespace Session

variable {α β : Type}

/-- A part of a script runs events that end the sections they begin. -/
def RunsNested (m : SessionM α) : Prop :=
  ∀ s x s', m.run s = .ok (x, s') → ∃ events, Nested events ∧ Runs s.context events s'.context

theorem RunsNested.bind {m : SessionM α} {f : α → SessionM β} (hm : RunsNested m)
    (hf : ∀ x, RunsNested (f x)) : RunsNested (m >>= f) := by
  intro s y s' hrun
  obtain ⟨x, s₁, hfirst, hrest⟩ := run_bind_eq_ok hrun
  obtain ⟨events, hnested, hruns⟩ := hm s x s₁ hfirst
  obtain ⟨events', hnested', hruns'⟩ := hf x s₁ y s' hrest
  exact ⟨events ++ events', hnested.append hnested', hruns.append hruns'⟩

theorem runsNested_of_context {m : SessionM α}
    (h : ∀ s x s', m.run s = .ok (x, s') → s'.context = s.context) : RunsNested m := by
  intro s x s' hrun
  rw [h s x s' hrun]
  exact ⟨[], fun _ => rfl, .done s.context⟩

theorem runsNested_get : RunsNested (get : SessionM Session) :=
  runsNested_of_context fun s x s' h => by
    obtain ⟨_, rfl⟩ := Prod.mk.inj (Except.ok.inj h)
    rfl

theorem runsNested_report (outcome : Outcome) (attachment : Attachment Report) :
    RunsNested (report outcome attachment) :=
  runsNested_of_context fun s x s' h => by
    obtain ⟨_, rfl⟩ := Prod.mk.inj (Except.ok.inj h)
    rfl

theorem runsNested_conclude (options : Options) (outcome : Outcome) (attachment : Attachment Report) :
    RunsNested (conclude options outcome attachment) :=
  runsNested_of_context fun s x s' h => by
    rw [run_conclude] at h
    obtain ⟨_, rfl⟩ := Prod.mk.inj (Except.ok.inj h)
    rfl

theorem runsNested_runAction (action : Action Operands.written) (options : Options) :
    RunsNested (runAction action options) := by
  intro s r s' hrun
  rcases runAction_eq_ok hrun with ⟨_, _, _, hcontext, _⟩ | ⟨resolved, result, _, hact, _⟩
  · rw [hcontext]
    exact ⟨[], fun _ => rfl, .done s.context⟩
  · exact ⟨[.act resolved], nested_event fun _ => rfl,
      .step (.act resolved) (Event.run_eq_ok rfl hact) (.done s'.context)⟩

theorem runsNested_runPrint (node : NodeExpr) (ending : String) (writer : WriterExpr)
    (options : Options) : RunsNested (runPrint node ending writer options) := by
  refine runsNested_get.bind fun s => ?_
  cases (do return (← node.eval s.env, ← writer.eval s.env) : Except Refusal _) with
  | error why => exact runsNested_report _ _
  | ok p => exact runsNested_conclude _ _ _

/-- The events of a call stand between its start and its end. -/
theorem runsNested_callClosure {invoke : Invoke} (hinvoke : ∀ code, RunsNested (invoke code))
    (closure : Node) (args : List Node) : RunsNested (callClosure invoke closure args) := by
  intro s x s' hrun
  rcases callClosure_eq_ok hrun with
    ⟨e, c, henter, rfl⟩ | ⟨activation, c₁, passed, c₂, s₃, r, c₄, henter, hpass, hran, hleave, rfl⟩
  · obtain rfl := Mutator.enter_error_same henter
    exact ⟨[], fun _ => rfl, .done _⟩
  · obtain ⟨events, hnested, hruns⟩ : ∃ events, Nested events ∧ Runs c₂ events s₃.context := by
      cases passed with
      | error e =>
        obtain rfl := hran
        exact ⟨[], fun _ => rfl, .done c₂⟩
      | ok _ =>
        obtain ⟨y, hcode⟩ := hran
        exact hinvoke activation.code _ y s₃ hcode
    have hend : Runs s₃.context [.leave activation] c₄ := .step (.leave activation) hleave (.done c₄)
    refine ⟨.call closure args :: (events ++ [.leave activation]), ?_, ?_⟩
    · have hcall : Nested [.call closure args] := nested_event fun _ => rfl
      exact hcall.append (hnested.append (nested_event fun _ => rfl))
    · exact .step (.call closure args) (Event.run_call henter hpass) (hruns.append hend)

theorem runsNested_runCall {invoke : Invoke} (hinvoke : ∀ code, RunsNested (invoke code))
    (closure : NodeExpr) (args : List NodeExpr) (options : Options) :
    RunsNested (runCall invoke closure args options) := by
  refine runsNested_get.bind fun s => ?_
  dsimp only
  cases (do return (← closure.eval s.env, ← args.mapM (NodeExpr.eval s.env)) : Except Refusal _) with
  | error why => exact runsNested_report _ _
  | ok p => exact (runsNested_callClosure hinvoke p.1 p.2).bind fun r => runsNested_conclude _ _ _

/-- What is run with collection inhibited is run between the start and the end of a section. -/
theorem inhibited_eq_ok {m : SessionM α} {f : α → SessionM β} {s s' : Session} {y : β}
    (hrun : (onContext Mutator.beginInhibit >>= fun _ => m >>= fun x =>
      onContext Mutator.endInhibit >>= fun _ => f x).run s = .ok (y, s')) :
    ∃ x s₁ s₂ s₃, m.run s₁ = .ok (x, s₂) ∧ Runs s.context [.inhibit] s₁.context ∧
      Runs s₂.context [.permit] s₃.context ∧ (f x).run s₃ = .ok (y, s') := by
  obtain ⟨r, s₁, hbegin, hrest⟩ := run_bind_eq_ok hrun
  obtain ⟨x, s₂, hm, hrest⟩ := run_bind_eq_ok hrest
  obtain ⟨r', s₃, hend, hrest⟩ := run_bind_eq_ok hrest
  obtain ⟨c₁, hc₁, rfl⟩ := onContext_eq_ok hbegin
  obtain ⟨c₃, hc₃, rfl⟩ := onContext_eq_ok hend
  exact ⟨x, _, s₂, _, hm, .step .inhibit hc₁ (.done c₁), .step .permit hc₃ (.done c₃), hrest⟩

theorem RunsNested.inhibited {m : SessionM α} {f : α → SessionM β} (hm : RunsNested m)
    (hf : ∀ x, RunsNested (f x)) :
    RunsNested (onContext Mutator.beginInhibit >>= fun _ => m >>= fun x =>
      onContext Mutator.endInhibit >>= fun _ => f x) := by
  intro s y s' hrun
  obtain ⟨x, s₁, s₂, s₃, hinside, hbegin, hend, hrest⟩ := inhibited_eq_ok hrun
  obtain ⟨events, hnested, hruns⟩ := hm s₁ x s₂ hinside
  obtain ⟨events', hnested', hruns'⟩ := hf x s₃ y s' hrest
  exact ⟨_, hnested.inhibited.append hnested', ((hbegin.append hruns).append hend).append hruns'⟩

theorem runsNested_compositional : Compositional RunsNested where
  pure x := runsNested_of_context fun s y s' h => by
    obtain ⟨_, rfl⟩ := Prod.mk.inj (Except.ok.inj h)
    rfl
  bind := RunsNested.bind
  get := runsNested_get
  round _ := runsNested_of_context fun s x s' h => by
    obtain ⟨_, rfl⟩ := Prod.mk.inj (Except.ok.inj h)
    rfl
  report := runsNested_report
  inhibited := RunsNested.inhibited
  act := runsNested_runAction
  print := runsNested_runPrint
  call := runsNested_runCall
  tooDeep := fun _ _ _ h => by cases h

/-- A section of a script runs as a section: what is in it ends the sections it begins. -/
theorem runStep_inhibit {functions : List Function} {depth : Nat} {steps : List Step} {s s' : Session}
    {r : Report} (hrun : (runStep (invoke functions depth) (.inhibit steps)).run s = .ok (r, s')) :
    ∃ events, Nested events ∧ Runs s.context (.inhibit :: events ++ [.permit]) s'.context := by
  rw [runStep] at hrun
  obtain ⟨reports, s₁, s₂, s₃, hinside, hbegin, hend, hreport⟩ := inhibited_eq_ok hrun
  have hblock := runsNested_compositional.runBlock (runsNested_compositional.invoke functions depth) steps
  obtain ⟨events, hnested, hruns⟩ := hblock s₁ reports s₂ hinside
  obtain ⟨_, rfl⟩ := Prod.mk.inj (Except.ok.inj hreport)
  exact ⟨events, hnested, (hbegin.append hruns).append hend⟩

end Session

/-- Inhibition holds collection off. Between any two moments of a section no collection runs unless one
is asked for: no block is moved or lost, rooted or not, and each request is served in the arena or, if
it does not fit, as an escape. The depth of inhibition is that of the open sections, after a section
what it was before; and a section of a script is such a section. -/
theorem inhibition_holds_collection_off {config : Config} {ctx : Context} (hr : Reachable config ctx) :
    (∀ before later a c k n, Runs ctx (.inhibit :: before) a → Runs a later c →
      openSections 0 before = some k → openSections k later = some n →
      Event.act .collect ∉ before ++ later →
      (∃ new, ctx.HeldOff new a) ∧ (∃ new, a.HeldOff new c) ∧
      c.inhibitDepth = ctx.inhibitDepth + 1 + n ∧
      ∀ kind count size, requestSize c.config.maxAllocationBytes kind count = .ok size →
        c.heap.arena.remaining < size →
        ∃ h d, (Mutator.allocate kind count).run.run c = .ok (.ok h, d) ∧
          d.heap.block? h = some { payload := .fresh kind count, size, place := .old } ∧
          d.totals.escapes = c.totals.escapes + 1 ∧ d.totals.collections = c.totals.collections) ∧
    (∀ events c, Runs ctx (.inhibit :: events ++ [.permit]) c → openSections 0 events = some 0 →
      c.inhibitDepth = ctx.inhibitDepth ∧
        (Event.act .collect ∉ events → ∃ new, ctx.HeldOff new c)) ∧
    ∀ functions depth steps (s : Session) r s', s.context = ctx →
      (Session.runStep (Session.invoke functions depth) (.inhibit steps)).run s = .ok (r, s') →
      ∃ events, Runs ctx (.inhibit :: events ++ [.permit]) s'.context ∧
        openSections 0 events = some 0 := by
  have hw := hr.wellFormed
  refine ⟨?_, ?_, ?_⟩
  · intro before later a c k n hbefore hlater hopen hopen' hcollect
    obtain ⟨hno, hno'⟩ : Event.act .collect ∉ before ∧ Event.act .collect ∉ later := by
      simpa using hcollect
    obtain ⟨hdepth, hheld⟩ := hbefore.inside hopen hw.slots
    have hdepth' := hlater.inhibitDepth hopen' (by omega)
    have hwa := hbefore.wellFormed hw
    refine ⟨hheld hno, hlater.heldOff hopen' (by omega) hno' hwa.slots, by omega, ?_⟩
    intro kind count size hsize hfull
    exact Mutator.allocate_escapes (by omega) (hlater.wellFormed hwa) hsize hfull
  · intro events c hruns hopen
    obtain ⟨b, hinside, hend⟩ := hruns.split
    obtain ⟨hdepth, hheld⟩ := hinside.inside hopen hw.slots
    cases hend with
    | step _ hpermit hdone =>
      cases hdone
      obtain ⟨_, rfl⟩ := Prod.mk.inj (Except.ok.inj hpermit)
      refine ⟨?_, fun hcollect => ?_⟩
      · show b.inhibitDepth - 1 = ctx.inhibitDepth
        omega
      · obtain ⟨new, hlast⟩ := hheld hcollect
        exact ⟨new ++ [], hlast.trans (Context.heldOff_of_heap_eq rfl rfl rfl rfl)⟩
  · intro functions depth steps s r s' hs hrun
    obtain ⟨events, hnested, hruns⟩ := Session.runStep_inhibit hrun
    exact ⟨events, hs ▸ hruns, hnested 0⟩

/-- The arena is full and nothing in it is rooted when this section begins. A list and, in a nested
section, a string made by a running closure are built in it without a collection, past two checkpoints
that would collect at any other time. -/
theorem inhibition_holds_collection_off_nested :
    ∃ start ctx a c : Context,
      Context.ofConfig { arenaBytes := 128, stackSlots := 8, condition := .always } = .ok start ∧
      start.after [.act (.makeClosure .value 0 []), .act (.allocateObjects (1 : Nat))] = ctx ∧
      ctx.heap.arena.remaining = 0 ∧ ctx.rootHandles = [] ∧
      Runs ctx [.inhibit, .act (.append Node.emptyList .undefined), .act .checkpoint, .inhibit] a ∧
      Runs a [.call (.closure .value 0 ⟨0, 1⟩) [], .act (.newString "text" (1 : Nat)), .act .checkpoint] c ∧
      (∃ new, ctx.HeldOff new a) ∧ (∃ new, a.HeldOff new c) ∧ c.inhibitDepth = 2 ∧
      c.totals.collections = 0 ∧ c.totals.escapes = 3 ∧
      (c.heap.block? ⟨1, 1⟩).map (·.place) = some (.young 64) := by
  refine ⟨_, _, _, _, rfl, rfl, by cbv, by cbv, runs_after (by cbv), runs_after (by cbv), ?_⟩
  have hstart : Reachable { arenaBytes := 128, stackSlots := 8, condition := .always } _ := .start rfl
  have hr := hstart.after [.act (.makeClosure .value 0 []), .act (.allocateObjects (1 : Nat))]
  obtain ⟨hinside, _⟩ := inhibition_holds_collection_off hr
  obtain ⟨hheld, hheld', _⟩ := hinside
    [.act (.append Node.emptyList .undefined), .act .checkpoint, .inhibit]
    [.call (.closure .value 0 ⟨0, 1⟩) [], .act (.newString "text" (1 : Nat)), .act .checkpoint]
    _ _ 1 1 (runs_after (by cbv)) (runs_after (by cbv)) rfl rfl (by simp)
  exact ⟨hheld, hheld', by cbv, by cbv, by cbv, by cbv⟩

end GenerationalHeap
