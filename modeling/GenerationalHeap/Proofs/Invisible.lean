import GenerationalHeap.Proofs.History
import GenerationalHeap.Proofs.LockstepActions
import GenerationalHeap.Proofs.Reachable

namespace GenerationalHeap

def Action.collects {o : Operands} : Action o → Bool
  | .collect | .checkpoint => true
  | _ => false

def Step.collects : Step → Bool
  | .act action _ => action.collects
  | _ => false

def Step.oblivious : Step → Bool
  | .act action _ => action.oblivious
  | _ => false

/-- The step met a handle that stands for nothing. -/
def Outcome.dangles : Outcome → Bool
  | .failed (.danglingHandle _) => true
  | _ => false

/-- The outcomes of the steps that are not there only to collect. -/
def observed (steps : List Step) (reports : List Report) : List Outcome :=
  ((steps.zip reports).filter fun p => !p.1.collects).map fun p => p.2.outcome

theorem Action.not_collects_of_oblivious {o : Operands} {action : Action o}
    (h : action.oblivious = true) : action.collects = false := by
  cases action <;> first | rfl | simp [Action.oblivious] at h

section Observed

variable {action : Action Operands.written} (options : Options) {steps : List Step} {r : Report}
  {reports : List Report}

theorem observed_cons_of_collects (ha : action.collects = true) :
    observed (.act action options :: steps) (r :: reports) = observed steps reports := by
  simp [observed, Step.collects, ha]

theorem observed_cons_of_oblivious (ho : action.oblivious = true) :
    observed (.act action options :: steps) (r :: reports) = r.outcome :: observed steps reports := by
  simp [observed, Step.collects, Action.not_collects_of_oblivious ho]

end Observed

/-- Whether no step of a block leaves a slot with a lower version, as a step does in which a version
starts over. -/
def Session.unwrapped (invoke : Invoke) : List Step → Session → Bool
  | [], _ => true
  | step :: steps, s =>
    match (runStep invoke step).run s with
    | .ok (_, t) => s.context.ages t.context && unwrapped invoke steps t
    | .error _ => true

section Matching

variable {R : Handle → Handle → Prop}

theorem Outcome.Matches.binding? {o o' : Outcome} (h : o.Matches R o') :
    Option.Rel (Binding.Matches R) o.binding? o'.binding? := by
  cases h with
  | failed | refused => exact .none
  | answered h =>
    cases h with
    | node h => exact .some (.node h)
    | handle h => exact .some (.handle h)
    | frame f => exact .some (.frame f)
    | root id => exact .some (.root id)
    | _ => exact .none

theorem Env.Matches.named {env env' : Env} (h : env.Matches R env') (options : Options)
    {o o' : Outcome} (ho : o.Matches R o') : (env.named options o).Matches R (env'.named options o') := by
  have hb := ho.binding?
  unfold Env.named
  cases options.name with
  | none => exact h
  | some name =>
    revert hb
    cases o.binding? <;> cases o'.binding? <;> intro hb <;> cases hb
    · exact h
    · exact h.bind name ‹_›

theorem outcome_matches_ofResult {r r' : Except RuntimeError Answer}
    (h : ResultMatches R (Answer.Matches R) r r') : (Outcome.ofResult r).Matches R (.ofResult r') := by
  cases r with
  | error e =>
    cases r' with
    | error e' => exact .failed h
    | ok b => exact h.elim
  | ok a =>
    cases r' with
    | error e' => exact h.elim
    | ok b =>
      have hab : a.Matches R b := h
      cases hab with
      | outOfRange => exact .refused _
      | _ => exact .answered h

end Matching

theorem Env.named_of_none (env : Env) (options : Options) {outcome : Outcome}
    (h : outcome.binding? = none) : env.named options outcome = env := by
  unfold Env.named
  rw [h]
  cases options.name <;> rfl

/-- Collecting takes contents away that are not in use, and yields nothing that can be named. -/
theorem run_collects {action : Action Operands.resolved} (ha : action.collects = true)
    {c d : Context} {result : Except RuntimeError Answer} (hw : c.heap.WellFormed)
    (hrun : action.run.run.run c = .ok (result, d)) :
    c.Shrinks d ∧ (Outcome.ofResult result).binding? = none := by
  cases action with
  | collect =>
    rw [Action.run, Mutator.run_map, Mutator.collect, Mutator.run_collectWith] at hrun
    cases hc : c.collect .explicit with
    | error why => simp [hc, Except.map] at hrun
    | ok p =>
      simp only [hc, Except.map, Except.ok.injEq, Prod.mk.injEq] at hrun
      obtain ⟨rfl, rfl⟩ := hrun
      exact ⟨Context.shrinks_collect hw _ _ hc, rfl⟩
  | checkpoint =>
    rw [Action.run, Mutator.run_map, Mutator.run_checkpoint] at hrun
    split at hrun
    · cases hc : c.collect .checkpoint with
      | error why => simp [hc, Except.map] at hrun
      | ok p =>
        simp only [hc, Except.map, Except.ok.injEq, Prod.mk.injEq] at hrun
        obtain ⟨rfl, rfl⟩ := hrun
        exact ⟨Context.shrinks_collect hw _ _ hc, rfl⟩
    · simp only [Except.map, Except.ok.injEq, Prod.mk.injEq] at hrun
      obtain ⟨rfl, rfl⟩ := hrun
      exact ⟨.refl c, rfl⟩
  | _ => simp [Action.collects] at ha

/-- A block of operations and the same block with further collections in it, or fewer. -/
inductive Interleaved : List Step → List Step → Prop
  | nil : Interleaved [] []
  | left {steps steps' : List Step} (action : Action Operands.written) (options : Options) :
      action.collects = true → Interleaved steps steps' →
      Interleaved (.act action options :: steps) steps'
  | right {steps steps' : List Step} (action : Action Operands.written) (options : Options) :
      action.collects = true → Interleaved steps steps' →
      Interleaved steps (.act action options :: steps')
  | both {steps steps' : List Step} (action : Action Operands.written) (options : Options) :
      action.oblivious = true → Interleaved steps steps' →
      Interleaved (.act action options :: steps) (.act action options :: steps')

namespace Interleaved

variable {steps steps' : List Step}

theorem symm (h : Interleaved steps steps') : Interleaved steps' steps := by
  induction h with
  | nil => exact .nil
  | left action options ha _ ih => exact .right action options ha ih
  | right action options ha _ ih => exact .left action options ha ih
  | both action options ha _ ih => exact .both action options ha ih

theorem append_right (h : Interleaved steps steps') (l : List Step)
    (hl : ∀ step ∈ l, step.collects = true) : Interleaved steps (l ++ steps') := by
  induction l with
  | nil => exact h
  | cons step l ih =>
    obtain ⟨hstep, htail⟩ := List.forall_mem_cons.mp hl
    cases step with
    | act action options => exact .right action options hstep (ih htail)
    | print | call | inhibit | loop | malformed => simp [Step.collects] at hstep

theorem eq_act (h : Interleaved steps steps') :
    ∀ step ∈ steps, ∃ action options, step = .act action options := by
  induction h with
  | nil => simp
  | left action options _ _ ih | both action options _ _ ih =>
    exact List.forall_mem_cons.mpr ⟨⟨action, options, rfl⟩, ih⟩
  | right _ _ _ _ ih => exact ih

end Interleaved

theorem interleaved_of_filter_eq {steps steps' : List Step}
    (hall : ∀ step ∈ steps, step.collects = true ∨ step.oblivious = true)
    (h : (steps.filter fun step => !step.collects) = steps'.filter fun step => !step.collects) :
    Interleaved steps steps' := by
  induction steps generalizing steps' with
  | nil =>
    have hl : ∀ step ∈ steps', step.collects = true := by
      simpa [List.filter_eq_nil_iff] using h.symm
    simpa using Interleaved.nil.append_right steps' hl
  | cons step steps ih =>
    obtain ⟨hstep, htail⟩ := List.forall_mem_cons.mp hall
    cases step with
    | act action options =>
      by_cases hc : action.collects = true
      · have hdrop : Step.collects (.act action options) = true := hc
        simp only [List.filter_cons, hdrop, Bool.not_true, Bool.false_eq_true, if_false] at h
        exact .left action options hc (ih htail h)
      · have hkeep : (!Step.collects (.act action options)) = true := by
          simpa [Step.collects] using hc
        rw [List.filter_cons, if_pos hkeep] at h
        obtain ⟨l₁, l₂, rfl, hl₁, _, hl₂⟩ := List.filter_eq_cons_iff.mp h.symm
        have ho : action.oblivious = true := hstep.resolve_left hc
        have hboth := Interleaved.both action options ho (ih htail hl₂.symm)
        exact hboth.append_right l₁ (by simpa using hl₁)
    | print | call | inhibit | loop | malformed => simp [Step.collects, Step.oblivious] at hstep

namespace Session

variable {invoke : Invoke} {s t : Session}

theorem runBlock_cons_eq_ok {step : Step} {steps : List Step} {reports : List Report}
    (h : (runBlock invoke (step :: steps)).run s = .ok (reports, t)) :
    ∃ first s₁ rest, (runStep invoke step).run s = .ok (first, s₁) ∧
      (runBlock invoke steps).run s₁ = .ok (rest, t) ∧ reports = first :: rest := by
  rw [runBlock] at h
  obtain ⟨first, s₁, hfirst, h⟩ := run_bind_eq_ok h
  obtain ⟨rest, s₂, hrest, h⟩ := run_bind_eq_ok h
  obtain ⟨rfl, rfl⟩ := Prod.mk.inj (Except.ok.inj h)
  exact ⟨first, s₁, rest, hfirst, hrest, rfl⟩

theorem runStep_act_moves {action : Action Operands.written} {options : Options} {r : Report}
    (hw : s.context.heap.WellFormed) (h : (runStep invoke (.act action options)).run s = .ok (r, t)) :
    ∃ k, k ≤ 2 ∧ Moves k s.context t.context := by
  rw [runStep] at h
  rcases runAction_eq_ok h with ⟨_, _, _, hcontext, _⟩ | ⟨resolved, result, _, hrun, _⟩
  · rw [hcontext]
    exact ⟨0, by omega, .refl _⟩
  · exact Mutator.ends_of_ok (resolved.traced s.context hw) hrun

/-- What a block of operations issues is added to what was issued before. -/
theorem runBlock_issued_suffix {steps : List Step} {reports : List Report}
    (hacts : ∀ step ∈ steps, ∃ action options, step = .act action options)
    (hw : s.context.heap.WellFormed) (h : (runBlock invoke steps).run s = .ok (reports, t)) :
    s.context.issued <:+ t.context.issued := by
  induction steps generalizing s reports with
  | nil =>
    rw [runBlock] at h
    obtain ⟨_, rfl⟩ := Prod.mk.inj (Except.ok.inj h)
    exact List.suffix_rfl
  | cons step steps ih =>
    obtain ⟨⟨action, options, rfl⟩, htail⟩ := List.forall_mem_cons.mp hacts
    obtain ⟨first, s₁, rest, hfirst, hrest, rfl⟩ := runBlock_cons_eq_ok h
    obtain ⟨k, _, hmoves⟩ := runStep_act_moves hw hfirst
    exact hmoves.issued_suffix.trans (ih htail (hmoves.wellFormed hw) hrest)

/-- Handles stay distinct over a block of operations in which no version starts over. -/
theorem runBlock_recorded {steps : List Step} {reports : List Report}
    (hacts : ∀ step ∈ steps, ∃ action options, step = .act action options)
    (hw : s.context.heap.WellFormed) (hr : s.context.Recorded) (hu : unwrapped invoke steps s = true)
    (h : (runBlock invoke steps).run s = .ok (reports, t)) : t.context.Recorded := by
  induction steps generalizing s reports with
  | nil =>
    rw [runBlock] at h
    obtain ⟨_, rfl⟩ := Prod.mk.inj (Except.ok.inj h)
    exact hr
  | cons step steps ih =>
    obtain ⟨⟨action, options, rfl⟩, htail⟩ := List.forall_mem_cons.mp hacts
    obtain ⟨first, s₁, rest, hfirst, hrest, rfl⟩ := runBlock_cons_eq_ok h
    obtain ⟨k, hk, hmoves⟩ := runStep_act_moves hw hfirst
    simp only [unwrapped, hfirst, Bool.and_eq_true] at hu
    have hages := hmoves.ages (by omega) hw hu.1
    exact ih htail (hmoves.wellFormed hw) (hmoves.recorded (by omega) hw hages hr) hu.2 hrest

/-- The sessions are the same to a program but for handles of the same number. -/
structure Paired (L L' : List Handle) (s s' : Session) : Prop where
  context : Linked (Twin L L') s.context s'.context
  env : s.env.Matches (Twin L L') s'.env

section Paired

variable {L L' : List Handle} {s' t' : Session} {r r' : Report} {action : Action Operands.written}
  {options : Options}

theorem clean_of_outcome {result : Except RuntimeError Answer}
    (h : (Outcome.ofResult result).dangles = false) : Clean result := by
  cases result with
  | ok a => trivial
  | error e =>
    intro hd
    cases e with
    | danglingHandle x => simp [Outcome.ofResult, Outcome.dangles] at h
    | _ => exact hd

/-- One step of both runs. -/
theorem Paired.both (hR : OneToOne (Twin L L')) (hp : Paired L L' s s') (ho : action.oblivious = true)
    (h : (runStep invoke (.act action options)).run s = .ok (r, t))
    (h' : (runStep invoke (.act action options)).run s' = .ok (r', t'))
    (ht : t.context.issued <:+ L) (ht' : t'.context.issued <:+ L')
    (hc : r.outcome.dangles = false) (hc' : r'.outcome.dangles = false) :
    Paired L L' t t' ∧ r.outcome.Matches (Twin L L') r'.outcome := by
  have hlookup := action.resolve_coupled hR hp.context hp.env ho
  rw [runStep] at h h'
  rcases runAction_eq_ok h with ⟨why, ha, hr, hcontext, henv⟩ | ⟨resolved, result, ha, hrun, hr, henv⟩
  · rcases runAction_eq_ok h' with ⟨why', ha', hr', hcontext', henv'⟩ | ⟨resolved', result', ha', _⟩
    · rw [ha, ha'] at hlookup
      cases hlookup
      refine ⟨⟨?_, ?_⟩, ?_⟩
      · rw [hcontext, hcontext']
        exact hp.context
      · rw [henv, henv']
        exact hp.env
      · rw [hr, hr']
        exact .refused why
    · rw [ha, ha'] at hlookup
      cases hlookup
  · rcases runAction_eq_ok h' with ⟨why', ha', _⟩ | ⟨resolved', result', ha', hrun', hr', henv'⟩
    · rw [ha, ha'] at hlookup
      cases hlookup
    · rw [ha, ha'] at hlookup
      cases hlookup with
      | ok hcoupled =>
        rw [hr] at hc
        rw [hr'] at hc'
        obtain ⟨hlinked, hresult⟩ :=
          hcoupled hrun hrun' ht ht' (clean_of_outcome hc) (clean_of_outcome hc')
        have houtcome := outcome_matches_ofResult hresult
        refine ⟨⟨hlinked, ?_⟩, ?_⟩
        · rw [henv, henv']
          exact hp.env.named options houtcome
        · rw [hr, hr']
          exact houtcome

/-- A step that only collects. -/
theorem runStep_collects (hw : s.context.heap.WellFormed) (ha : action.collects = true)
    (h : (runStep invoke (.act action options)).run s = .ok (r, t)) :
    s.context.Shrinks t.context ∧ t.env = s.env := by
  have hresolve : ∃ resolved : Action Operands.resolved, action.resolve s.env = .ok resolved ∧
      resolved.collects = true := by
    cases action with
    | collect => exact ⟨.collect, rfl, rfl⟩
    | checkpoint => exact ⟨.checkpoint, rfl, rfl⟩
    | _ => simp [Action.collects] at ha
  obtain ⟨resolved, hok, hcollects⟩ := hresolve
  rw [runStep] at h
  rcases runAction_eq_ok h with ⟨why, herr, _⟩ | ⟨resolved', result, hok', hrun, _, henv⟩
  · rw [hok] at herr
    simp at herr
  · rw [hok] at hok'
    obtain rfl := Except.ok.inj hok'
    obtain ⟨hshrinks, hnone⟩ := run_collects hcollects hw hrun
    exact ⟨hshrinks, by rw [henv, Env.named_of_none _ _ hnone]⟩

theorem Paired.left (hp : Paired L L' s s') (ha : action.collects = true)
    (h : (runStep invoke (.act action options)).run s = .ok (r, t)) : Paired L L' t s' := by
  obtain ⟨hshrinks, henv⟩ := runStep_collects hp.context.left ha h
  exact ⟨hp.context.shrink hshrinks (.refl _), by rw [henv]; exact hp.env⟩

theorem Paired.right (hp : Paired L L' s s') (ha : action.collects = true)
    (h : (runStep invoke (.act action options)).run s' = .ok (r, t')) : Paired L L' s t' := by
  obtain ⟨hshrinks, henv⟩ := runStep_collects hp.context.right ha h
  exact ⟨hp.context.shrink (.refl _) hshrinks, by rw [henv]; exact hp.env⟩

/-- Two runs of interleaved blocks stay paired to their ends. -/
theorem Paired.runBlock (hR : OneToOne (Twin L L')) {steps steps' : List Step}
    (hi : Interleaved steps steps') {reports reports' : List Report} (hp : Paired L L' s s')
    (h : (runBlock invoke steps).run s = .ok (reports, t))
    (h' : (runBlock invoke steps').run s' = .ok (reports', t'))
    (ht : t.context.issued <:+ L) (ht' : t'.context.issued <:+ L')
    (hc : ∀ r ∈ reports, r.outcome.dangles = false)
    (hc' : ∀ r ∈ reports', r.outcome.dangles = false) :
    Paired L L' t t' ∧
      List.Forall₂ (Outcome.Matches (Twin L L')) (observed steps reports) (observed steps' reports') := by
  induction hi generalizing s s' reports reports' with
  | nil =>
    rw [Session.runBlock] at h h'
    obtain ⟨rfl, rfl⟩ := Prod.mk.inj (Except.ok.inj h)
    obtain ⟨rfl, rfl⟩ := Prod.mk.inj (Except.ok.inj h')
    exact ⟨hp, .nil⟩
  | left action options ha _ ih =>
    obtain ⟨first, s₁, rest, hfirst, hrest, rfl⟩ := runBlock_cons_eq_ok h
    rw [observed_cons_of_collects options ha]
    exact ih (hp.left ha hfirst) hrest h' (List.forall_mem_cons.mp hc).2 hc'
  | right action options ha _ ih =>
    obtain ⟨first, s₁, rest, hfirst, hrest, rfl⟩ := runBlock_cons_eq_ok h'
    rw [observed_cons_of_collects options ha]
    exact ih (hp.right ha hfirst) h hrest hc (List.forall_mem_cons.mp hc').2
  | both action options ho hi ih =>
    obtain ⟨first, s₁, rest, hfirst, hrest, rfl⟩ := runBlock_cons_eq_ok h
    obtain ⟨first', s₁', rest', hfirst', hrest', rfl⟩ := runBlock_cons_eq_ok h'
    obtain ⟨hc₁, hc⟩ := List.forall_mem_cons.mp hc
    obtain ⟨hc₁', hc'⟩ := List.forall_mem_cons.mp hc'
    -- The lists of handles are those at the end of the runs: what the step issued is part of them.
    obtain ⟨_, _, hm⟩ := runStep_act_moves hp.context.left hfirst
    obtain ⟨_, _, hm'⟩ := runStep_act_moves hp.context.right hfirst'
    have hs₁ := (runBlock_issued_suffix hi.eq_act (hm.wellFormed hp.context.left) hrest).trans ht
    have hs₁' :=
      (runBlock_issued_suffix hi.symm.eq_act (hm'.wellFormed hp.context.right) hrest').trans ht'
    obtain ⟨hp₁, houtcome⟩ := hp.both hR ho hfirst hfirst' hs₁ hs₁' hc₁ hc₁'
    obtain ⟨hend, hall⟩ := ih hp₁ hrest hrest' hc hc'
    rw [observed_cons_of_oblivious options ho, observed_cons_of_oblivious options ho]
    exact ⟨hend, .cons houtcome hall⟩

end Paired

end Session

theorem linked_ofConfig {config config' : Config} {ctx ctx' : Context} (R : Handle → Handle → Prop)
    (hslots : config.stackSlots = config'.stackSlots)
    (hlimit : config.maxAllocationBytes = config'.maxAllocationBytes)
    (h : Context.ofConfig config = .ok ctx) (h' : Context.ofConfig config' = .ok ctx') :
    Linked R ctx ctx' := by
  have hw := wellFormed_ofConfig h
  have hw' := wellFormed_ofConfig h'
  obtain ⟨arena, _, rfl⟩ := Context.ofConfig_eq_ok h
  obtain ⟨arena', _, rfl⟩ := Context.ofConfig_eq_ok h'
  refine ⟨hw, hw', ?_, ?_, ?_, hlimit, rfl⟩
  · intro x x' p p' _ hp
    simp [Heap.payload?, Heap.block?, SlotTable.resolve] at hp
  · refine ⟨?_, rfl, rfl⟩
    simp only [ValueStack.ofCapacity, hslots]
    exact .replicate _ .undefined
  · exact ⟨fun i => by simp, rfl⟩

/-- A script ran from a new context to its end. None of its steps met a handle that stands for nothing,
and no version started over. -/
structure SmoothRun (invoke : Invoke) (config : Config) (ctx : Context) (steps : List Step)
    (reports : List Report) (s : Session) : Prop where
  start : Context.ofConfig config = .ok ctx
  run : (Session.runBlock invoke steps).run { context := ctx } = .ok (reports, s)
  clean : ∀ r ∈ reports, r.outcome.dangles = false
  versions : Session.unwrapped invoke steps { context := ctx } = true

theorem exists_smoothRun (invoke : Invoke) (config : Config) (steps : List Step)
    (check : List Report × Session → Bool)
    (h : ((Context.ofConfig config).toOption.any fun ctx =>
      Session.unwrapped invoke steps { context := ctx } &&
        ((Session.runBlock invoke steps).run { context := ctx }).toOption.any fun p =>
          p.1.all (fun r => !r.outcome.dangles) && check p) = true) :
    ∃ ctx reports s, SmoothRun invoke config ctx steps reports s ∧ check (reports, s) = true := by
  cases hctx : Context.ofConfig config with
  | error why => simp [hctx, Except.toOption] at h
  | ok ctx =>
    simp only [hctx, Except.toOption, Option.any_some, Bool.and_eq_true] at h
    obtain ⟨hversions, h⟩ := h
    cases hrun : (Session.runBlock invoke steps).run { context := ctx } with
    | error why => simp [hrun] at h
    | ok p =>
      simp only [hrun, Option.any_some, Bool.and_eq_true, List.all_eq_true, Bool.not_eq_true'] at h
      exact ⟨ctx, p.1, p.2, ⟨hctx, hrun, h.1, hversions⟩, h.2⟩

/-- Collections are invisible to a program. Its operations, run under any two configurations that give
it the same stack and the same allocation limit, with collections and checkpoints anywhere between
them, have the same outcomes once each handle is read as the handle of the same number in the other
run. -/
theorem collections_invisible {invoke : Invoke} {config config' : Config} {ctx ctx' : Context}
    {steps steps' : List Step} {reports reports' : List Report} {s s' : Session}
    (hslots : config.stackSlots = config'.stackSlots)
    (hlimit : config.maxAllocationBytes = config'.maxAllocationBytes)
    (hsteps : ∀ step ∈ steps, step.collects = true ∨ step.oblivious = true)
    (hsame : (steps.filter fun step => !step.collects) = steps'.filter fun step => !step.collects)
    (h : SmoothRun invoke config ctx steps reports s)
    (h' : SmoothRun invoke config' ctx' steps' reports' s') :
    List.Forall₂ (Outcome.Matches (Twin s.context.issued s'.context.issued))
        (observed steps reports) (observed steps' reports') ∧
      s.context.issued.Nodup ∧ s'.context.issued.Nodup ∧
      s.context.issued.length = s'.context.issued.length := by
  have hi := interleaved_of_filter_eq hsteps hsame
  have hnodup := (Session.runBlock_recorded hi.eq_act (wellFormed_ofConfig h.start)
    (recorded_ofConfig h.start) h.versions h.run).nodup
  have hnodup' := (Session.runBlock_recorded hi.symm.eq_act (wellFormed_ofConfig h'.start)
    (recorded_ofConfig h'.start) h'.versions h'.run).nodup
  have hstart : Session.Paired s.context.issued s'.context.issued { context := ctx } { context := ctx' } :=
    ⟨linked_ofConfig _ hslots hlimit h.start h'.start, .nil, rfl⟩
  obtain ⟨hend, houtcomes⟩ := hstart.runBlock (oneToOne_twin hnodup hnodup') hi h.run h'.run
    List.suffix_rfl List.suffix_rfl h.clean h'.clean
  exact ⟨houtcomes, hnodup, hnodup', hend.context.issued⟩

/-- The second run frees the first allocation and uses its slot again. -/
theorem collections_invisible_renumbered :
    ∃ (ctx ctx' : Context) (steps steps' : List Step) (reports reports' : List Report) (s s' : Session),
      SmoothRun (Session.invoke [] 0) { stackSlots := 8 } ctx steps reports s ∧
      SmoothRun (Session.invoke [] 0) { arenaBytes := 0, stackSlots := 8 } ctx' steps' reports' s' ∧
      List.Forall₂ (Outcome.Matches (Twin s.context.issued s'.context.issued))
        (observed steps reports) (observed steps' reports') ∧
      (reports.length = 4 ∧ s.context.issued = [⟨3, 1⟩, ⟨2, 1⟩, ⟨1, 1⟩, ⟨0, 1⟩]) ∧
      reports'.length = 6 ∧ s'.context.issued = [⟨2, 1⟩, ⟨1, 1⟩, ⟨0, 2⟩, ⟨0, 1⟩] := by
  obtain ⟨ctx, reports, s, h, hcheck⟩ := exists_smoothRun (Session.invoke [] 0) { stackSlots := 8 }
    [.act (.allocateObjects (CountExpr.literal 1)) {},
      .act (.newString "ab" (CountExpr.literal 1)) { name := some "a" },
      .act (.append (NodeExpr.pointer none) (NodeExpr.named "a")) { name := some "l" },
      .act (.car (NodeExpr.named "l")) {}]
    (fun p => p.1.length == 4 && p.2.context.issued == [⟨3, 1⟩, ⟨2, 1⟩, ⟨1, 1⟩, ⟨0, 1⟩]) (by cbv)
  obtain ⟨ctx', reports', s', h', hcheck'⟩ := exists_smoothRun (Session.invoke [] 0)
    { arenaBytes := 0, stackSlots := 8 }
    [.act (.allocateObjects (CountExpr.literal 1)) {}, .act .collect {},
      .act (.newString "ab" (CountExpr.literal 1)) { name := some "a" },
      .act (.append (NodeExpr.pointer none) (NodeExpr.named "a")) { name := some "l" },
      .act (.car (NodeExpr.named "l")) {}, .act .checkpoint {}]
    (fun p => p.1.length == 6 && p.2.context.issued == [⟨2, 1⟩, ⟨1, 1⟩, ⟨0, 2⟩, ⟨0, 1⟩]) (by cbv)
  simp only [Bool.and_eq_true, beq_iff_eq] at hcheck hcheck'
  have hsame := collections_invisible (by rfl) (by rfl)
    (by simp [Step.collects, Step.oblivious, Action.collects, Action.oblivious]) (by rfl) h h'
  exact ⟨ctx, ctx', _, _, reports, reports', s, s', h, h', hsame.1, hcheck, hcheck'⟩

end GenerationalHeap
