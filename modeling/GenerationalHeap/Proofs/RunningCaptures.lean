import GenerationalHeap.Proofs.Calls

namespace GenerationalHeap

namespace Context

/-- The blocks of all running closures are there and hold values. -/
def CapturesHeld (ctx : Context) : Prop :=
  ∀ h ∈ ctx.captures, ∃ nodes, ctx.heap.payload? h = some (.objects nodes)

variable {c c' : Context}

/-- Contents of one kind stay contents of that kind. -/
theorem capturesHeld_write {h : Handle} {p q : Payload} (hc : c.CapturesHeld)
    (hp : c.heap.payload? h = some p) (hkind : q.kind = p.kind) :
    ({ c with heap := c.heap.setPayload h.index q } : Context).CapturesHeld := by
  intro g hg
  obtain ⟨nodes, hnodes⟩ := hc g hg
  have hview := Heap.payload?_setPayload hp q g
  by_cases he : g = h
  · have hold : p = .objects nodes := by
      rw [he, hp] at hnodes
      exact Option.some.inj hnodes
    cases q with
    | objects nodes' => exact ⟨nodes', by rw [hview, if_pos he]⟩
    | bytes data => simp [hold, Payload.kind] at hkind
  · exact ⟨nodes, by rw [hview, if_neg he, hnodes]⟩

theorem capturesHeld_served {kind : PayloadKind} {count : Nat} {h : Handle} (hc : c.CapturesHeld)
    (hw : c.heap.WellFormed) (hs : c.Served kind count h c') : c'.CapturesHeld := by
  intro g hg
  rw [hs.frame.2.2.1] at hg
  obtain ⟨nodes, hnodes⟩ := hc g hg
  have hne : g ≠ h := by
    rintro rfl
    simp [hs.vacant hw] at hnodes
  exact ⟨nodes, by rw [hs.payload? hw, if_neg hne, hnodes]⟩

/-- The capture stack is scanned by every collection, whatever made it run. -/
theorem capturesHeld_collected {trigger : Trigger} {record : CollectionRecord} (hc : c.CapturesHeld)
    (hw : c.heap.WellFormed) (hcollect : c.collect trigger = .ok (record, c')) : c'.CapturesHeld := by
  intro g hg
  rw [(collect_frame trigger record hcollect).2.2.1] at hg
  obtain ⟨nodes, hnodes⟩ := hc g hg
  have hroot : g ∈ c.rootHandles := (c.mem_rootHandles g).mpr (.captured hg)
  exact ⟨nodes, (collect_payload? hw trigger record hcollect g _).mpr ⟨.root hroot, hnodes⟩⟩

end Context

/-- A block is checked right before it is put on the capture stack, and stays as long as it is on it. -/
theorem Move.capturesHeld {n : Nat} {a b : Context} (hm : Move n a b) (hw : a.heap.WellFormed)
    (ha : a.CapturesHeld) : b.CapturesHeld := by
  cases hm with
  | stack | roots | inhibit => exact ha
  | enter _ h count hcount =>
    intro g hg
    rcases List.mem_cons.mp hg with rfl | hold
    · obtain ⟨values, _, hp⟩ := Heap.captureCount_eq_ok.mp hcount
      exact ⟨_, hp⟩
    · exact ha g hold
  | leave => exact fun g hg => ha g (List.mem_of_mem_tail hg)
  | write _ h p q hp hkind _ => exact Context.capturesHeld_write ha hp hkind
  | serve _ kind count h _ hs => exact Context.capturesHeld_served ha hw hs
  | collect _ trigger record _ hc => exact Context.capturesHeld_collected ha hw hc

theorem Reachable.capturesHeld {config : Config} {ctx : Context} (hr : Reachable config ctx) :
    ctx.CapturesHeld := by
  apply (hr.invariant (P := Context.CapturesHeld) _ fun _ _ _ hm hw ha => hm.capturesHeld hw ha).2
  intro c hc
  obtain ⟨arena, _, rfl⟩ := Context.ofConfig_eq_ok hc
  intro h hh
  simp at hh

/-- What code does from a reachable context on, calls included, leads to a reachable one. -/
theorem Body.reachable {config : Config} {allowed : List Frame → Event → Prop}
    {frames frames' : List Frame} {a c : Context} (hb : Body allowed frames a frames' c)
    (hr : Reachable config a) : Reachable config c := by
  induction hb with
  | done => exact hr
  | step event _ _ hrun _ ih => exact ih (.step event hr hrun)
  | call henter hpush _ hleave _ ihbody ihrest =>
    have hinside := ihbody (.step _ hr (Event.run_call henter hpush))
    exact ihrest (.step (.leave _) hinside hleave)

/-- What a read of the running closure's captures can fail with: no closure runs, or the block does not
have the form or the length asked for. -/
inductive Context.CaptureError (ctx : Context) : RuntimeError → Prop
  | idle : ctx.captures = [] → CaptureError ctx .noActiveClosure
  | mismatch (index count : Nat) : CaptureError ctx (.captureCountMismatch index count)

section Reading

variable {ctx : Context} {e : RuntimeError}

theorem Heap.captureCount_error {heap : Heap} {block : Handle} {nodes : Array Node}
    (hp : heap.payload? block = some (.objects nodes)) (h : heap.captureCount block = .error e) :
    ∃ index count, e = .captureCountMismatch index count := by
  have hobjects : heap.objects block = .ok nodes := Heap.objects_eq_ok.mpr hp
  simp only [captureCount, hobjects, bind, Except.bind] at h
  split at h
  · split at h
    · simp at h
    · exact ⟨_, _, (Except.error.inj h).symm⟩
  · exact ⟨_, _, (Except.error.inj h).symm⟩

theorem Context.captureCount_error (hc : ctx.CapturesHeld) (h : ctx.captureCount = .error e) :
    ctx.CaptureError e := by
  cases hcaptures : ctx.captures with
  | nil =>
    simp only [captureCount, activeCaptures, hcaptures, bind, Except.bind] at h
    obtain rfl := Except.error.inj h
    exact .idle hcaptures
  | cons block rest =>
    simp only [captureCount, activeCaptures, hcaptures, bind, Except.bind] at h
    obtain ⟨nodes, hp⟩ := hc block (by simp [hcaptures])
    obtain ⟨index, count, rfl⟩ := Heap.captureCount_error hp h
    exact .mismatch index count

theorem Context.capture_error (hc : ctx.CapturesHeld) {i : Nat} (h : ctx.capture i = .error e) :
    ctx.CaptureError e := by
  cases hcaptures : ctx.captures with
  | nil =>
    simp only [capture, activeCaptures, hcaptures, bind, Except.bind] at h
    obtain rfl := Except.error.inj h
    exact .idle hcaptures
  | cons block rest =>
    obtain ⟨nodes, hp⟩ := hc block (by simp [hcaptures])
    simp only [capture, activeCaptures, hcaptures, Heap.objects_eq_ok.mpr hp, bind, Except.bind] at h
    cases hcount : ctx.heap.captureCount block with
    | error e' =>
      rw [hcount] at h
      obtain rfl := Except.error.inj h
      obtain ⟨index, count, rfl⟩ := Heap.captureCount_error hp hcount
      exact .mismatch index count
    | ok count =>
      simp only [hcount] at h
      split at h
      · simp at h
      · obtain rfl := Except.error.inj h
        exact .mismatch i count

end Reading

/-- The captures of running closures never dangle, whatever values a program stores and however deep
its calls go. A read of them fails only for want of a running closure or of a capture of that number;
and whatever the code of a call does, collections included, its block and those of all its callers are
there when it has done it. -/
theorem running_captures_never_dangle {config : Config} {ctx : Context} (hr : Reachable config ctx) :
    (∀ h ∈ ctx.captures, ∃ nodes, ctx.heap.objects h = .ok nodes) ∧
      (∀ e, ctx.captureCount = .error e → ctx.CaptureError e) ∧
      (∀ i e, ctx.capture i = .error e → ctx.CaptureError e) ∧
      ∀ closure args activation c₁ r c₂ frames c₃,
        (Mutator.enter closure).run.run ctx = .ok (.ok activation, c₁) →
        (Mutator.pushAll args).run.run c₁ = .ok (r, c₂) → Body (fun _ _ => True) [] c₂ frames c₃ →
        ∃ block, closure = .closure activation.flavour activation.code block ∧
          c₃.captures = block :: ctx.captures ∧
          ∀ h ∈ block :: ctx.captures, ∃ nodes, c₃.heap.objects h = .ok nodes := by
  have hobjects : ∀ {c : Context}, Reachable config c → ∀ h ∈ c.captures,
      ∃ nodes, c.heap.objects h = .ok nodes := by
    intro c hc h hh
    obtain ⟨nodes, hp⟩ := hc.capturesHeld h hh
    exact ⟨nodes, Heap.objects_eq_ok.mpr hp⟩
  refine ⟨hobjects hr, fun e => Context.captureCount_error hr.capturesHeld,
    fun i e => Context.capture_error hr.capturesHeld, ?_⟩
  intro closure args activation c₁ r c₂ frames c₃ henter hpush hbody
  have hr₂ : Reachable config c₂ := .step _ hr (Event.run_call henter hpush)
  have hcaptures₃ : c₃.captures = c₂.captures := (hbody.sound hr₂.wellFormed hr₂.tidy).2.2
  obtain ⟨block, s, hclosure, _, rfl, _⟩ := Mutator.call_begins henter hpush
  have hheld := hobjects (hbody.reachable hr₂)
  rw [hcaptures₃] at hheld
  exact ⟨block, hclosure, hcaptures₃, hheld⟩

/-- Two calls are running, nothing but the capture stack refers to their blocks, and a stale handle is
stored in the heap when a collection runs. -/
theorem running_captures_never_dangle_unrooted :
    ∃ ctx, Reachable { arenaBytes := 400, stackSlots := 8 } ctx ∧ ctx.totals.collections = 2 ∧
      ctx.captures = [⟨1, 1⟩, ⟨0, 2⟩] ∧ ctx.rootHandles = [⟨0, 2⟩, ⟨1, 1⟩] ∧
      ¬ ctx.heap.Live ⟨0, 1⟩ ∧ ∀ h ∈ ctx.captures, ∃ nodes, ctx.heap.objects h = .ok nodes := by
  have hstart : Reachable { arenaBytes := 400, stackSlots := 8 } _ := .start rfl
  have hr := hstart.after [.act (.allocateObjects (1 : Nat)), .act .collect,
    .act (.makeClosure .value 0 []), .act (.makeClosure .value 1 []), .act (.allocateObjects (1 : Nat)),
    .act (.setObject (⟨2, 1⟩ : Handle) (0 : Nat) (Node.ref ⟨0, 1⟩)),
    .call (.closure .value 0 ⟨0, 2⟩) [], .call (.closure .value 1 ⟨1, 1⟩) [], .act .collect]
  refine ⟨_, hr, by cbv, by cbv, by cbv, ?_, (running_captures_never_dangle hr).1⟩
  rw [Heap.Live, Bool.not_eq_true]
  cbv

end GenerationalHeap
