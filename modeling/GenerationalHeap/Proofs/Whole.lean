import GenerationalHeap.Proofs.Retention

namespace GenerationalHeap

namespace Context

variable {c c' c'' : Context} {h : Handle}

section Roots

theorem isRoot_pushFrame (c : Context) (g : Handle) :
    ({ c with stack := c.stack.pushFrame.2 } : Context).IsRoot g ↔ c.IsRoot g :=
  ⟨fun hr => hr.mono ⟨Nat.le_refl _, fun _ _ => rfl⟩ rfl rfl,
    fun hr => hr.mono ⟨Nat.le_refl _, fun _ _ => rfl⟩ rfl rfl⟩

/-- A push adds what the value refers to. -/
theorem isRoot_push {node : Node} {s : ValueStack} (hs : c.stack.push node = .ok s) (g : Handle) :
    ({ c with stack := s } : Context).IsRoot g ↔ c.IsRoot g ∨ g ∈ node.references := by
  obtain ⟨htop, _, hslot⟩ := ValueStack.push_eq_ok hs
  constructor
  · intro hr
    cases hr with
    | stacked i hi hg =>
      simp only [htop, hslot] at hi hg
      by_cases hlast : i = c.stack.top
      · exact .inr (by rwa [if_pos hlast] at hg)
      · exact .inl (.stacked i (by omega) (by rwa [if_neg hlast] at hg))
    | registered id node hf hg => exact .inl (.registered id node hf hg)
    | captured hg => exact .inl (.captured hg)
  · intro hr
    rcases hr with hr | hg
    · exact hr.mono (ValueStack.push_extends hs).1 rfl rfl
    · exact .stacked c.stack.top (by simp [htop]) (by simpa [hslot] using hg)

end Roots

/-- Heap and stack are in order, and all that the roots reach is there. -/
structure Whole (c : Context) : Prop where
  heap : c.heap.WellFormed
  tidy : c.stack.Tidy
  live : ∀ h, c.heap.slots.Reaches c.IsRoot h → c.heap.Live h

/-- The second context has all roots of the first one, and what these reached has its contents. -/
structure Carries (c c' : Context) : Prop where
  config : c'.config = c.config
  stack : c.stack.Extends c'.stack
  roots : c'.roots = c.roots
  captures : c'.captures = c.captures
  kept : ∀ h p, c.heap.slots.Reaches c.IsRoot h → c.heap.payload? h = some p →
    c'.heap.payload? h = some p

theorem Carries.isRoot (hc : c.Carries c') (hr : c.IsRoot h) : c'.IsRoot h :=
  hr.mono hc.stack hc.roots hc.captures

theorem Carries.reaches (hc : c.Carries c') (hr : c.heap.slots.Reaches c.IsRoot h) :
    c'.heap.slots.Reaches c'.IsRoot h :=
  Heap.reaches_kept (fun _ hg => .root (hc.isRoot hg)) (fun g p hg _ hp => hc.kept g p hg hp) hr

theorem Carries.trans (h₁ : c.Carries c') (h₂ : c'.Carries c'') : c.Carries c'' := by
  refine ⟨h₂.config.trans h₁.config, h₁.stack.trans h₂.stack, h₂.roots.trans h₁.roots,
    h₂.captures.trans h₁.captures, ?_⟩
  intro g p hr hp
  exact h₂.kept g p (h₁.reaches hr) (h₁.kept g p hr hp)

theorem carries_withStack {s : ValueStack} (hs : c.stack.Extends s) : c.Carries { c with stack := s } :=
  ⟨rfl, hs, rfl, rfl, fun _ _ _ hp => hp⟩

/-- Nothing is lost when the stack is again what it was. -/
theorem Carries.restore (hc : c.Carries c') : c.Carries { c' with stack := c.stack } :=
  ⟨hc.config, .refl _, hc.roots, hc.captures, hc.kept⟩

/-- Without new roots nothing more is reached. -/
theorem Carries.reached (hc : c.Carries c') (hw : c.Whole) (hroot : ∀ h, c'.IsRoot h → c.IsRoot h)
    (hr : c'.heap.slots.Reaches c'.IsRoot h) : c.heap.slots.Reaches c.IsRoot h := by
  refine Heap.reaches_kept (fun g hg => .root (hroot g hg)) (fun g p _ hg hp => ?_) hr
  obtain ⟨q, hq⟩ := Heap.live_iff.mp (hw.live g hg)
  obtain rfl := Option.some.inj ((hc.kept g q hg hq).symm.trans hp)
  exact hq

theorem Carries.whole (hc : c.Carries c') (hw : c.Whole) (hroot : ∀ h, c'.IsRoot h → c.IsRoot h)
    (hheap : c'.heap.WellFormed) (htidy : c'.stack.Tidy) : c'.Whole := by
  refine ⟨hheap, htidy, fun h hr => ?_⟩
  have hreached := hc.reached hw hroot hr
  obtain ⟨p, hp⟩ := Heap.live_iff.mp (hw.live h hreached)
  exact Heap.live_of_payload? (hc.kept h p hreached hp)

theorem Whole.withStack (hw : c.Whole) {s : ValueStack} (ht : s.Tidy)
    (hroot : ∀ h, ({ c with stack := s } : Context).IsRoot h → c.IsRoot h) :
    ({ c with stack := s } : Context).Whole :=
  ⟨hw.heap, ht, fun h hr => hw.live h (hr.rebase fun g hg => .root (hroot g hg))⟩

/-- An allocation that refers to nothing but what the roots reach may become a root itself. -/
theorem Whole.push_ref (hw : c.Whole) {p : Payload} (hp : c.heap.payload? h = some p)
    (hrefs : ∀ g ∈ p.references, c.IsRoot g) {s : ValueStack} (hs : c.stack.push (.ref h) = .ok s) :
    ({ c with stack := s } : Context).Whole := by
  have hroot : ∀ g, ({ c with stack := s } : Context).IsRoot g ↔ c.IsRoot g ∨ g = h := by
    intro g
    simpa [Node.ref, Node.references] using isRoot_push hs g
  refine ⟨hw.heap, (ValueStack.turn_push _ _ _ hs).tidy hw.tidy, fun x hr => ?_⟩
  have hcases : c.heap.slots.Reaches c.IsRoot x ∨ x = h := by
    induction hr with
    | root hheld => exact ((hroot _).mp hheld).imp .root id
    | @edge x g b _ hb hg ih =>
      rcases ih with hreached | rfl
      · exact .inl (.edge hreached hb hg)
      · obtain ⟨b', hb', rfl⟩ := Heap.payload?_eq_some.mp hp
        obtain rfl := Option.some.inj (hb'.symm.trans hb)
        exact .inl (.root (hrefs g hg))
  rcases hcases with hreached | rfl
  · exact hw.live x hreached
  · exact Heap.live_of_payload? hp

/-- A write to what the roots do not reach is not seen from them. -/
theorem Whole.write (hw : c.Whole) {p q : Payload} (hp : c.heap.payload? h = some p)
    (hk : q.kind = p.kind) (hc : q.count = p.count) (hapart : ¬ c.heap.slots.Reaches c.IsRoot h) :
    c.Carries { c with heap := c.heap.setPayload h.index q } ∧
      ({ c with heap := c.heap.setPayload h.index q } : Context).Whole := by
  have hcarries : c.Carries { c with heap := c.heap.setPayload h.index q } := by
    refine ⟨rfl, .refl _, rfl, rfl, fun g held hr hheld => ?_⟩
    have hne : g ≠ h := by
      rintro rfl
      exact hapart hr
    rw [Heap.payload?_setPayload hp, if_neg hne, hheld]
  exact ⟨hcarries, hcarries.whole hw (fun g hr => hr.mono (.refl _) rfl rfl)
    ((Move.write c h p q hp hk hc).wellFormed hw.heap) hw.tidy⟩

end Context

namespace Mutator

variable {α β : Type} {c : Context} {done : Except RuntimeError α → Context → Prop}

/-- The operation ends, with an answer or error and a context as said. -/
def Returns (m : Mutator α) (c : Context) (done : Except RuntimeError α → Context → Prop) : Prop :=
  ∃ r c', m.run.run c = .ok (r, c') ∧ done r c'

theorem Returns.bind {m : Mutator α} {f : α → Mutator β} {last : Except RuntimeError β → Context → Prop}
    (hm : m.Returns c done) (herr : ∀ e c', done (.error e) c' → last (.error e) c')
    (hf : ∀ x c', done (.ok x) c' → (f x).Returns c' last) : (m >>= f).Returns c last := by
  obtain ⟨r, c', hrun, hdone⟩ := hm
  unfold Returns
  rw [run_bind, hrun]
  cases r with
  | error e => exact ⟨_, _, rfl, herr e c' hdone⟩
  | ok x => exact hf x c' hdone

theorem returns_pure (x : α) (h : done (.ok x) c) : (pure x : Mutator α).Returns c done :=
  ⟨_, _, rfl, h⟩

theorem returns_read {ask : Context → Except RuntimeError β} {f : β → Mutator α} {x : β}
    (hask : ask c = .ok x) (hf : (f x).Returns c done) : (read ask >>= f).Returns c done := by
  unfold Returns
  rw [run_bind, run_read, hask]
  exact hf

theorem returns_push {rest : Mutator α} (node : Node)
    (hfull : c.stack.capacity ≤ c.stack.top → done (.error (.stackOverflow c.stack.capacity)) c)
    (hrest : ∀ s, c.stack.push node = .ok s → rest.Returns { c with stack := s } done) :
    (push node >>= fun _ => rest).Returns c done := by
  unfold Returns
  rw [run_bind, push, run_updateStack]
  by_cases hlt : c.stack.top < c.stack.capacity
  · have hpush : ∃ s, c.stack.push node = .ok s := by
      rw [ValueStack.push, if_pos hlt]
      exact ⟨_, rfl⟩
    obtain ⟨s, hs⟩ := hpush
    rw [hs]
    exact hrest s hs
  · rw [ValueStack.push_of_full (by omega)]
    exact ⟨_, _, rfl, hfull (by omega)⟩

/-- An operation in a frame of its own leaves the stack as it was, if it leaves what is below its
frame alone. -/
theorem returns_scratch {m : Mutator α} (ht : c.stack.Tidy)
    (hm : m.Returns { c with stack := c.stack.pushFrame.2 } fun r c' =>
      c.stack.Supports c'.stack ∧ done r { c' with stack := c.stack }) :
    (scratch m).Returns c done := by
  obtain ⟨r, c', hrun, hsupports, hdone⟩ := hm
  refine ⟨r, _, ?_, hdone⟩
  simp only [run_scratch, hrun, hsupports.popFrame_eq ht]

/-- An allocation ends where all that the roots reach is there, and all of it is there afterwards. -/
theorem returns_allocate (hw : c.Whole) (kind : PayloadKind) (count : Nat) :
    (allocate kind count).Returns c fun r c' =>
      (∃ e, r = .error e ∧ c' = c ∧ requestSize c.config.maxAllocationBytes kind count = .error e) ∨
      ∃ h, r = .ok h ∧ c.Carries c' ∧ c'.Whole ∧ c'.stack = c.stack ∧
        c'.heap.payload? h = some (.fresh kind count) ∧ ¬ c'.heap.slots.Reaches c'.IsRoot h := by
  have hends := allocate_ends c kind count
  cases hrun : (allocate kind count).run.run c with
  | error why =>
    obtain ⟨record, c₁, hc⟩ := Context.collect_ok_of_live hw.heap hw.live .arenaExhausted
    have hfault := ends_of_error hends hrun
    simp [hc] at hfault
  | ok p =>
    obtain ⟨r, c'⟩ := p
    refine ⟨r, c', hrun, ?_⟩
    rcases ends_of_ok hends hrun with hrefused | ⟨h, c₁, rfl, hy, hserved⟩
    · exact .inl hrefused
    -- Seen from here, the roots themselves are what has to be kept.
    have hs := Context.sheltered_refl hw.heap c.IsRoot
    rcases leaves_allocate kind count hs (fun _ hg => hg) (fun _ hg => .inl hg) _ _ hrun with
      ⟨_, he, _⟩ | ⟨_, hh, hs', hunkept, hstack, _, hp⟩
    · simp at he
    obtain rfl := Except.ok.inj hh
    have hconfig : c'.config = c.config := by
      rcases hy with rfl | ⟨record, hc⟩
      · exact hserved.frame.2.2.2.1
      · exact hserved.frame.2.2.2.1.trans (Context.collect_frame _ record hc).2.2.2.1
    have hroot : ∀ g, c'.IsRoot g → c.IsRoot g := fun g hr =>
      hr.mono (hstack ▸ .refl _) hs'.roots.symm hs'.captures.symm
    have hcarries : c.Carries c' :=
      ⟨hconfig, hstack ▸ .refl _, hs'.roots, hs'.captures, fun g p hr hp => hs'.kept g p hp (.inr hr)⟩
    refine .inr ⟨h, rfl, hcarries, ?_, hstack, hp, ?_⟩
    · exact hcarries.whole hw hroot hs'.heap (hstack ▸ hw.tidy)
    · intro hr
      have hreached := hcarries.reached hw hroot hr
      obtain ⟨p, hp⟩ := Heap.live_iff.mp (hw.live h hreached)
      exact hunkept p hp (.inr hreached)

/-- One slot is within every limit that admits a value. -/
theorem requestSize_one (limit : Nat) : requestSize limit .objects 1 =
    if limit < nodeBytes then .error (.allocationTooLarge nodeBytes limit) else .ok 64 := rfl

/-- An allocation of one slot is made and filled before anything else happens. -/
theorem returns_allocate_fill (hw : c.Whole) (node : Node) {rest : Handle → Mutator α}
    (hrefused : c.config.maxAllocationBytes < nodeBytes →
      done (.error (.allocationTooLarge nodeBytes c.config.maxAllocationBytes)) c)
    (hrest : ∀ h c', c.Carries c' → c'.Whole → c'.stack = c.stack →
      c'.heap.payload? h = some (.objects #[node]) → ¬ c.heap.slots.Reaches c.IsRoot h →
      (rest h).Returns c' done) :
    (allocateObjects 1 >>= fun h => writeFirst h node >>= fun _ => rest h).Returns c done := by
  refine (returns_allocate hw .objects 1).bind ?_ ?_
  · intro e c' hfailed
    rcases hfailed with ⟨_, he, rfl, hsize⟩ | ⟨_, he, _⟩
    · obtain rfl := Except.error.inj he
      rw [requestSize_one] at hsize
      split at hsize
      · rename_i hlt
        obtain rfl := Except.error.inj hsize
        exact hrefused hlt
      · simp at hsize
    · simp at he
  · intro h c₁ hallocated
    rcases hallocated with ⟨_, he, _⟩ | ⟨_, hh, hcarries, hw₁, hstack, hp, hapart⟩
    · simp at he
    obtain rfl := Except.ok.inj hh
    obtain ⟨hcarries₁, hw₂⟩ := hw₁.write (q := .objects #[node]) hp rfl rfl hapart
    unfold Returns
    rw [run_bind, run_writeFirst_one node h c₁ hp]
    refine hrest h _ (hcarries.trans hcarries₁) hw₂ hstack ?_ fun hr => hapart (hcarries.reaches hr)
    show (c₁.heap.setPayload h.index _).payload? h = _
    rw [Heap.payload?_setPayload hp, if_pos rfl]

end Mutator

end GenerationalHeap
