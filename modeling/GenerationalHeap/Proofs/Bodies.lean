import GenerationalHeap.Proofs.Effects

namespace GenerationalHeap

/-- Whether an event is neither the start nor the end of a call. -/
def Event.plain : Event → Bool
  | .call _ _ | .leave _ => false
  | _ => true

/-- The frame that an event begins. -/
def Event.opened (ctx : Context) : Event → List Frame
  | .act .pushFrame => [ctx.stack.pushFrame.1]
  | _ => []

/-- What the code of a closure may do to a context: events and whole calls, one after the other. A
call goes on to its end also if its arguments overflow the stack, with nothing done then. The frames
begun so far are listed, those that have ended included, and `allowed` says what they permit. -/
inductive Body (allowed : List Frame → Event → Prop) :
    List Frame → Context → List Frame → Context → Prop
  | done (frames : List Frame) (c : Context) : Body allowed frames c frames c
  | step {frames frames' : List Frame} {a b c : Context} {r : Except RuntimeError Unit} (event : Event) :
      event.plain = true → allowed frames event → event.run.run.run a = .ok (r, b) →
      Body allowed (event.opened a ++ frames) b frames' c → Body allowed frames a frames' c
  | call {frames frames₁ frames₂ : List Frame} {a a₁ a₂ a₃ a₄ c : Context} {closure : Node}
      {args : List Node} {activation : Mutator.Activation} {r r' : Except RuntimeError Unit} :
      (Mutator.enter closure).run.run a = .ok (.ok activation, a₁) →
      (Mutator.pushAll args).run.run a₁ = .ok (r, a₂) → Body allowed frames a₂ frames₁ a₃ →
      (Mutator.leave activation).run.run a₃ = .ok (r', a₄) → Body allowed frames₁ a₄ frames₂ c →
      Body allowed frames a frames₂ c

theorem Body.trans {allowed : List Frame → Event → Prop} {frames frames₁ frames₂ : List Frame}
    {a b c : Context} (h₁ : Body allowed frames a frames₁ b) (h₂ : Body allowed frames₁ b frames₂ c) :
    Body allowed frames a frames₂ c := by
  induction h₁ with
  | done => exact h₂
  | step event hplain hallowed hrun _ ih => exact .step event hplain hallowed hrun (ih h₂)
  | call henter hpush hbody hleave _ _ ih => exact .call henter hpush hbody hleave (ih h₂)

/-- Frames are ended only if they were begun before. -/
def PopsOwn (frames : List Frame) (event : Event) : Prop :=
  ∀ frame, event = .act (.popFrame frame) → frame ∈ frames

section Events

variable {event : Event} {a : Context}

open Mutator in
theorem Event.leaves_sound (event : Event) (hw : a.heap.WellFormed) (ht : a.stack.Tidy) :
    event.run.Leaves a fun _ b => b.heap.WellFormed ∧ b.stack.Tidy := by
  intro r b hrun
  obtain ⟨k, _, hmoves⟩ := ends_of_ok (event.traced a hw) hrun
  exact ⟨hmoves.wellFormed hw, hmoves.invariant (fun _ _ _ hm ht => hm.tidy ht) ht⟩

open Mutator in
/-- An event inside a body leaves the captures alone, and the stack below the frames it ends. -/
theorem Event.plain_effect (hplain : event.plain = true) (hw : a.heap.WellFormed)
    (ht : a.stack.Tidy) : event.run.Leaves a fun _ b => b.captures = a.captures ∧
      ∀ t : ValueStack, t.Supports a.stack →
        (∀ frame, event = .act (.popFrame frame) → t.top ≤ frame.base ∧ frame.base ≤ frame.top) →
        t.Supports b.stack := by
  cases event with
  | act action =>
    have hact := (action.effect hw ht).mono fun _ b hb => (⟨hb.captures, hb.stack⟩ : _ ∧ _)
    refine hact.bind (fun _ _ hb => ?_) fun _ _ hb => leaves_pure _ ?_ <;>
    · refine ⟨hb.1, fun t hs hown => hb.2 t hs fun frame hf => hown frame ?_⟩
      rw [hf]
  | print ending node writer => exact leaves_read_same _ ⟨rfl, fun _ hs _ => hs⟩
  | inhibit | permit =>
    intro r b hrun
    obtain ⟨_, rfl⟩ := Prod.mk.inj (Except.ok.inj hrun)
    exact ⟨rfl, fun _ hs _ => hs⟩
  | call | leave => simp [Event.plain] at hplain

end Events

/-- When a call begins: its frame stands on the caller's, its arguments in it, and its captures are
rooted. -/
theorem Mutator.call_begins {a a₁ a₂ : Context} {closure : Node} {args : List Node}
    {activation : Activation} {r : Except RuntimeError Unit}
    (henter : (enter closure).run.run a = .ok (.ok activation, a₁))
    (hpush : (pushAll args).run.run a₁ = .ok (r, a₂)) :
    ∃ block s, closure = .closure activation.flavour activation.code block ∧
      activation.frame = a.stack.pushFrame.1 ∧
      a₂ = { a with stack := s, captures := block :: a.captures } ∧
      ∀ t : ValueStack, t.Supports a.stack.pushFrame.2 → t.Supports s := by
  rcases leaves_enter closure _ _ henter with ⟨_, he, _⟩ | ⟨flavour, code, block, _, hc, _, ha, rfl⟩
  · simp at he
  · obtain rfl := Except.ok.inj ha
    obtain ⟨s, rfl, hs⟩ := leaves_pushAll args _ _ hpush
    exact ⟨block, s, hc, rfl, rfl, hs⟩

/-- The frames began above the stack. -/
def ValueStack.Below (t : ValueStack) (frames : List Frame) : Prop :=
  ∀ frame ∈ frames, t.top ≤ frame.base ∧ frame.base ≤ frame.top

theorem ValueStack.Supports.below_opened {t : ValueStack} {a : Context} (hs : t.Supports a.stack)
    {frames : List Frame} (hf : t.Below frames) (event : Event) : t.Below (event.opened a ++ frames) := by
  intro frame hframe
  rcases List.mem_append.mp hframe with hnew | hold
  · have hopened : frame = a.stack.pushFrame.1 := by
      unfold Event.opened at hnew
      split at hnew
      · simpa using hnew
      · simp at hnew
    rw [hopened]
    exact ⟨hs.le_base, hs.base_le⟩
  · exact hf frame hold

/-- A body leaves the captures of its callers alone, whatever it does with frames. -/
theorem Body.sound {allowed : List Frame → Event → Prop} {frames frames' : List Frame} {a c : Context}
    (hb : Body allowed frames a frames' c) (hw : a.heap.WellFormed) (ht : a.stack.Tidy) :
    c.heap.WellFormed ∧ c.stack.Tidy ∧ c.captures = a.captures := by
  induction hb with
  | done frames c => exact ⟨hw, ht, rfl⟩
  | step event hplain _ hrun _ ih =>
    obtain ⟨hw', ht'⟩ := event.leaves_sound hw ht _ _ hrun
    obtain ⟨hw'', ht'', hcaptures⟩ := ih hw' ht'
    exact ⟨hw'', ht'', hcaptures.trans (Event.plain_effect hplain hw ht _ _ hrun).1⟩
  | call henter hpush _ hleave _ ihbody ihrest =>
    obtain ⟨hw₂, ht₂⟩ := Event.leaves_sound _ hw ht _ _ (Event.run_call henter hpush)
    obtain ⟨hw₃, ht₃, hcaptures₃⟩ := ihbody hw₂ ht₂
    obtain ⟨hw₄, ht₄⟩ := Event.leaves_sound (.leave _) hw₃ ht₃ _ _ hleave
    obtain ⟨hw', ht', hcaptures'⟩ := ihrest hw₄ ht₄
    refine ⟨hw', ht', hcaptures'.trans ?_⟩
    obtain ⟨_, _, rfl⟩ := Mutator.leaves_leave _ _ _ hleave
    obtain ⟨_, _, _, _, rfl, _⟩ := Mutator.call_begins henter hpush
    show List.tail _ = _
    rw [hcaptures₃]
    rfl

/-- Code that ends only its own frames, in whatever order and however often, leaves all alone that was
on the stack before. -/
theorem Body.restores {frames frames' : List Frame} {a c : Context} {t : ValueStack}
    (hb : Body PopsOwn frames a frames' c) (hw : a.heap.WellFormed) (hs : t.Supports a.stack)
    (hf : t.Below frames) : t.Supports c.stack ∧ t.Below frames' := by
  induction hb with
  | done frames c => exact ⟨hs, hf⟩
  | step event hplain hown hrun _ ih =>
    obtain ⟨hw', _⟩ := event.leaves_sound hw hs.tidy _ _ hrun
    obtain ⟨_, hstack⟩ := Event.plain_effect hplain hw hs.tidy _ _ hrun
    have hs' := hstack t hs fun frame he => hf frame (hown frame he)
    exact ih hw' hs' (hs.below_opened hf event)
  | call henter hpush hbody hleave _ ihbody ihrest =>
    obtain ⟨block, s, _, hframe, rfl, hargs⟩ := Mutator.call_begins henter hpush
    have hs₂ := hargs t hs.pushFrame
    obtain ⟨hs₃, hf₃⟩ := ihbody hw hs₂ hf
    obtain ⟨hw₃, _, _⟩ := hbody.sound hw hs₂.tidy
    obtain ⟨s₄, hpop, rfl⟩ := Mutator.leaves_leave _ _ _ hleave
    -- The inner frame began above the outer call's, so ending it stays above that too.
    rw [hframe] at hpop
    exact ihrest hw₃ (hs₃.popFrame hs.le_base hs.base_le hpop) hf₃

open Mutator in
/-- The end of a call meets its own frame and gives the caller's stack and captures back. -/
theorem Mutator.leave_restores {closure : Node} {args : List Node} {a a₁ a₂ c : Context}
    {activation : Activation} {r : Except RuntimeError Unit} {frames : List Frame}
    (hw : a.heap.WellFormed) (ht : a.stack.Tidy)
    (henter : (enter closure).run.run a = .ok (.ok activation, a₁))
    (hpush : (pushAll args).run.run a₁ = .ok (r, a₂)) (hbody : Body PopsOwn [] a₂ frames c) :
    (leave activation).run.run c =
      .ok (.ok (), { c with stack := a.stack, captures := a.captures }) := by
  obtain ⟨block, s, _, hframe, rfl, hargs⟩ := call_begins henter hpush
  have hs := hargs a.stack (ValueStack.supports_pushFrame ht)
  obtain ⟨hs', _⟩ := hbody.restores hw hs fun _ hf => by simp at hf
  obtain ⟨_, _, hcaptures⟩ := hbody.sound hw hs.tidy
  rw [run_leave, hframe, hs'.popFrame_eq ht, hcaptures]
  rfl

end GenerationalHeap
