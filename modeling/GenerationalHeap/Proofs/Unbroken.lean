import GenerationalHeap.Proofs.Reachable
import GenerationalHeap.Proofs.Backing
import GenerationalHeap.Proofs.Roots

namespace GenerationalHeap

/-- The second stack holds all the first one holds, and maybe more above. -/
structure ValueStack.Extends (s s' : ValueStack) : Prop where
  top_le : s.top ≤ s'.top
  slot_eq : ∀ i, i < s.top → s'.slot i = s.slot i

theorem ValueStack.Extends.refl (s : ValueStack) : s.Extends s := ⟨Nat.le_refl _, fun _ _ => rfl⟩

theorem ValueStack.Extends.trans {s₁ s₂ s₃ : ValueStack} (h₁ : s₁.Extends s₂) (h₂ : s₂.Extends s₃) :
    s₁.Extends s₃ := by
  refine ⟨h₁.top_le.trans h₂.top_le, fun i hi => ?_⟩
  rw [h₂.slot_eq i (Nat.lt_of_lt_of_le hi h₁.top_le), h₁.slot_eq i hi]

/-- A pushed value stands in a slot, and what was below it still does. -/
theorem ValueStack.push_extends {s s' : ValueStack} {node : Node} (h : s.push node = .ok s') :
    s.Extends s' ∧ ∃ i, i < s'.top ∧ s'.slot i = node := by
  obtain ⟨htop, _, hslot⟩ := ValueStack.push_eq_ok h
  refine ⟨⟨by omega, fun i hi => ?_⟩, s.top, by omega, by rw [hslot, if_pos rfl]⟩
  rw [hslot, if_neg (by omega)]

/-- Popping the frame that was pushed before gives back what was below it. -/
theorem ValueStack.popFrame_extends (s s₁ s₂ : ValueStack) (h : s.pushFrame.2.Extends s₁)
    (hp : s₁.popFrame s.pushFrame.1 = .ok s₂) : s.Extends s₂ := by
  unfold ValueStack.popFrame at hp
  split at hp
  · simp at hp
  · rename_i hlt
    obtain rfl := Except.ok.inj hp
    have htop : s.top ≤ s₁.top := h.top_le
    constructor
    · show s.top ≤ (s₁.truncate s.top).top
      rw [ValueStack.top_truncate]
      omega
    · intro i hi
      show (s₁.truncate s.top).slot i = s.slot i
      rw [ValueStack.slot_truncate, if_neg (by omega)]
      exact h.slot_eq i hi

namespace Context

/-- Every reference held anywhere stands for an allocation. -/
structure Unbroken (ctx : Context) : Prop where
  heap : ctx.heap.WellFormed
  tidy : ctx.stack.Tidy
  stack : ∀ i, ctx.heap.Backs (ctx.stack.slot i)
  roots : ∀ id node, ctx.roots.find? id = some node → ctx.heap.Backs node
  captures : ∀ h ∈ ctx.captures, ctx.heap.Live h
  closed : ctx.heap.Closed

variable {c c' : Context} {kind : PayloadKind} {count : Nat} {h : Handle}

theorem unbroken_ofConfig {config : Config} (hc : ofConfig config = .ok c) : c.Unbroken := by
  have hw := wellFormed_ofConfig hc
  obtain ⟨arena, _, rfl⟩ := ofConfig_eq_ok hc
  have htidy := ValueStack.tidy_ofCapacity config.stackSlots
  refine ⟨hw, htidy, ?_, ?_, ?_, ?_⟩
  · intro i
    rw [htidy.above i (Nat.zero_le i)]
    exact Heap.backs_undefined
  · intro id node hf
    simp [RootRegistry.find?] at hf
  · intro h hh
    simp at hh
  · intro h p hp
    simp [Heap.payload?, Heap.block?, SlotTable.resolve] at hp

theorem Unbroken.turn (hu : c.Unbroken) {new : List Node} {s : ValueStack} (ht : c.stack.Turn new s)
    (hnew : ∀ node ∈ new, c.heap.Backs node) : ({ c with stack := s } : Context).Unbroken := by
  refine ⟨hu.heap, ht.tidy hu.tidy, ?_, hu.roots, hu.captures, hu.closed⟩
  intro i
  rcases ht.slot i with he | he | he
  · simp only [he]
    exact hu.stack i
  · simp only [he]
    exact Heap.backs_undefined
  · exact hnew _ he

theorem Unbroken.write (hu : c.Unbroken) {p q : Payload} (hp : c.heap.payload? h = some p)
    (hk : q.kind = p.kind) (hc : q.count = p.count) (hq : ∀ g ∈ q.references, c.heap.Live g) :
    ({ c with heap := c.heap.setPayload h.index q } : Context).Unbroken := by
  have hlive : ∀ g, c.heap.Live g → (c.heap.setPayload h.index q).Live g := by
    intro g hg
    obtain ⟨a, ha⟩ := Heap.live_iff.mp hg
    rw [Heap.live_iff, Heap.payload?_setPayload hp]
    by_cases he : g = h
    · exact ⟨q, by rw [if_pos he]⟩
    · exact ⟨a, by rw [if_neg he, ha]⟩
  refine ⟨(Move.write c h p q hp hk hc).wellFormed hu.heap, hu.tidy, ?_, ?_, ?_, ?_⟩
  · exact fun i g hg => hlive g (hu.stack i g hg)
  · exact fun id node hf g hg => hlive g (hu.roots id node hf g hg)
  · exact fun g hg => hlive g (hu.captures g hg)
  · intro g a ha target htarget
    rw [Heap.payload?_setPayload hp] at ha
    split at ha
    · obtain rfl := Option.some.inj ha
      exact hlive target (hq target htarget)
    · exact hlive target (hu.closed g a ha target htarget)

theorem Unbroken.served (hu : c.Unbroken) (hs : Served c kind count h c') : c'.Unbroken := by
  have hlive : ∀ g, c.heap.Live g → c'.heap.Live g := by
    intro g hg
    obtain ⟨a, ha⟩ := Heap.live_iff.mp hg
    rw [Heap.live_iff, hs.payload? hu.heap]
    by_cases he : g = h
    · exact ⟨_, by rw [if_pos he]⟩
    · exact ⟨a, by rw [if_neg he, ha]⟩
  obtain ⟨hstack, hroots, hcaptures, _, _⟩ := hs.frame
  refine ⟨hs.wellFormed hu.heap, ?_, ?_, ?_, ?_, ?_⟩
  · rw [hstack]
    exact hu.tidy
  · rw [hstack]
    exact fun i g hg => hlive g (hu.stack i g hg)
  · rw [hroots]
    exact fun id node hf g hg => hlive g (hu.roots id node hf g hg)
  · rw [hcaptures]
    exact fun g hg => hlive g (hu.captures g hg)
  · intro g a ha target htarget
    rw [hs.payload? hu.heap] at ha
    split at ha
    · obtain rfl := Option.some.inj ha
      rw [Payload.references_fresh] at htarget
      simp at htarget
    · exact hlive target (hu.closed g a ha target htarget)

theorem Unbroken.reaches_live (hu : c.Unbroken) (hr : c.heap.slots.Reaches c.IsRoot h) :
    c.heap.Live h := by
  induction hr with
  | root hroot =>
    cases hroot with
    | stacked i _ hn => exact hu.stack i _ hn
    | registered id node hf hn => exact hu.roots id node hf _ hn
    | captured hc => exact hu.captures _ hc
  | edge _ hb hg _ => exact hu.closed _ _ (Heap.payload?_eq_some.mpr ⟨_, hb, rfl⟩) _ hg

theorem reaches_rootHandles_iff (c : Context) (h : Handle) :
    c.heap.slots.Reaches (· ∈ c.rootHandles) h ↔ c.heap.slots.Reaches c.IsRoot h := by
  have hroots : (fun h => h ∈ c.rootHandles) = c.IsRoot := funext fun h => propext (c.mem_rootHandles h)
  rw [hroots]

/-- Where the roots reach nothing that is gone a collection ends. -/
theorem collect_ok_of_live (hw : c.heap.WellFormed)
    (hlive : ∀ h, c.heap.slots.Reaches c.IsRoot h → c.heap.Live h) (trigger : Trigger) :
    ∃ record c', c.collect trigger = .ok (record, c') := by
  rcases c.collect_cases hw trigger with ⟨x, _, hn, hr⟩ | ⟨_, _, _, record, _, _, hok⟩
  · have hthere := hlive x ((c.reaches_rootHandles_iff x).mp hr)
    simp [Heap.Live, Heap.block?, hn] at hthere
  · exact ⟨record, _, hok⟩

theorem Unbroken.collect_ok (hu : c.Unbroken) (trigger : Trigger) :
    ∃ record c', c.collect trigger = .ok (record, c') :=
  collect_ok_of_live hu.heap (fun _ => hu.reaches_live) trigger

theorem Unbroken.collected (hu : c.Unbroken) (trigger : Trigger) (record : CollectionRecord)
    (hc : c.collect trigger = .ok (record, c')) : c'.Unbroken := by
  have hlive : ∀ g, c.heap.slots.Reaches c.IsRoot g → c'.heap.Live g := by
    intro g hg
    obtain ⟨p, hp⟩ := Heap.live_iff.mp (hu.reaches_live hg)
    refine Heap.live_of_payload? ((collect_payload? hu.heap trigger record hc g p).mpr ⟨?_, hp⟩)
    exact (c.reaches_rootHandles_iff g).mpr hg
  obtain ⟨hstack, hroots, hcaptures, _, _⟩ := collect_frame trigger record hc
  refine ⟨(Move.collect c trigger record c' hc).wellFormed hu.heap, ?_, ?_, ?_, ?_, ?_⟩
  · rw [hstack]
    exact hu.tidy
  · rw [hstack]
    intro i g hg
    by_cases hi : i < c.stack.top
    · exact hlive g (.root (.stacked i hi hg))
    · rw [hu.tidy.above i (by omega)] at hg
      exact absurd hg (by simp [Node.references])
  · rw [hroots]
    exact fun id node hf g hg => hlive g (.root (.registered id node hf hg))
  · rw [hcaptures]
    exact fun g hg => hlive g (.root (.captured hg))
  · intro g p hp target htarget
    obtain ⟨hr, hp⟩ := (collect_payload? hu.heap trigger record hc g p).mp hp
    obtain ⟨b, hb, rfl⟩ := Heap.payload?_eq_some.mp hp
    exact hlive target (.edge ((c.reaches_rootHandles_iff g).mp hr) hb htarget)

end Context

def Fault.IsDangling : Fault → Prop
  | .danglingReference _ => True
  | _ => False

namespace Mutator

variable {α β : Type} {ctx : Context} {h : Handle}

/-- The operation leaves an unbroken context, complains about no handle that stands for nothing, no
collection in it breaks off, and its answer is as promised. -/
def Keeps (m : Mutator α) (ctx : Context) (post : α → Context → Prop) : Prop :=
  m.Ends ctx (fun r c => c.Unbroken ∧ Clean r ∧ ∀ a, r = .ok a → post a c) (fun why => ¬ why.IsDangling)

section Keeps

variable {m : Mutator α} {P : α → Context → Prop}

theorem Keeps.mono {Q : α → Context → Prop} (hm : m.Keeps ctx P) (hpq : ∀ a c, P a c → Q a c) :
    m.Keeps ctx Q :=
  ends_mono hm (fun _ _ h => ⟨h.1, h.2.1, fun a ha => hpq a _ (h.2.2 a ha)⟩) fun _ h => h

theorem Keeps.bind {f : α → Mutator β} {Q : β → Context → Prop} (hm : m.Keeps ctx P)
    (hf : ∀ a c, c.Unbroken → P a c → (f a).Keeps c Q) : (m >>= f).Keeps ctx Q := by
  unfold Keeps
  rw [ends_bind]
  apply ends_mono hm _ fun _ h => h
  intro r c hkept
  obtain ⟨hu, hclean, hpost⟩ := hkept
  cases r with
  | error e => exact ⟨hu, hclean, fun b hb => by simp at hb⟩
  | ok a => exact hf a c hu (hpost a rfl)

theorem keeps_pure (hu : ctx.Unbroken) (a : α) (ha : P a ctx) : (pure a : Mutator α).Keeps ctx P :=
  ⟨hu, trivial, fun _ hb => Except.ok.inj hb ▸ ha⟩

theorem keeps_read (hu : ctx.Unbroken) (ask : Context → Except RuntimeError α) (hr : Clean (ask ctx)) :
    (read ask).Keeps ctx fun a c => ask ctx = .ok a ∧ c = ctx :=
  ⟨hu, hr, fun _ ha => ⟨ha, rfl⟩⟩

theorem Keeps.map (hm : m.Keeps ctx P) (f : α → β) : (f <$> m).Keeps ctx fun _ _ => True := by
  rw [← bind_pure_comp]
  exact hm.bind fun a c hu _ => keeps_pure hu _ trivial

end Keeps

theorem keeps_onStack (hu : ctx.Unbroken) (f : ValueStack → Except RuntimeError (α × ValueStack))
    (new : List Node) (hclean : Clean (f ctx.stack))
    (hturn : ∀ a s, f ctx.stack = .ok (a, s) → ctx.stack.Turn new s)
    (hnew : ∀ node ∈ new, ctx.heap.Backs node) :
    (onStack f).Keeps ctx fun a c => ∃ s, f ctx.stack = .ok (a, s) ∧ c = { ctx with stack := s } := by
  unfold Keeps Ends
  rw [run_onStack]
  cases hs : f ctx.stack with
  | error e =>
    rw [hs] at hclean
    exact ⟨hu, hclean, fun a ha => by simp at ha⟩
  | ok p =>
    refine ⟨hu.turn (hturn p.1 p.2 hs) hnew, trivial, fun a ha => ?_⟩
    obtain rfl := Except.ok.inj ha
    exact ⟨p.2, rfl, rfl⟩

theorem keeps_updateStack (hu : ctx.Unbroken) (f : ValueStack → Except RuntimeError ValueStack)
    (new : List Node) (hclean : Clean (f ctx.stack))
    (hturn : ∀ s, f ctx.stack = .ok s → ctx.stack.Turn new s)
    (hnew : ∀ node ∈ new, ctx.heap.Backs node) :
    (updateStack f).Keeps ctx fun _ c => ∃ s, f ctx.stack = .ok s ∧ c = { ctx with stack := s } := by
  unfold Keeps Ends
  rw [run_updateStack]
  cases hs : f ctx.stack with
  | error e =>
    rw [hs] at hclean
    exact ⟨hu, hclean, fun a ha => by simp at ha⟩
  | ok s => exact ⟨hu.turn (hturn s hs) hnew, trivial, fun _ _ => ⟨s, rfl, rfl⟩⟩

theorem keeps_push (hu : ctx.Unbroken) (node : Node) (hb : ctx.heap.Backs node) :
    (push node).Keeps ctx fun _ c => c.heap = ctx.heap ∧ ctx.stack.Extends c.stack ∧
      ∃ i, i < c.stack.top ∧ c.stack.slot i = node := by
  refine (keeps_updateStack hu (·.push node) [node] ?_ (fun s hs => ValueStack.turn_push _ s node hs)
    (by simpa using hb)).mono ?_
  · unfold ValueStack.push
    split <;> simp [RuntimeError.IsDangling]
  · intro _ c hpushed
    obtain ⟨s, hs, rfl⟩ := hpushed
    exact ⟨rfl, ValueStack.push_extends hs⟩

theorem keeps_popFrame (hu : ctx.Unbroken) (frame : Frame) :
    (popFrame frame).Keeps ctx fun _ _ => True := by
  unfold Keeps Ends
  rw [run_popFrame]
  cases hp : ctx.stack.popFrame frame with
  | error why =>
    obtain rfl := popFrame_error _ _ _ hp
    exact id
  | ok s => exact ⟨hu.turn (ValueStack.turn_popFrame _ _ _ hp) (by simp), trivial, fun _ _ => trivial⟩

/-- A scratch frame gives the stack back as it was. -/
theorem keeps_scratch {m : Mutator α} {P : α → Heap → Prop} (hu : ctx.Unbroken)
    (hm : ∀ s, ctx.stack.Extends s → ({ ctx with stack := s } : Context).Unbroken →
      m.Keeps { ctx with stack := s } fun a c => s.Extends c.stack ∧ P a c.heap) :
    (scratch m).Keeps ctx fun a c => ctx.stack.Extends c.stack ∧ P a c.heap := by
  have hext : ctx.stack.Extends ctx.stack.pushFrame.2 := ⟨Nat.le_refl _, fun _ _ => rfl⟩
  have hrun := hm ctx.stack.pushFrame.2 hext (hu.turn (ValueStack.turn_pushFrame _) (by simp))
  unfold Keeps Ends
  rw [run_scratch]
  cases ho : m.run.run { ctx with stack := ctx.stack.pushFrame.2 } with
  | error why => exact ends_of_error hrun ho
  | ok p =>
    obtain ⟨r, c⟩ := p
    obtain ⟨hc, hclean, hpost⟩ := ends_of_ok hrun ho
    simp only
    cases hp : c.stack.popFrame ctx.stack.pushFrame.1 with
    | error why =>
      obtain rfl := popFrame_error _ _ _ hp
      exact id
    | ok s =>
      refine ⟨hc.turn (ValueStack.turn_popFrame _ _ _ hp) (by simp), hclean, fun a ha => ?_⟩
      obtain ⟨hs, hP⟩ := hpost a ha
      exact ⟨ValueStack.popFrame_extends _ _ _ hs hp, hP⟩

theorem keeps_collectWith (hu : ctx.Unbroken) (trigger : Trigger) :
    (collectWith trigger).Keeps ctx fun _ _ => True := by
  obtain ⟨record, c, hc⟩ := hu.collect_ok trigger
  unfold Keeps Ends
  rw [run_collectWith, hc]
  exact ⟨hu.collected trigger record hc, trivial, fun _ _ => trivial⟩

theorem keeps_checkpoint (hu : ctx.Unbroken) : checkpoint.Keeps ctx fun _ _ => True := by
  unfold Keeps
  rw [checkpoint, ends_bind]
  show Ends (if _ then _ else _) ctx _ _
  by_cases hif : ctx.inhibitDepth = 0 ∧ ctx.config.condition ctx.collectInfo
  · rw [if_pos hif]
    exact (keeps_collectWith hu .checkpoint).bind fun _ c hc _ => keeps_pure hc _ trivial
  · rw [if_neg hif]
    exact keeps_pure hu _ trivial

theorem requestSize_clean (limit : Nat) (kind : PayloadKind) (count : Nat) (e : RuntimeError)
    (hr : requestSize limit kind count = .error e) : ¬ e.IsDangling := by
  obtain ⟨_, rfl⟩ := requestSize_eq_error hr
  exact id

/-- An allocation may collect, but only what is rooted nowhere is lost. -/
theorem keeps_allocate (hu : ctx.Unbroken) (kind : PayloadKind) (count : Nat) :
    (allocate kind count).Keeps ctx fun h c => c.stack = ctx.stack ∧
      c.heap.payload? h = some (.fresh kind count) := by
  apply ends_mono (allocate_ends ctx kind count)
  · intro r c hallocated
    rcases hallocated with ⟨e, rfl, rfl, hr⟩ | ⟨h, c₁, rfl, hy, hs⟩
    · refine ⟨hu, ?_, fun a ha => by simp at ha⟩
      exact requestSize_clean _ _ _ _ hr
    · have hyield : c₁.Unbroken ∧ c₁.stack = ctx.stack := by
        rcases hy with rfl | ⟨record, hc⟩
        · exact ⟨hu, rfl⟩
        · exact ⟨hu.collected _ record hc, (Context.collect_frame _ record hc).1⟩
      refine ⟨hyield.1.served hs, trivial, fun a ha => ?_⟩
      obtain rfl := Except.ok.inj ha
      exact ⟨hs.frame.1.trans hyield.2, by simp [hs.payload? hyield.1.heap]⟩
  · intro why hw
    obtain ⟨record, c, hc⟩ := hu.collect_ok .arenaExhausted
    rw [hc] at hw
    simp at hw

/-- What a write to an allocation comes to. -/
def Written (ctx c : Context) : Prop :=
  c.stack = ctx.stack ∧ ∀ g, ctx.heap.Live g → c.heap.Live g

theorem written_setPayload {p : Payload} (hp : ctx.heap.payload? h = some p) (q : Payload) :
    Written ctx { ctx with heap := ctx.heap.setPayload h.index q } := by
  refine ⟨rfl, fun g hg => ?_⟩
  obtain ⟨a, ha⟩ := Heap.live_iff.mp hg
  rw [Heap.live_iff, Heap.payload?_setPayload hp]
  by_cases he : g = h
  · exact ⟨q, by rw [if_pos he]⟩
  · exact ⟨a, by rw [if_neg he, ha]⟩

theorem keeps_modifyObjects (hu : ctx.Unbroken) (f : Array Node → Array Node) (hl : ctx.heap.Live h)
    (hf : ∀ nodes, ctx.heap.payload? h = some (.objects nodes) →
      (f nodes).size = nodes.size ∧ ∀ node ∈ f nodes, ctx.heap.Backs node) :
    (modifyObjects h f).Keeps ctx fun _ c => Written ctx c := by
  have hclean := Heap.clean_objects hl
  unfold Keeps Ends
  rw [run_modifyObjects, Heap.modifyObjects]
  cases ho : ctx.heap.objects h with
  | error e =>
    rw [ho] at hclean
    exact ⟨hu, hclean, fun a ha => by simp at ha⟩
  | ok nodes =>
    have hp := Heap.objects_eq_ok.mp ho
    obtain ⟨hsize, hbacks⟩ := hf nodes hp
    refine ⟨hu.write hp rfl hsize ?_, trivial, fun _ _ => written_setPayload hp _⟩
    intro g hg
    obtain ⟨node, hn, hg⟩ := List.mem_flatMap.mp hg
    exact hbacks node (by simpa using hn) g hg

theorem keeps_modifyBytes (hu : ctx.Unbroken) (f : Array UInt8 → Array UInt8) (hl : ctx.heap.Live h)
    (hf : ∀ data, ctx.heap.payload? h = some (.bytes data) → (f data).size = data.size) :
    (modifyBytes h f).Keeps ctx fun _ c => Written ctx c := by
  have hclean := Heap.clean_bytes hl
  unfold Keeps Ends
  rw [run_modifyBytes, Heap.modifyBytes]
  cases ho : ctx.heap.bytes h with
  | error e =>
    rw [ho] at hclean
    exact ⟨hu, hclean, fun a ha => by simp at ha⟩
  | ok data =>
    have hp := Heap.bytes_eq_ok.mp ho
    refine ⟨hu.write hp rfl (hf data hp) ?_, trivial, fun _ _ => written_setPayload hp _⟩
    intro g hg
    simp [Payload.references] at hg

theorem keeps_writeFirst (hu : ctx.Unbroken) (hl : ctx.heap.Live h) (node : Node)
    (hb : ctx.heap.Backs node) : (writeFirst h node).Keeps ctx fun _ c => Written ctx c := by
  apply keeps_modifyObjects hu _ hl
  intro nodes hp
  refine ⟨by simp, fun a ha => ?_⟩
  rcases Array.mem_or_eq_of_mem_setIfInBounds ha with hin | rfl
  · exact hu.closed.backs hp a hin
  · exact hb

theorem keeps_newString (hu : ctx.Unbroken) (text : String) :
    (newString text).Keeps ctx fun _ _ => True := by
  refine (keeps_allocate hu .bytes (Utf8.encode text).size).bind ?_
  intro h c hc hallocated
  obtain ⟨_, hp⟩ := hallocated
  refine (keeps_modifyBytes hc _ (Heap.live_of_payload? hp) ?_).bind fun _ c' hc' _ =>
    keeps_pure hc' _ trivial
  intro data hd
  rw [hp] at hd
  simp only [Payload.fresh, Option.some.injEq, Payload.bytes.injEq] at hd
  rw [← hd, Array.size_replicate]

theorem keeps_toText (hu : ctx.Unbroken) (node : Node) (hb : ctx.heap.Backs node) :
    (toText node).Keeps ctx fun _ _ => True := by
  have hother : ∀ node, ctx.heap.Backs node →
      (read (·.heap.render node) >>= newString).Keeps ctx fun _ _ => True := fun node hb =>
    (keeps_read hu _ (Heap.clean_render node hb)).bind fun text c hc _ => keeps_newString hc text
  cases node with
  | string length handle => exact keeps_pure hu _ trivial
  | undefined | pointer | scalar | closure | cell => exact hother _ hb

theorem readLocal_clean (s : ValueStack) (i : Nat) : Clean (s.readLocal i) := by
  unfold ValueStack.readLocal ValueStack.position
  split <;> simp [Except.map, RuntimeError.IsDangling]

theorem readLocals_clean (s : ValueStack) (slots : List Nat) : Clean (slots.mapM s.readLocal) := by
  induction slots with
  | nil => exact trivial
  | cons i slots ih =>
    rw [List.mapM_cons]
    refine clean_bind _ _ (readLocal_clean s i) fun node _ => ?_
    exact clean_bind _ _ ih fun nodes _ => trivial

theorem readLocal_eq_ok (s : ValueStack) (i : Nat) (node : Node) (h : s.readLocal i = .ok node) :
    ∃ j, s.slot j = node := by
  unfold ValueStack.readLocal at h
  cases hp : s.position i with
  | error e => simp [hp, Except.map] at h
  | ok j =>
    simp only [hp, Except.map, Except.ok.injEq] at h
    exact ⟨j, h⟩

theorem readLocals_forall₂ {s : ValueStack} {slots : List Nat} {nodes : List Node}
    (h : slots.mapM s.readLocal = .ok nodes) :
    List.Forall₂ (fun i node => s.readLocal i = .ok node) slots nodes := by
  induction slots generalizing nodes with
  | nil =>
    obtain rfl : [] = nodes := Except.ok.inj h
    exact .nil
  | cons i slots ih =>
    rw [List.mapM_cons] at h
    cases hi : s.readLocal i with
    | error e => simp [hi, bind, Except.bind] at h
    | ok first =>
      cases hrest : slots.mapM s.readLocal with
      | error e => simp [hi, hrest, bind, Except.bind] at h
      | ok rest =>
        simp only [hi, hrest, bind, Except.bind, pure, Except.pure, Except.ok.injEq] at h
        subst h
        exact .cons hi (ih hrest)

/-- Values read from the stack stand in its slots. -/
theorem readLocals_eq_ok (s : ValueStack) (slots : List Nat) (nodes : List Node)
    (h : slots.mapM s.readLocal = .ok nodes) (node : Node) (hn : node ∈ nodes) :
    ∃ j, s.slot j = node := by
  have hread := readLocals_forall₂ h
  clear h
  induction hread with
  | nil => simp at hn
  | cons hi _ ih =>
    rcases List.mem_cons.mp hn with rfl | hn
    · exact readLocal_eq_ok s _ node hi
    · exact ih hn

/-- The captured values stay on the stack while their block is allocated. -/
theorem keeps_makeCaptures (hu : ctx.Unbroken) (slots : List Nat) :
    (makeCaptures slots).Keeps ctx fun _ _ => True := by
  refine (keeps_read hu _ (readLocals_clean ctx.stack slots)).bind ?_
  intro values c hc hread
  obtain ⟨hv, rfl⟩ := hread
  refine (keeps_allocate hc .objects (values.length + 1)).bind ?_
  intro h c' hc' hallocated
  obtain ⟨hstack, hp⟩ := hallocated
  refine (keeps_modifyObjects hc' _ (Heap.live_of_payload? hp) ?_).bind fun _ c'' hc'' _ =>
    keeps_pure hc'' _ trivial
  intro nodes hn
  rw [hp] at hn
  simp only [Payload.fresh, Option.some.injEq, Payload.objects.injEq] at hn
  refine ⟨by simp [← hn], fun node hnode => ?_⟩
  simp only [List.mem_toArray, List.mem_cons] at hnode
  rcases hnode with rfl | hnode
  · simp [Heap.Backs, Node.ofCount, Node.integer, Node.references]
  · obtain ⟨j, rfl⟩ := readLocals_eq_ok c.stack slots values hv node hnode
    rw [← hstack]
    exact hc'.stack j

theorem keeps_allocateBox (hu : ctx.Unbroken) (value : Node) (hb : ctx.heap.Backs value) :
    (allocateBox value).Keeps ctx fun h c => ctx.stack.Extends c.stack ∧ c.heap.Live h := by
  refine keeps_scratch (P := fun h heap => heap.Live h) hu fun s hs hus => ?_
  refine (keeps_push hus value hb).bind ?_
  intro _ c₁ hc₁ hpushed
  obtain ⟨_, hext, i, hi, hslot⟩ := hpushed
  refine (keeps_allocate hc₁ .objects 1).bind ?_
  intro target c₂ hc₂ hallocated
  obtain ⟨hstack, hp⟩ := hallocated
  have hlive := Heap.live_of_payload? hp
  have hvalue : c₂.heap.Backs value := by
    rw [← hslot, ← hstack]
    exact hc₂.stack i
  refine (keeps_writeFirst hc₂ hlive value hvalue).bind ?_
  intro _ c₃ hc₃ hwritten
  obtain ⟨hstack₃, hlive₃⟩ := hwritten
  refine keeps_pure hc₃ _ ⟨?_, hlive₃ target hlive⟩
  rw [hstack₃, hstack]
  exact hext

/-- The box of a new head stands on the stack. -/
theorem keeps_makeHead (hu : ctx.Unbroken) (value : Node) (hb : ctx.heap.Backs value) :
    (makeHead value).Keeps ctx fun head c => ctx.stack.Extends c.stack ∧
      ∀ g ∈ head.references, ∃ i, i < c.stack.top ∧ c.stack.slot i = .ref g := by
  have hboxed : ∀ value, ctx.heap.Backs value → (do
      let box ← allocateBox value
      push (.ref box)
      return Head.boxed box : Mutator Head).Keeps ctx fun head c => ctx.stack.Extends c.stack ∧
        ∀ g ∈ head.references, ∃ i, i < c.stack.top ∧ c.stack.slot i = .ref g := by
    intro value hb
    refine (keeps_allocateBox hu value hb).bind ?_
    intro box c₁ hc₁ hallocated
    obtain ⟨hext, hlive⟩ := hallocated
    refine (keeps_push hc₁ (.ref box) (Heap.backs_ref.mpr hlive)).bind ?_
    intro _ c₂ hc₂ hpushed
    obtain ⟨_, hext₂, hslot⟩ := hpushed
    refine keeps_pure hc₂ _ ⟨hext.trans hext₂, fun g hg => ?_⟩
    obtain rfl : g = box := by simpa [Head.references] using hg
    exact hslot
  cases value with
  | scalar value =>
    exact keeps_pure hu _ ⟨ValueStack.Extends.refl _, fun g hg => by simp [Head.references] at hg⟩
  | undefined | pointer | string | closure | cell => exact hboxed _ hb

theorem keeps_readChain (hu : ctx.Unbroken) (ask : Heap → ChainReader α) (good : α → Prop)
    (hw : Heap.Walked good (¬ ·.IsDangling) (ask ctx.heap).run) :
    (readChain ask).Keeps ctx fun a c => good a ∧ c = ctx := by
  unfold Keeps Ends
  rw [run_readChain]
  cases hr : (ask ctx.heap).run with
  | error why =>
    rw [hr] at hw
    obtain rfl : why = .endlessChain := hw
    exact id
  | ok r =>
    rw [hr] at hw
    cases r with
    | error e => exact ⟨hu, hw, fun a ha => by simp at ha⟩
    | ok last => exact ⟨hu, trivial, fun a ha => ⟨Except.ok.inj ha ▸ hw, rfl⟩⟩

theorem references_withNext (link : Handle) (node : Node) (g : Handle)
    (hg : g ∈ (node.withNext (some link)).references) : g ∈ node.references ∨ g = link := by
  cases node with
  | cell c =>
    simp only [Node.withNext, Node.references, List.mem_append] at hg ⊢
    rcases hg with hg | hg
    · exact .inl (.inl hg)
    · exact .inr (by simpa using hg)
  | undefined | pointer | scalar | string | closure => exact .inl hg

theorem keeps_linkLast (hu : ctx.Unbroken) (first link : Handle) (hf : ctx.heap.Live first)
    (hl : ctx.heap.Live link) : (linkLast first link).Keeps ctx fun _ c => c.stack = ctx.stack := by
  refine (keeps_readChain hu _ _ (Heap.lastCell_clean hu.closed hf)).bind ?_
  intro last c hc hwalked
  obtain ⟨hlive, rfl⟩ := hwalked
  refine (keeps_modifyObjects hc _ hlive fun nodes hp => ⟨by simp, fun node hn => ?_⟩).mono
    fun _ _ h => h.1
  obtain ⟨i, hi⟩ := Array.mem_iff_getElem?.mp hn
  rw [Array.getElem?_modify] at hi
  split at hi
  · obtain ⟨a, ha, rfl⟩ := Option.map_eq_some_iff.mp hi
    intro g hg
    rcases references_withNext link a g hg with hg | rfl
    · exact hc.closed.backs hp a (Array.mem_of_getElem? ha) g hg
    · exact hl
  · exact hc.closed.backs hp node (Array.mem_of_getElem? hi)

/-- List, value and box stay on the stack until the new cell is linked. -/
theorem keeps_append (hu : ctx.Unbroken) (list value : Node) (hlist : ctx.heap.Backs list)
    (hvalue : ctx.heap.Backs value) : (append list value).Keeps ctx fun _ _ => True := by
  refine (keeps_read hu _ (Heap.clean_firstCell list hlist)).bind ?_
  intro first ctx' _ hread
  obtain ⟨hfirst, rfl⟩ := hread
  refine (keeps_scratch (P := fun _ _ => True) hu fun s hs hus => ?_).mono fun _ _ _ => trivial
  refine (keeps_push hus list hlist).bind ?_
  intro _ c₁ hc₁ hpushed₁
  obtain ⟨hheap₁, hext₁, i, hi, hslot⟩ := hpushed₁
  have hvalue₁ : c₁.heap.Backs value := by
    rw [hheap₁]
    exact hvalue
  refine (keeps_push hc₁ value hvalue₁).bind ?_
  intro _ c₂ hc₂ hpushed₂
  obtain ⟨hheap₂, hext₂, _⟩ := hpushed₂
  have hvalue₂ : c₂.heap.Backs value := by
    rw [hheap₂]
    exact hvalue₁
  refine (keeps_makeHead hc₂ value hvalue₂).bind ?_
  intro head c₃ hc₃ hmade
  obtain ⟨hext₃, hhead⟩ := hmade
  refine (keeps_allocate hc₃ .objects 1).bind ?_
  intro link c₄ hc₄ hallocated
  obtain ⟨hstack₄, hp⟩ := hallocated
  have hlink := Heap.live_of_payload? hp
  have hcell : c₄.heap.Backs (.cell ⟨head, none⟩) := by
    intro g hg
    obtain ⟨j, _, hj⟩ := hhead g (by simpa [Node.references] using hg)
    have hback := hc₄.stack j
    rw [hstack₄, hj] at hback
    exact Heap.backs_ref.mp hback
  refine (keeps_writeFirst hc₄ hlink _ hcell).bind ?_
  intro _ c₅ hc₅ hwritten
  obtain ⟨hstack₅, hlive₅⟩ := hwritten
  have hext : s.Extends c₅.stack := by
    rw [hstack₅, hstack₄]
    exact hext₁.trans (hext₂.trans hext₃)
  cases first with
  | none => exact keeps_pure hc₅ _ ⟨hext, trivial⟩
  | some p =>
    have hlist₅ : c₅.heap.Backs list := by
      have hkept : c₅.stack.slot i = list := by
        rw [hstack₅, hstack₄, (hext₂.trans hext₃).slot_eq i hi, hslot]
      rw [← hkept]
      exact hc₅.stack i
    rw [(Heap.firstCell_eq_some hfirst).1] at hlist₅
    refine (keeps_linkLast hc₅ p.1 link (Heap.backs_ref.mp hlist₅) (hlive₅ link hlink)).bind ?_
    intro _ c₆ hc₆ hstack₆
    refine keeps_pure hc₆ _ ⟨?_, trivial⟩
    rw [hstack₆]
    exact hext

end Mutator

end GenerationalHeap
