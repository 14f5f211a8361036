import GenerationalHeap.Proofs.Unbroken
import GenerationalHeap.Proofs.Frames

namespace GenerationalHeap

/-- Whether the contents begin with a list cell. -/
def Payload.firstIsCell : Payload → Bool
  | .objects nodes => (nodes[0]?.getD Node.undefined).isCell
  | .bytes _ => false

/-- A walk along a chain ends at a cell. -/
theorem Heap.lastCell_readCell (heap : Heap) (h : Handle) :
    Walked (fun last => ∃ cell, heap.readCell last = .ok cell) (fun _ => True)
      (heap.lastCell h).run := by
  apply heap.lastCell_walked
  apply heap.walk_walked (fun h _ => .ok h) (fun _ => True)
  · exact fun _ _ _ _ => trivial
  · exact fun _ _ _ _ _ _ => trivial
  · intro h cell last _ hr hl
    exact ⟨cell, Except.ok.inj hl ▸ hr⟩
  · exact fun _ _ _ _ _ _ => trivial
  · trivial

namespace Context

theorem IsRoot.mono {c c' : Context} {h : Handle} (hr : c.IsRoot h) (hstack : c.stack.Extends c'.stack)
    (hroots : c'.roots = c.roots) (hcaptures : c'.captures = c.captures) : c'.IsRoot h := by
  cases hr with
  | stacked i hi hn =>
    refine .stacked i (Nat.lt_of_lt_of_le hi hstack.top_le) ?_
    rwa [hstack.slot_eq i hi]
  | registered id node hf hn => exact .registered id node (by rwa [hroots]) hn
  | captured hc => exact .captured (by rwa [hcaptures])

/-- How an operation that started at `a` stands at `c`. Allocations were lost by collections only, none
of those that `shelter` reached at the start; those made since are there. -/
structure Sheltered (a : Context) (shelter : Handle → Prop) (c : Context) : Prop where
  heap : c.heap.WellFormed
  roots : c.roots = a.roots
  captures : c.captures = a.captures
  collections_le : a.totals.collections ≤ c.totals.collections
  kept : ∀ h p, a.heap.payload? h = some p →
    c.totals.collections = a.totals.collections ∨ a.heap.slots.Reaches shelter h →
    c.heap.payload? h = some p
  issued : ∀ h ∈ c.issued, h ∈ a.issued ∨ c.heap.Live h

/-- The handle stands for nothing that was there at the start and had to be kept. -/
def Unkept (a : Context) (shelter : Handle → Prop) (c : Context) (h : Handle) : Prop :=
  ∀ p, a.heap.payload? h = some p →
    ¬ (c.totals.collections = a.totals.collections ∨ a.heap.slots.Reaches shelter h)

variable {a c c' : Context} {shelter : Handle → Prop} {kind : PayloadKind} {count : Nat} {h : Handle}

theorem sheltered_refl (hw : a.heap.WellFormed) (shelter : Handle → Prop) : a.Sheltered shelter a :=
  ⟨hw, rfl, rfl, Nat.le_refl _, fun _ _ hp _ => hp, fun _ hh => .inl hh⟩

theorem Sheltered.withStack (hs : a.Sheltered shelter c) (s : ValueStack) :
    a.Sheltered shelter { c with stack := s } :=
  ⟨hs.heap, hs.roots, hs.captures, hs.collections_le, hs.kept, hs.issued⟩

/-- What the shelter reached at the start is reached from the roots while these hold the shelter. -/
theorem Sheltered.reaches (hs : a.Sheltered shelter c) (hroot : ∀ g, shelter g → c.IsRoot g)
    (hr : a.heap.slots.Reaches shelter h) : c.heap.slots.Reaches c.IsRoot h :=
  Heap.reaches_kept (fun g hg => .root (hroot g hg)) (fun g p hg _ hp => hs.kept g p hp (.inr hg)) hr

theorem Sheltered.collected (hs : a.Sheltered shelter c) (hroot : ∀ g, shelter g → c.IsRoot g)
    (hnew : ∀ g ∈ c.issued, g ∈ a.issued ∨ c.IsRoot g) {trigger : Trigger}
    {record : CollectionRecord} (hc : c.collect trigger = .ok (record, c')) :
    a.Sheltered shelter c' := by
  have hkeep : ∀ g p, c.heap.slots.Reaches c.IsRoot g → c.heap.payload? g = some p →
      c'.heap.payload? g = some p := fun g p hr hp =>
    (collect_payload? hs.heap trigger record hc g p).mpr ⟨(c.reaches_rootHandles_iff g).mpr hr, hp⟩
  have hcount := (Move.collect c trigger record c' hc).collections_eq hs.heap
  have hle := hs.collections_le
  obtain ⟨_, hroots, hcaptures, _, hissued⟩ := collect_frame trigger record hc
  refine ⟨(Move.collect c trigger record c' hc).wellFormed hs.heap, hroots.trans hs.roots,
    hcaptures.trans hs.captures, by omega, ?_, ?_⟩
  · intro g p hp hg
    rcases hg with hsame | hr
    · omega
    · exact hkeep g p (hs.reaches hroot hr) (hs.kept g p hp (.inr hr))
  · intro g hg
    rw [hissued] at hg
    rcases hnew g hg with hold | hr
    · exact .inl hold
    · rcases hs.issued g hg with hold | hlive
      · exact .inl hold
      · obtain ⟨p, hp⟩ := Heap.live_iff.mp hlive
        exact .inr (Heap.live_of_payload? (hkeep g p (.root hr) hp))

theorem Sheltered.yielded (hs : a.Sheltered shelter c) (hroot : ∀ g, shelter g → c.IsRoot g)
    (hnew : ∀ g ∈ c.issued, g ∈ a.issued ∨ c.IsRoot g) (hy : c.Yielded c') :
    a.Sheltered shelter c' ∧ c'.stack = c.stack ∧ c'.issued = c.issued := by
  rcases hy with rfl | ⟨record, hc⟩
  · exact ⟨hs, rfl, rfl⟩
  · obtain ⟨hstack, _, _, _, hissued⟩ := collect_frame _ record hc
    exact ⟨hs.collected hroot hnew hc, hstack, hissued⟩

/-- The handle of a new allocation stands for nothing older. -/
theorem Sheltered.served (hs : a.Sheltered shelter c) (hserved : c.Served kind count h c') :
    a.Sheltered shelter c' ∧ a.Unkept shelter c' h := by
  obtain ⟨_, hroots, hcaptures, _, hissued⟩ := hserved.frame
  have hcount : c'.totals.collections = c.totals.collections := hserved.books.2.2.2.1
  have hpayload := hserved.payload? hs.heap
  have hvacant := hserved.vacant hs.heap
  have hnew : a.Unkept shelter c' h := by
    intro p hp hg
    rw [hcount] at hg
    have hkept := hs.kept h p hp hg
    simp [hvacant] at hkept
  refine ⟨⟨hserved.wellFormed hs.heap, hroots.trans hs.roots, hcaptures.trans hs.captures,
    hcount ▸ hs.collections_le, ?_, ?_⟩, hnew⟩
  · intro g p hp hg
    have hne : g ≠ h := by
      rintro rfl
      exact hnew p hp hg
    rw [hpayload, if_neg hne]
    exact hs.kept g p hp (hcount ▸ hg)
  · intro g hg
    rw [Heap.live_iff, hpayload]
    by_cases he : g = h
    · exact .inr ⟨_, by rw [if_pos he]⟩
    · rw [hissued, List.mem_cons] at hg
      rw [if_neg he, ← Heap.live_iff]
      exact hs.issued g (hg.resolve_left he)

theorem Sheltered.write (hs : a.Sheltered shelter c) {p q : Payload} (hp : c.heap.payload? h = some p)
    (hk : q.kind = p.kind) (hc : q.count = p.count) (hnew : a.Unkept shelter c h) :
    a.Sheltered shelter { c with heap := c.heap.setPayload h.index q } := by
  refine ⟨(Move.write c h p q hp hk hc).wellFormed hs.heap, hs.roots, hs.captures,
    hs.collections_le, ?_, ?_⟩
  · intro g held hheld hg
    have hne : g ≠ h := by
      rintro rfl
      exact hnew held hheld hg
    rw [Heap.payload?_setPayload hp, if_neg hne]
    exact hs.kept g held hheld hg
  · intro g hg
    exact (hs.issued g hg).imp id fun hl => (Mutator.written_setPayload hp q).2 g hl

/-- What an operation from `a` to `b` leaves of the allocations it met. Without a collection all of them
are there, else those that `shelter` reached; kind and length are the same, and so are the contents
unless the operation `touches` them. Those made on the way are there. -/
structure Survives (a : Context) (shelter : Handle → Prop) (touches : Handle → Payload → Prop)
    (b : Context) : Prop where
  collections_le : a.totals.collections ≤ b.totals.collections
  kept : ∀ h p, a.heap.payload? h = some p →
    b.totals.collections = a.totals.collections ∨ a.heap.slots.Reaches shelter h →
    ∃ q, b.heap.payload? h = some q ∧ q.kind = p.kind ∧ q.count = p.count ∧ (q = p ∨ touches h p)
  issued : ∀ h ∈ b.issued, h ∈ a.issued ∨ b.heap.Live h

variable {touches : Handle → Payload → Prop}

theorem Sheltered.survives (hs : a.Sheltered shelter c) : a.Survives shelter touches c :=
  ⟨hs.collections_le, fun h p hp hg => ⟨p, hs.kept h p hp hg, rfl, rfl, .inl rfl⟩, hs.issued⟩

theorem Sheltered.written (hs : a.Sheltered shelter c) {p q : Payload}
    (hp : c.heap.payload? h = some p) (hk : q.kind = p.kind) (hc : q.count = p.count)
    (htouches : touches h p) :
    a.Survives shelter touches { c with heap := c.heap.setPayload h.index q } := by
  refine ⟨hs.collections_le, ?_, ?_⟩
  · intro g held hheld hg
    have hkept := hs.kept g held hheld hg
    rw [Heap.payload?_setPayload hp]
    by_cases he : g = h
    · subst he
      obtain rfl := Option.some.inj (hp.symm.trans hkept)
      exact ⟨q, by rw [if_pos rfl], hk, hc, .inr htouches⟩
    · exact ⟨held, by rw [if_neg he, hkept], rfl, rfl, .inl rfl⟩
  · intro g hg
    exact (hs.issued g hg).imp id fun hl => (Mutator.written_setPayload hp q).2 g hl

end Context

namespace Mutator

variable {α β : Type} {ctx : Context} {done : Except RuntimeError α → Context → Prop}

/-- The operation leaves an answer or error and a context as said, unless a fault ends the run. -/
def Leaves (m : Mutator α) (ctx : Context) (done : Except RuntimeError α → Context → Prop) : Prop :=
  ∀ r c, m.run.run ctx = .ok (r, c) → done r c

section Leaves

variable {m : Mutator α}

theorem Leaves.mono {done' : Except RuntimeError α → Context → Prop} (hm : m.Leaves ctx done)
    (hd : ∀ r c, done r c → done' r c) : m.Leaves ctx done' :=
  fun r c hrun => hd r c (hm r c hrun)

theorem Leaves.bind {f : α → Mutator β} {last : Except RuntimeError β → Context → Prop}
    (hm : m.Leaves ctx done) (herr : ∀ e c, done (.error e) c → last (.error e) c)
    (hf : ∀ x c, done (.ok x) c → (f x).Leaves c last) : (m >>= f).Leaves ctx last := by
  intro r c hrun
  rw [run_bind] at hrun
  cases hfirst : m.run.run ctx with
  | error why => simp [hfirst] at hrun
  | ok p =>
    obtain ⟨x, c₁⟩ := p
    have hdone := hm x c₁ hfirst
    rw [hfirst] at hrun
    cases x with
    | error e =>
      obtain ⟨rfl, rfl⟩ := Prod.mk.inj (Except.ok.inj hrun)
      exact herr e c₁ hdone
    | ok x => exact hf x c₁ hdone r c hrun

/-- An operation that changes nothing where it fails, and what follows it. -/
theorem Leaves.bind_of_unchanged {f : α → Mutator β} {good : α → Context → Prop}
    {last : Except RuntimeError β → Context → Prop}
    (hm : m.Leaves ctx fun r c => (∃ e, r = .error e ∧ c = ctx) ∨ ∃ x, r = .ok x ∧ good x c)
    (herr : ∀ e, last (.error e) ctx) (hf : ∀ x c, good x c → (f x).Leaves c last) :
    (m >>= f).Leaves ctx last := by
  refine hm.bind ?_ ?_
  · intro e c hended
    rcases hended with ⟨_, _, rfl⟩ | ⟨_, he, _⟩
    · exact herr e
    · simp at he
  · intro x c hended
    rcases hended with ⟨_, he, _⟩ | ⟨_, hanswer, hgood⟩
    · simp at he
    · obtain rfl := Except.ok.inj hanswer
      exact hf x c hgood

theorem leaves_pure (x : α) (h : done (.ok x) ctx) : (pure x : Mutator α).Leaves ctx done := by
  intro r c hrun
  obtain ⟨rfl, rfl⟩ := Prod.mk.inj (Except.ok.inj hrun)
  exact h

theorem leaves_read (ask : Context → Except RuntimeError α) :
    (read ask).Leaves ctx fun r c => r = ask ctx ∧ c = ctx := by
  intro r c hrun
  obtain ⟨rfl, rfl⟩ := Prod.mk.inj (Except.ok.inj hrun)
  exact ⟨rfl, rfl⟩

theorem leaves_read_bind {ask : Context → Except RuntimeError α} {f : α → Mutator β}
    {last : Except RuntimeError β → Context → Prop} (herr : ∀ e, last (.error e) ctx)
    (hf : ∀ x, ask ctx = .ok x → (f x).Leaves ctx last) : (read ask >>= f).Leaves ctx last := by
  refine (leaves_read ask).bind ?_ ?_
  · intro e c hread
    exact hread.2 ▸ herr e
  · intro x c hread
    obtain ⟨hask, rfl⟩ := hread
    exact hf x hask.symm

/-- An operation in a frame of its own leaves the stack as it was, if it leaves what is below its
frame alone. -/
theorem leaves_scratch (ht : ctx.stack.Tidy)
    (hm : m.Leaves { ctx with stack := ctx.stack.pushFrame.2 } fun r c =>
      ctx.stack.Supports c.stack ∧ done r { c with stack := ctx.stack }) :
    (scratch m).Leaves ctx done := by
  intro r c hrun
  rw [run_scratch] at hrun
  cases hrest : m.run.run { ctx with stack := ctx.stack.pushFrame.2 } with
  | error why => simp [hrest] at hrun
  | ok p =>
    obtain ⟨r₁, c₁⟩ := p
    obtain ⟨hsupports, hdone⟩ := hm r₁ c₁ hrest
    simp only [hrest, hsupports.popFrame_eq ht] at hrun
    obtain ⟨rfl, rfl⟩ := Prod.mk.inj (Except.ok.inj hrun)
    exact hdone

end Leaves

theorem leaves_push_bind {rest : Mutator α} (node : Node) (herr : ∀ e, done (.error e) ctx)
    (hrest : ∀ s, ctx.stack.push node = .ok s → rest.Leaves { ctx with stack := s } done) :
    (push node >>= fun _ => rest).Leaves ctx done := by
  intro r c hrun
  rw [run_bind, push, run_updateStack] at hrun
  cases hs : ctx.stack.push node with
  | error e =>
    rw [hs] at hrun
    obtain ⟨rfl, rfl⟩ := Prod.mk.inj (Except.ok.inj hrun)
    exact herr e
  | ok s =>
    rw [hs] at hrun
    exact hrest s hs r c hrun

section Building

variable {a : Context} {shelter : Handle → Prop} {c : Context}

theorem leaves_allocate (kind : PayloadKind) (count : Nat) (hs : a.Sheltered shelter c)
    (hroot : ∀ g, shelter g → c.IsRoot g) (hnew : ∀ g ∈ c.issued, g ∈ a.issued ∨ c.IsRoot g) :
    (allocate kind count).Leaves c fun r c' => (∃ e, r = .error e ∧ c' = c) ∨
      ∃ h, r = .ok h ∧ a.Sheltered shelter c' ∧ a.Unkept shelter c' h ∧ c'.stack = c.stack ∧
        c'.issued = h :: c.issued ∧ c'.heap.payload? h = some (.fresh kind count) := by
  intro r c' hrun
  rcases ends_of_ok (allocate_ends c kind count) hrun with ⟨e, rfl, rfl, _⟩ | ⟨h, c₀, rfl, hy, hserved⟩
  · exact .inl ⟨e, rfl, rfl⟩
  · obtain ⟨hs₀, hstack₀, hissued₀⟩ := hs.yielded hroot hnew hy
    obtain ⟨hs', hunkept⟩ := hs₀.served hserved
    refine .inr ⟨h, rfl, hs', hunkept, hserved.frame.1.trans hstack₀, ?_, ?_⟩
    · rw [hserved.issued_eq, hissued₀]
    · simp [hserved.payload? hs₀.heap]

/-- A new allocation is made and given its contents before anything else happens. -/
theorem leaves_allocate_fill {kind : PayloadKind} {count : Nat} {write : Handle → Mutator Unit}
    {rest : Handle → Mutator α} (hs : a.Sheltered shelter c) (hroot : ∀ g, shelter g → c.IsRoot g)
    (hnew : ∀ g ∈ c.issued, g ∈ a.issued ∨ c.IsRoot g)
    (hwrite : ∀ h c', c'.heap.payload? h = some (.fresh kind count) →
      ∃ q : Payload, q.kind = kind ∧ q.count = count ∧
        (write h).run.run c' = .ok (.ok (), { c' with heap := c'.heap.setPayload h.index q }))
    (herr : ∀ e, done (.error e) c)
    (hrest : ∀ h c', a.Sheltered shelter c' → c'.stack = c.stack → c'.issued = h :: c.issued →
      c'.heap.Live h → (rest h).Leaves c' done) :
    (allocate kind count >>= fun h => write h >>= fun _ => rest h).Leaves c done := by
  refine (leaves_allocate kind count hs hroot hnew).bind_of_unchanged herr ?_
  intro h c₁ hallocated
  obtain ⟨hs₁, hunkept, hstack, hissued, hp⟩ := hallocated
  obtain ⟨q, hk, hc, hrun⟩ := hwrite h c₁ hp
  have hfilled := hs₁.write hp (hk.trans (Payload.kind_fresh kind count).symm)
    (hc.trans (Payload.count_fresh kind count).symm) hunkept
  intro r c₂ hlast
  rw [run_bind, hrun] at hlast
  refine hrest h _ hfilled hstack hissued ?_ r c₂ hlast
  rw [Heap.live_iff, Heap.payload?_setPayload hp, if_pos rfl]
  exact ⟨q, rfl⟩

theorem run_writeFirst_one (node : Node) (h : Handle) (c : Context)
    (hp : c.heap.payload? h = some (.fresh .objects 1)) : (writeFirst h node).run.run c =
      .ok (.ok (), { c with heap := c.heap.setPayload h.index (.objects #[node]) }) := by
  rw [writeFirst, run_modifyObjects, Heap.modifyObjects, Heap.objects_eq_ok.mpr hp]
  rfl

theorem run_writeFirst_fresh (node : Node) (h : Handle) (c : Context)
    (hp : c.heap.payload? h = some (.fresh .objects 1)) :
    ∃ q : Payload, q.kind = .objects ∧ q.count = 1 ∧ (writeFirst h node).run.run c =
      .ok (.ok (), { c with heap := c.heap.setPayload h.index q }) :=
  ⟨_, rfl, rfl, run_writeFirst_one node h c hp⟩

theorem newString_shelters (text : String) (hw : a.heap.WellFormed)
    (hroot : ∀ g, shelter g → a.IsRoot g) :
    (newString text).Leaves a fun _ b => a.Sheltered shelter b ∧ b.stack = a.stack := by
  have hs := Context.sheltered_refl hw shelter
  refine leaves_allocate_fill hs hroot (fun g hg => .inl hg) ?_ (fun e => ⟨hs, rfl⟩) ?_
  · intro h c hp
    rw [run_modifyBytes, Heap.modifyBytes, Heap.bytes_eq_ok.mpr hp]
    exact ⟨_, rfl, rfl, rfl⟩
  · intro h c hc hstack _ _
    exact leaves_pure _ ⟨hc, hstack⟩

/-- A value that is turned into text refers to nothing. -/
theorem toText_shelters (node : Node) (hw : a.heap.WellFormed)
    (hroot : ∀ g, shelter g → a.IsRoot g ∨ g ∈ node.references) :
    (toText node).Leaves a fun _ b => a.Sheltered shelter b ∧ b.stack = a.stack := by
  have hs := Context.sheltered_refl hw shelter
  have hrefused : ∀ kind, (ofExcept (.error (.typeMismatch .scalarOrString kind)) >>= newString).Leaves a
      fun _ b => a.Sheltered shelter b ∧ b.stack = a.stack := by
    intro kind r b hrun
    obtain ⟨_, rfl⟩ := Prod.mk.inj (Except.ok.inj hrun)
    exact ⟨hs, rfl⟩
  cases node with
  | string length handle => exact leaves_pure _ ⟨hs, rfl⟩
  | scalar value => exact newString_shelters value.text hw fun g hg => (hroot g hg).resolve_right (by simp [Node.references])
  | undefined | pointer | closure | cell => exact hrefused _

theorem makeCaptures_shelters (slots : List Nat) (hw : a.heap.WellFormed)
    (hroot : ∀ g, shelter g → a.IsRoot g) :
    (makeCaptures slots).Leaves a fun _ b => a.Sheltered shelter b ∧ b.stack = a.stack := by
  have hs := Context.sheltered_refl hw shelter
  refine leaves_read_bind (fun e => ⟨hs, rfl⟩) ?_
  intro values _
  refine leaves_allocate_fill hs hroot (fun g hg => .inl hg) ?_ (fun e => ⟨hs, rfl⟩) ?_
  · intro h c hp
    rw [run_modifyObjects, Heap.modifyObjects, Heap.objects_eq_ok.mpr hp]
    exact ⟨_, rfl, by simp [Payload.count], rfl⟩
  · intro h c hc hstack _ _
    exact leaves_pure _ ⟨hc, hstack⟩

/-- The value is on the stack while its box is allocated. -/
theorem allocateBox_shelters (value : Node) (hs : a.Sheltered shelter c) (ht : c.stack.Tidy)
    (hroot : ∀ g, shelter g → c.IsRoot g ∨ g ∈ value.references) (hold : c.issued ⊆ a.issued) :
    (allocateBox value).Leaves c fun r c' => a.Sheltered shelter c' ∧ c'.stack = c.stack ∧
      ∀ h, r = .ok h → ∀ g ∈ c'.issued, g ∈ a.issued ∨ g = h := by
  have hframe := ValueStack.supports_pushFrame ht
  refine leaves_scratch ht (leaves_push_bind value ?_ ?_)
  · exact fun e => ⟨hframe, hs, rfl, fun h hh => by simp at hh⟩
  intro s hpush
  obtain ⟨hext, i, hi, hslot⟩ := ValueStack.push_extends hpush
  refine leaves_allocate_fill (hs.withStack s) ?_ (fun g hg => .inl (hold hg))
    (run_writeFirst_fresh value) ?_ ?_
  · intro g hg
    rcases hroot g hg with hr | hv
    · exact hr.mono ⟨hext.top_le, hext.slot_eq⟩ rfl rfl
    · exact .stacked i hi (hslot ▸ hv)
  · exact fun e => ⟨hframe.push hpush, hs, rfl, fun h hh => by simp at hh⟩
  · intro h c₂ hs₂ hstack hissued _
    refine leaves_pure h ⟨?_, hs₂.withStack _, rfl, ?_⟩
    · rw [hstack]
      exact hframe.push hpush
    · intro _ hh g hg
      obtain rfl := Except.ok.inj hh
      have hmem : g ∈ h :: c.issued := hissued ▸ hg
      rcases List.mem_cons.mp hmem with rfl | hg
      · exact .inr rfl
      · exact .inl (hold hg)

/-- The box of a new head is rooted when the head is made. -/
theorem makeHead_shelters (value : Node) (hs : a.Sheltered shelter c) (ht : c.stack.Tidy)
    (hroot : ∀ g, shelter g → c.IsRoot g) (hold : c.issued ⊆ a.issued) :
    (makeHead value).Leaves c fun r c' => a.Sheltered shelter c' ∧ c.stack.Extends c'.stack ∧
      (∀ t : ValueStack, t.Supports c.stack → t.Supports c'.stack) ∧
      ∀ head, r = .ok head → ∀ g ∈ c'.issued, g ∈ a.issued ∨ c'.IsRoot g := by
  have hboxed : ∀ value, (do
      let box ← allocateBox value
      push (.ref box)
      return Head.boxed box : Mutator Head).Leaves c fun r c' => a.Sheltered shelter c' ∧
        c.stack.Extends c'.stack ∧ (∀ t : ValueStack, t.Supports c.stack → t.Supports c'.stack) ∧
        ∀ head, r = .ok head → ∀ g ∈ c'.issued, g ∈ a.issued ∨ c'.IsRoot g := by
    intro value
    refine (allocateBox_shelters value hs ht (fun g hg => .inl (hroot g hg)) hold).bind ?_ ?_
    · intro e c₁ hfailed
      obtain ⟨hs₁, hstack, _⟩ := hfailed
      rw [hstack]
      exact ⟨hs₁, .refl _, fun _ h => h, fun head hh => by simp at hh⟩
    · intro box c₁ hallocated
      obtain ⟨hs₁, hstack, hissued⟩ := hallocated
      refine leaves_push_bind (.ref box) ?_ ?_
      · intro e
        rw [hstack]
        exact ⟨hs₁, .refl _, fun _ h => h, fun head hh => by simp at hh⟩
      · intro s hpush
        rw [hstack] at hpush
        obtain ⟨hext, i, hi, hslot⟩ := ValueStack.push_extends hpush
        refine leaves_pure _ ⟨hs₁.withStack s, hext, fun t hsup => hsup.push hpush, ?_⟩
        intro _ _ g hg
        rcases hissued box rfl g hg with hg | rfl
        · exact .inl hg
        · exact .inr (.stacked i hi (by simp [hslot, Node.ref, Node.references]))
  cases value with
  | scalar value => exact leaves_pure _ ⟨hs, .refl _, fun _ h => h, fun _ _ g hg => .inl (hold hg)⟩
  | undefined | pointer | string | closure | cell => exact hboxed _

/-- Nothing has changed, or contents that begin with a cell have. -/
def Relinked (c c' : Context) : Prop :=
  c' = c ∨ ∃ last p q, c.heap.payload? last = some p ∧ p.firstIsCell = true ∧ q.kind = p.kind ∧
    q.count = p.count ∧ c' = { c with heap := c.heap.setPayload last.index q }

theorem leaves_linkLast (first link : Handle) :
    (linkLast first link).Leaves c fun _ c' => Relinked c c' := by
  intro r c' hrun
  rw [linkLast, run_bind, run_readChain] at hrun
  have hwalk := c.heap.lastCell_readCell first
  cases hlast : (c.heap.lastCell first).run with
  | error why => simp [hlast] at hrun
  | ok found =>
    rw [hlast] at hrun hwalk
    cases found with
    | error e =>
      obtain ⟨_, rfl⟩ := Prod.mk.inj (Except.ok.inj hrun)
      exact .inl rfl
    | ok last =>
      obtain ⟨cell, hcell⟩ := hwalk
      obtain ⟨nodes, hp, hfirst⟩ := Heap.readCell_eq_ok hcell
      simp only [run_modifyObjects, Heap.modifyObjects, Heap.objects_eq_ok.mpr hp, Except.map] at hrun
      obtain ⟨_, rfl⟩ := Prod.mk.inj (Except.ok.inj hrun)
      refine .inr ⟨last, _, .objects (nodes.modify 0 (·.withNext (some link))), hp, ?_, rfl, ?_, rfl⟩
      · simp [Payload.firstIsCell, hfirst, Node.isCell]
      · simp [Payload.count]

theorem leaves_attach (list : Node) (first : Option (Handle × Cell)) (link : Handle) :
    (attach list first link).Leaves c fun _ c' => Relinked c c' := by
  cases first with
  | none => exact leaves_pure _ (.inl rfl)
  | some p =>
    refine (leaves_linkLast p.1 link).bind (fun _ _ h => h) fun _ c' hrelinked => ?_
    exact leaves_pure _ hrelinked

/-- List, value and box are on the stack until the new cell is linked, and only a cell is touched. -/
theorem append_survives (list value : Node) (hw : a.heap.WellFormed) (ht : a.stack.Tidy)
    (hroot : ∀ g, shelter g → a.IsRoot g ∨ g ∈ list.references ∨ g ∈ value.references) :
    (append list value).Leaves a fun _ b => b.stack = a.stack ∧ b.captures = a.captures ∧
      a.Survives shelter (fun _ p => p.firstIsCell = true) b := by
  have hs := Context.sheltered_refl hw shelter
  have hframe := ValueStack.supports_pushFrame ht
  refine leaves_read_bind (fun e => ⟨rfl, rfl, hs.survives⟩) fun first _ => ?_
  refine leaves_scratch ht (leaves_push_bind list (fun e => ⟨hframe, rfl, rfl, hs.survives⟩) ?_)
  intro s₁ hpush₁
  have hsup₁ := hframe.push hpush₁
  obtain ⟨hext₁, i, hi, hlist⟩ := ValueStack.push_extends hpush₁
  refine leaves_push_bind value (fun e => ⟨hsup₁, rfl, rfl, hs.survives⟩) ?_
  intro s₂ hpush₂
  have hsup₂ := hsup₁.push hpush₂
  obtain ⟨hext₂, j, hj, hvalue⟩ := ValueStack.push_extends hpush₂
  have hroot₂ : ∀ g, shelter g → ({ a with stack := s₂ } : Context).IsRoot g := by
    intro g hg
    rcases hroot g hg with hr | hr | hr
    · have hext := hext₁.trans hext₂
      exact hr.mono ⟨hext.top_le, hext.slot_eq⟩ rfl rfl
    · refine .stacked i (Nat.lt_of_lt_of_le hi hext₂.top_le) ?_
      show g ∈ (s₂.slot i).references
      rwa [hext₂.slot_eq i hi, hlist]
    · exact .stacked j hj (hvalue ▸ hr)
  refine (makeHead_shelters value (hs.withStack s₂) hsup₂.tidy hroot₂ (List.Subset.refl _)).bind ?_ ?_
  · intro e c₃ hfailed
    obtain ⟨hs₃, _, hsup₃, _⟩ := hfailed
    exact ⟨hsup₃ _ hsup₂, rfl, hs₃.captures, (hs₃.withStack _).survives⟩
  intro head c₃ hmade
  obtain ⟨hs₃, hext₃, hsup₃, hnew₃⟩ := hmade
  have hroot₃ : ∀ g, shelter g → c₃.IsRoot g := fun g hg =>
    (hroot₂ g hg).mono hext₃ hs₃.roots hs₃.captures
  refine leaves_allocate_fill hs₃ hroot₃ (hnew₃ head rfl) (run_writeFirst_fresh _) ?_ ?_
  · exact fun e => ⟨hsup₃ _ hsup₂, rfl, hs₃.captures, (hs₃.withStack _).survives⟩
  intro link c₄ hs₄ hstack₄ _ _
  refine (leaves_attach list first link).mono ?_
  intro _ c₅ hrelinked
  have hsup₄ : a.stack.Supports c₄.stack := hstack₄ ▸ hsup₃ _ hsup₂
  rcases hrelinked with rfl | ⟨last, p, q, hp, hcell, hk, hc, rfl⟩
  · exact ⟨hsup₄, rfl, hs₄.captures, (hs₄.withStack _).survives⟩
  · exact ⟨hsup₄, rfl, hs₄.captures, (hs₄.withStack a.stack).written hp hk hc hcell⟩

end Building

end Mutator

end GenerationalHeap
