import GenerationalHeap.Proofs.Composition

namespace GenerationalHeap

/-- How blocks are taken into an arena that is never emptied, the first one first, from `used` bytes to
`used'`: each goes behind the others, or is old from the start if there is no room for it. -/
inductive Arena.Takes (capacity : Nat) : (used : Nat) → List (Handle × Block) → (used' : Nat) → Prop
  | nil (used : Nat) : Takes capacity used [] used
  | young {used used' : Nat} {h : Handle} {b : Block} {new : List (Handle × Block)} :
      b.size ≤ capacity - used → b.place = .young used → Takes capacity (used + b.size) new used' →
      Takes capacity used ((h, b) :: new) used'
  | old {used used' : Nat} {h : Handle} {b : Block} {new : List (Handle × Block)} :
      capacity - used < b.size → b.place = .old → Takes capacity used new used' →
      Takes capacity used ((h, b) :: new) used'

theorem Arena.Takes.append {capacity used used' used'' : Nat} {new new' : List (Handle × Block)}
    (h : Takes capacity used new used') (h' : Takes capacity used' new' used'') :
    Takes capacity used (new ++ new') used'' := by
  induction h with
  | nil => exact h'
  | young hroom hplace _ ih => exact .young hroom hplace (ih h')
  | old hfull hplace _ ih => exact .old hfull hplace (ih h')

/-- A block is where it was and as large; only its contents may have changed. -/
def Block.Remains (b b' : Block) : Prop := b'.place = b.place ∧ b'.size = b.size

theorem Block.Remains.trans {b b' b'' : Block} (h : b.Remains b') (h' : b'.Remains b'') :
    b.Remains b'' :=
  ⟨h'.1.trans h.1, h'.2.trans h.2⟩

/-- Number of blocks outside of the arena. -/
def escapeCount (new : List (Handle × Block)) : Nat := new.countP fun p => p.2.place = .old

namespace Context

/-- What becomes of a context without a collection, `new` being the blocks allocated since, the first
one first. All blocks remain, and the new ones are in the arena as far as there was room, else they are
old and booked as escapes. -/
structure HeldOff (a : Context) (new : List (Handle × Block)) (c : Context) : Prop where
  collections : c.totals.collections = a.totals.collections
  last : c.lastCollection = a.lastCollection
  issued : c.issued = (new.map Prod.fst).reverse ++ a.issued
  blocks : ∀ h b, a.heap.block? h = some b ∨ (h, b) ∈ new →
    ∃ b', c.heap.block? h = some b' ∧ b.Remains b'
  capacity : c.heap.arena.capacity = a.heap.arena.capacity
  takes : Arena.Takes a.heap.arena.capacity a.heap.arena.used new c.heap.arena.used
  escapes : c.totals.escapes = a.totals.escapes + escapeCount new
  old : c.heap.old.blocks.size = a.heap.old.blocks.size + escapeCount new

/-- The depth of inhibition stays, and while it is not 0 no collection runs. -/
def Inhibits (a c : Context) : Prop :=
  c.inhibitDepth = a.inhibitDepth ∧
    (0 < a.inhibitDepth → a.heap.slots.Sound → c.heap.slots.Sound ∧ ∃ new, a.HeldOff new c)

variable {a b c : Context}

theorem HeldOff.trans {new new' : List (Handle × Block)} (h : a.HeldOff new b) (h' : b.HeldOff new' c) :
    a.HeldOff (new ++ new') c := by
  have hcount : escapeCount (new ++ new') = escapeCount new + escapeCount new' := List.countP_append
  constructor
  · rw [h'.collections, h.collections]
  · rw [h'.last, h.last]
  · rw [h'.issued, h.issued, List.map_append, List.reverse_append, List.append_assoc]
  · intro g x hold
    rw [List.mem_append, ← or_assoc] at hold
    rcases hold with hold | hold
    · obtain ⟨y, hy, hfirst⟩ := h.blocks g x hold
      obtain ⟨z, hz, hrest⟩ := h'.blocks g y (.inl hy)
      exact ⟨z, hz, hfirst.trans hrest⟩
    · exact h'.blocks g x (.inr hold)
  · rw [h'.capacity, h.capacity]
  · have hrest := h'.takes
    rw [h.capacity] at hrest
    exact h.takes.append hrest
  · rw [h'.escapes, h.escapes, hcount, Nat.add_assoc]
  · rw [h'.old, h.old, hcount, Nat.add_assoc]

/-- A context whose blocks are those of another, but for their contents, with the same books. -/
theorem heldOff_nil (hblocks : ∀ h x, a.heap.block? h = some x → ∃ y, c.heap.block? h = some y ∧ x.Remains y)
    (harena : c.heap.arena = a.heap.arena) (hold : c.heap.old = a.heap.old)
    (htotals : c.totals = a.totals) (hlast : c.lastCollection = a.lastCollection)
    (hissued : c.issued = a.issued) : a.HeldOff [] c := by
  constructor
  · rw [htotals]
  · exact hlast
  · rw [hissued, List.map_nil, List.reverse_nil, List.nil_append]
  · intro h x hold
    exact hblocks h x (by simpa using hold)
  · rw [harena]
  · rw [harena]
    exact .nil _
  · rw [htotals, escapeCount, List.countP_nil, Nat.add_zero]
  · rw [hold, escapeCount, List.countP_nil, Nat.add_zero]

theorem heldOff_of_heap_eq (hheap : c.heap = a.heap) (htotals : c.totals = a.totals)
    (hlast : c.lastCollection = a.lastCollection) (hissued : c.issued = a.issued) : a.HeldOff [] c := by
  refine heldOff_nil (fun h x hheld => ⟨x, ?_, rfl, rfl⟩) (by rw [hheap]) (by rw [hheap]) htotals hlast hissued
  rw [hheap, hheld]

/-- One more block in the handle table, and nothing else of the heap changed but the books. -/
theorem heldOff_insert {x : Block} {h : Handle}
    (hi : SlotTable.Inserted a.heap.slots x h c.heap.slots)
    (hcollections : c.totals.collections = a.totals.collections)
    (hlast : c.lastCollection = a.lastCollection) (hissued : c.issued = h :: a.issued)
    (hcapacity : c.heap.arena.capacity = a.heap.arena.capacity)
    (htakes : Arena.Takes a.heap.arena.capacity a.heap.arena.used [(h, x)] c.heap.arena.used)
    (hescapes : c.totals.escapes = a.totals.escapes + escapeCount [(h, x)])
    (hold : c.heap.old.blocks.size = a.heap.old.blocks.size + escapeCount [(h, x)]) :
    a.HeldOff [(h, x)] c := by
  refine ⟨hcollections, hlast, hissued, ?_, hcapacity, htakes, hescapes, hold⟩
  intro g y hy
  refine ⟨y, ?_, rfl, rfl⟩
  rw [Heap.block?, hi.resolve]
  rcases hy with hy | hy
  · have hne : g ≠ h := by
      rintro rfl
      rw [Heap.block?, hi.resolve_eq_none] at hy
      simp at hy
    rw [if_neg hne]
    exact hy
  · obtain ⟨rfl, rfl⟩ := Prod.mk.inj (List.mem_singleton.mp hy)
    rw [if_pos rfl]

theorem inhibits_of_heap_eq (hdepth : c.inhibitDepth = a.inhibitDepth) (hheap : c.heap = a.heap)
    (htotals : c.totals = a.totals) (hlast : c.lastCollection = a.lastCollection)
    (hissued : c.issued = a.issued) : a.Inhibits c :=
  ⟨hdepth, fun _ hs => ⟨hheap ▸ hs, [], heldOff_of_heap_eq hheap htotals hlast hissued⟩⟩

theorem Inhibits.trans (h : a.Inhibits b) (h' : b.Inhibits c) : a.Inhibits c := by
  refine ⟨h'.1.trans h.1, fun hdepth hs => ?_⟩
  obtain ⟨hs', new, hfirst⟩ := h.2 hdepth hs
  obtain ⟨hs'', new', hrest⟩ := h'.2 (h.1 ▸ hdepth) hs'
  exact ⟨hs'', new ++ new', hfirst.trans hrest⟩

theorem inhibits_setPayload (a : Context) (index : Nat) (payload : Payload) :
    a.Inhibits { a with heap := a.heap.setPayload index payload } := by
  refine ⟨rfl, fun _ hs => ⟨hs.update index _, [], ?_⟩⟩
  refine heldOff_nil (fun h x hheld => ?_) rfl rfl rfl rfl rfl
  have hupdate := SlotTable.resolve_update a.heap.slots index (fun block => { block with payload }) h
  rw [show a.heap.slots.resolve h = some x from hheld] at hupdate
  by_cases hi : h.index = index
  · exact ⟨_, hupdate.trans (if_pos hi), rfl, rfl⟩
  · exact ⟨x, hupdate.trans (if_neg hi), rfl, rfl⟩

theorem collect_inhibitDepth {trigger : Trigger} {record : CollectionRecord}
    (hc : c.collect trigger = .ok (record, b)) : b.inhibitDepth = c.inhibitDepth := by
  unfold collect at hc
  cases hh : c.heap.collect c.rootHandles trigger (c.totals.collections + 1) with
  | error why => simp [hh, bind, Except.bind] at hc
  | ok p =>
    simp only [hh, bind, Except.bind, pure, Except.pure, Except.ok.injEq, Prod.mk.injEq] at hc
    obtain ⟨_, rfl⟩ := hc
    rfl

end Context

theorem Heap.allocateYoung?_eq_none (heap : Heap) (payload : Payload) (size : Nat) :
    heap.allocateYoung? payload size = none ↔ heap.arena.remaining < size := by
  unfold Heap.allocateYoung?
  split <;> simp <;> omega

namespace Mutator

variable {ctx : Context} {kind : PayloadKind} {count size : Nat}

theorem run_allocate_young (hr : requestSize ctx.config.maxAllocationBytes kind count = .ok size)
    {h : Handle} {heap : Heap} (ha : ctx.heap.allocateYoung? (.fresh kind count) size = some (h, heap)) :
    (allocate kind count).run.run ctx = .ok (.ok h, ({ ctx with heap } : Context).counted h) := by
  rw [allocate, run_bind, run_read, hr]
  simp only
  rw [run_bind, place, run_bind, run_placeYoung, ha]
  rfl

/-- A request that does not fit into the arena escapes from it where no collection may make room. -/
theorem run_allocate_old (hr : requestSize ctx.config.maxAllocationBytes kind count = .ok size)
    (ha : ctx.heap.allocateYoung? (.fresh kind count) size = none)
    (hno : ¬ (ctx.inhibitDepth = 0 ∧ size ≤ ctx.heap.arena.capacity)) :
    (allocate kind count).run.run ctx =
      .ok (.ok (ctx.heap.allocateOld (.fresh kind count) size).1, ({ ctx with
        heap := (ctx.heap.allocateOld (.fresh kind count) size).2
        totals := { ctx.totals with escapes := ctx.totals.escapes + 1 }
        trace := ctx.trace.logEscape size ctx.heap.arena.capacity } : Context).counted
          (ctx.heap.allocateOld (.fresh kind count) size).1) := by
  rw [allocate, run_bind, run_read, hr]
  simp only
  rw [run_bind, place, run_bind, run_placeYoung, ha]
  simp only
  rw [run_bind, run_mayCollectFor, decide_eq_false hno]
  rfl

theorem allocate_keeps_inhibitDepth (kind : PayloadKind) (count : Nat) :
    (allocate kind count).Leaves ctx fun _ c => c.inhibitDepth = ctx.inhibitDepth := by
  intro r c hrun
  rcases ends_of_ok (allocate_ends ctx kind count) hrun with ⟨e, _, rfl, _⟩ | ⟨h, c₁, _, hy, hs⟩
  · rfl
  · have hyield : c₁.inhibitDepth = ctx.inhibitDepth := by
      rcases hy with rfl | ⟨record, hc⟩
      · rfl
      · exact Context.collect_inhibitDepth hc
    cases hs <;> exact hyield

theorem allocate_heldOff (hdepth : 0 < ctx.inhibitDepth) (hs : ctx.heap.slots.Sound) (kind : PayloadKind)
    (count : Nat) : (allocate kind count).Leaves ctx fun _ c =>
      c.heap.slots.Sound ∧ ∃ new, ctx.HeldOff new c := by
  intro r c hrun
  cases hr : requestSize ctx.config.maxAllocationBytes kind count with
  | error e =>
    rw [allocate, run_bind, run_read, hr] at hrun
    obtain ⟨_, rfl⟩ := Prod.mk.inj (Except.ok.inj hrun)
    exact ⟨hs, [], Context.heldOff_of_heap_eq rfl rfl rfl rfl⟩
  | ok size =>
    cases ha : ctx.heap.allocateYoung? (.fresh kind count) size with
    | some p =>
      rw [run_allocate_young hr ha] at hrun
      obtain ⟨_, rfl⟩ := Prod.mk.inj (Except.ok.inj hrun)
      obtain ⟨hroom, hh, hheap⟩ := Heap.allocateYoung?_eq_some _ _ _ _ ha
      obtain ⟨hs', hi⟩ := hs.insert ⟨.fresh kind count, size, .young ctx.heap.arena.used, false⟩
      have hslots : p.2.slots = (ctx.heap.slots.insert
          ⟨.fresh kind count, size, .young ctx.heap.arena.used, false⟩).2 := by rw [hheap]
      rw [← hh, ← hslots] at hi
      refine ⟨hslots ▸ hs', _, Context.heldOff_insert hi rfl rfl rfl ?_ ?_ ?_ ?_⟩
      · simp [Context.counted, hheap]
      · simp only [Context.counted, hheap]
        exact .young hroom rfl (.nil _)
      · simp [Context.counted, escapeCount]
      · simp [Context.counted, escapeCount, hheap]
    | none =>
      rw [run_allocate_old hr ha (by omega)] at hrun
      obtain ⟨_, rfl⟩ := Prod.mk.inj (Except.ok.inj hrun)
      obtain ⟨hs', hi⟩ := hs.insert ⟨.fresh kind count, size, .old, false⟩
      have hfull := (Heap.allocateYoung?_eq_none _ _ _).mp ha
      refine ⟨hs', _, Context.heldOff_insert hi rfl rfl rfl rfl (.old hfull rfl (.nil _)) ?_ ?_⟩
      · simp [Context.counted, escapeCount]
      · simp [Context.counted, escapeCount, Heap.allocateOld]

theorem checkpoint_inhibits : checkpoint.Within Context.Inhibits := by
  intro ctx r c hrun
  rw [run_checkpoint] at hrun
  split at hrun
  · rename_i hif
    cases hc : ctx.collect .checkpoint with
    | error why => simp [hc] at hrun
    | ok p =>
      rw [hc] at hrun
      obtain ⟨_, rfl⟩ := Prod.mk.inj (Except.ok.inj hrun)
      exact ⟨Context.collect_inhibitDepth hc, fun hdepth => by omega⟩
  · obtain ⟨_, rfl⟩ := Prod.mk.inj (Except.ok.inj hrun)
    exact Context.inhibits_of_heap_eq rfl rfl rfl rfl rfl

end Mutator

theorem inhibits_stepwise : Stepwise Context.Inhibits where
  refl _ := Context.inhibits_of_heap_eq rfl rfl rfl rfl rfl
  trans := Context.Inhibits.trans
  stack _ _ := Context.inhibits_of_heap_eq rfl rfl rfl rfl rfl
  captures _ _ := Context.inhibits_of_heap_eq rfl rfl rfl rfl rfl
  write := Context.inhibits_setPayload
  allocate kind count _ r c hrun := ⟨Mutator.allocate_keeps_inhibitDepth kind count r c hrun,
    fun hdepth hs => Mutator.allocate_heldOff hdepth hs kind count r c hrun⟩
  checkpoint := Mutator.checkpoint_inhibits

/-- Sections without collections that are open after an event; none if it ends one that is not open. -/
def Event.sections (n : Nat) : Event → Option Nat
  | .inhibit => some (n + 1)
  | .permit => if n = 0 then none else some (n - 1)
  | _ => some n

/-- Sections that are open after events that start with `n` open ones. -/
def openSections (n : Nat) (events : List Event) : Option Nat := events.foldlM Event.sections n

section Events

variable {event : Event} {a : Context}

theorem Event.inhibits (hgoverns : event.governs = false) : event.run.Within Context.Inhibits :=
  inhibits_stepwise.event_of_roots (fun _ _ => Context.inhibits_of_heap_eq rfl rfl rfl rfl rfl) event hgoverns

theorem Event.eq_of_governs (hgoverns : event.governs = true) :
    event = .act .collect ∨ event = .inhibit ∨ event = .permit := by
  unfold Event.governs at hgoverns
  split at hgoverns <;> simp_all

open Mutator in
/-- An event begins and ends sections as counted, whatever else it does. -/
theorem Event.leaves_inhibitDepth {k n : Nat} (hsections : event.sections k = some n)
    (hk : k ≤ a.inhibitDepth) :
    event.run.Leaves a fun _ b => b.inhibitDepth + k = a.inhibitDepth + n := by
  cases hgoverns : event.governs with
  | false =>
    obtain rfl : k = n := by
      cases event <;> simp_all [Event.sections, Event.governs]
    refine (Event.inhibits hgoverns a).mono fun _ b hb => ?_
    rw [hb.1]
  | true =>
    rcases Event.eq_of_governs hgoverns with rfl | rfl | rfl
    · obtain rfl : k = n := by simpa [Event.sections] using hsections
      have hcollect : collect.Leaves a fun _ b => b.inhibitDepth + k = a.inhibitDepth + k :=
        leaves_collectWith .explicit fun record b hc => by rw [Context.collect_inhibitDepth hc]
      exact (leaves_map hcollect _).bind (fun _ _ h => h) fun _ _ h => leaves_pure _ h
    · obtain rfl : k + 1 = n := by simpa [Event.sections] using hsections
      intro r b hrun
      obtain ⟨_, rfl⟩ := Prod.mk.inj (Except.ok.inj hrun)
      show a.inhibitDepth + 1 + k = a.inhibitDepth + (k + 1)
      omega
    · obtain ⟨hpos, rfl⟩ : k ≠ 0 ∧ k - 1 = n := by
        simpa [Event.sections, Option.ite_none_left_eq_some] using hsections
      intro r b hrun
      obtain ⟨_, rfl⟩ := Prod.mk.inj (Except.ok.inj hrun)
      show a.inhibitDepth - 1 + k = a.inhibitDepth + (k - 1)
      omega

/-- In a section every event but an explicit collection holds collection off. -/
theorem Event.heldOff (hcollect : event ≠ .act .collect) (hdepth : 0 < a.inhibitDepth)
    (hs : a.heap.slots.Sound) :
    event.run.Leaves a fun _ b => b.heap.slots.Sound ∧ ∃ new, a.HeldOff new b := by
  cases hgoverns : event.governs with
  | false => exact (Event.inhibits hgoverns a).mono fun _ b hb => hb.2 hdepth hs
  | true =>
    rcases Event.eq_of_governs hgoverns with rfl | rfl | rfl
    · exact absurd rfl hcollect
    all_goals
      intro r b hrun
      obtain ⟨_, rfl⟩ := Prod.mk.inj (Except.ok.inj hrun)
      exact ⟨hs, [], Context.heldOff_of_heap_eq rfl rfl rfl rfl⟩

end Events

/-- Events one after the other, none of them with a fault. -/
inductive Runs : Context → List Event → Context → Prop
  | done (c : Context) : Runs c [] c
  | step {a b c : Context} {r : Except RuntimeError Unit} {events : List Event} (event : Event) :
      event.run.run.run a = .ok (r, b) → Runs b events c → Runs a (event :: events) c

/-- Whether no event ends in a fault. -/
def Context.completes (ctx : Context) : List Event → Bool
  | [] => true
  | event :: events =>
    match event.run.run.run ctx with
    | .ok (_, c) => c.completes events
    | .error _ => false

theorem runs_after {ctx : Context} {events : List Event} (h : ctx.completes events = true) :
    Runs ctx events (ctx.after events) := by
  induction events generalizing ctx with
  | nil => exact .done ctx
  | cons event events ih =>
    unfold Context.completes at h
    unfold Context.after
    cases hrun : event.run.run.run ctx with
    | error why => simp [hrun] at h
    | ok p =>
      rw [hrun] at h
      exact .step event hrun (ih h)

namespace Runs

variable {a b c : Context} {events events' : List Event}

theorem append (h : Runs a events b) (h' : Runs b events' c) : Runs a (events ++ events') c := by
  induction h with
  | done => exact h'
  | step event hrun _ ih => exact .step event hrun (ih h')

theorem split (h : Runs a (events ++ events') c) : ∃ b, Runs a events b ∧ Runs b events' c := by
  induction events generalizing a with
  | nil => exact ⟨a, .done a, h⟩
  | cons event events ih =>
    cases h with
    | step _ hrun hrest =>
      obtain ⟨b, hfirst, hlast⟩ := ih hrest
      exact ⟨b, .step event hrun hfirst, hlast⟩

theorem wellFormed (h : Runs a events c) (hw : a.heap.WellFormed) : c.heap.WellFormed := by
  induction h with
  | done => exact hw
  | step event hrun _ ih =>
    obtain ⟨_, _, hmoves⟩ := Mutator.ends_of_ok (event.traced _ hw) hrun
    exact ih (hmoves.wellFormed hw)

/-- The depth of inhibition is that of the sections that are open, whatever else is done. -/
theorem inhibitDepth (h : Runs a events c) {k n : Nat} (hopen : openSections k events = some n)
    (hk : k ≤ a.inhibitDepth) : c.inhibitDepth + k = a.inhibitDepth + n := by
  induction h generalizing k with
  | done c =>
    obtain rfl : k = n := by simpa [openSections] using hopen
    rfl
  | step event hrun _ ih =>
    obtain ⟨j, hj, hrest⟩ : ∃ j, event.sections k = some j ∧ openSections j _ = some n := by
      simpa [openSections, List.foldlM_cons, Option.bind_eq_some_iff] using hopen
    have hfirst := Event.leaves_inhibitDepth hj hk _ _ hrun
    have hlast := ih hrest (by omega)
    omega

/-- Inside a section that none of the events ends, they hold collection off. -/
theorem heldOff (h : Runs a events c) {k n : Nat} (hopen : openSections k events = some n)
    (hk : k < a.inhibitDepth) (hcollect : Event.act .collect ∉ events) (hs : a.heap.slots.Sound) :
    ∃ new, a.HeldOff new c := by
  induction h generalizing k with
  | done c => exact ⟨[], Context.heldOff_of_heap_eq rfl rfl rfl rfl⟩
  | @step a b c r events event hrun _ ih =>
    obtain ⟨j, hj, hrest⟩ : ∃ j, event.sections k = some j ∧ openSections j events = some n := by
      simpa [openSections, List.foldlM_cons, Option.bind_eq_some_iff] using hopen
    obtain ⟨hfirst, hothers⟩ : Event.act .collect ≠ event ∧ Event.act .collect ∉ events := by
      simpa using hcollect
    have hdepth := Event.leaves_inhibitDepth hj (by omega) _ _ hrun
    obtain ⟨hs', new, hheld⟩ := Event.heldOff (Ne.symm hfirst) (by omega) hs _ _ hrun
    obtain ⟨new', hheld'⟩ := ih hrest (by omega) hothers hs'
    exact ⟨new ++ new', hheld.trans hheld'⟩

/-- From the start of a section on, up to where it ends. -/
theorem inside {k : Nat} (h : Runs a (.inhibit :: events) c) (hopen : openSections 0 events = some k)
    (hs : a.heap.slots.Sound) :
    c.inhibitDepth = a.inhibitDepth + 1 + k ∧
      (Event.act .collect ∉ events → ∃ new, a.HeldOff new c) := by
  cases h with
  | step _ hbegin hrest =>
    obtain ⟨_, rfl⟩ := Prod.mk.inj (Except.ok.inj hbegin)
    refine ⟨hrest.inhibitDepth hopen (Nat.zero_le _), fun hcollect => ?_⟩
    obtain ⟨new, hheld⟩ := hrest.heldOff hopen (Nat.succ_pos _) hcollect hs
    have hstart : a.HeldOff [] { a with inhibitDepth := a.inhibitDepth + 1 } :=
      Context.heldOff_of_heap_eq rfl rfl rfl rfl
    exact ⟨new, hstart.trans hheld⟩

end Runs

/-- While collection is inhibited, a request that does not fit into the arena yields an old block and
is counted as an escape. -/
theorem Mutator.allocate_escapes {ctx : Context} {kind : PayloadKind} {count size : Nat}
    (hdepth : 0 < ctx.inhibitDepth) (hw : ctx.heap.WellFormed)
    (hr : requestSize ctx.config.maxAllocationBytes kind count = .ok size)
    (hfull : ctx.heap.arena.remaining < size) :
    ∃ h c, (allocate kind count).run.run ctx = .ok (.ok h, c) ∧
      c.heap.block? h = some { payload := .fresh kind count, size, place := .old } ∧
      c.totals.escapes = ctx.totals.escapes + 1 ∧ c.totals.collections = ctx.totals.collections := by
  have hrun := run_allocate_old hr ((Heap.allocateYoung?_eq_none _ _ _).mpr hfull) (by omega)
  have hi := (hw.slots.insert { payload := .fresh kind count, size, place := .old }).2
  exact ⟨_, _, hrun, (hi.resolve _).trans (if_pos rfl), rfl, rfl⟩

end GenerationalHeap
