import GenerationalHeap.Proofs.Settled
import GenerationalHeap.Proofs.AllocationPolicy

namespace GenerationalHeap

/-- What a run does that its log tells: a request escapes from the arena, or a collection runs that
meets a number of allocations. -/
inductive Occurrence
  | escape (requested capacity : Nat)
  | collection (trigger : Trigger) (live : Nat) (record : CollectionRecord)

namespace Occurrence

/-- The lines that tell an occurrence. Those of a collection stand between its start and its end, one
phase after the other. -/
def lines : Occurrence → List TraceLine
  | escape requested capacity => [.oversizeEscape requested capacity]
  | collection trigger live record =>
    [.enterCollection trigger record.number,
      .enterPhase .clear, .phaseEnd .clear ⟨live, 0⟩, .leavePhase,
      .enterPhase .mark, .phaseEnd .mark record.surviving, .leavePhase,
      .enterPhase .promote, .phaseEnd .promote record.promoted, .leavePhase,
      .enterPhase .sweep, .phaseEnd .sweep record.oldReclaimed, .leavePhase,
      .leaveCollection]

def isEscape : Occurrence → Bool
  | escape _ _ => true
  | collection _ _ _ => false

/-- The number of a collection. -/
def number? : Occurrence → Option Nat
  | escape _ _ => none
  | collection _ _ record => some record.number

def promoted : Occurrence → Tally
  | escape _ _ => {}
  | collection _ _ record => record.promoted

/-- How many allocations there are less behind an occurrence, by what its lines say of them. -/
def lost : Occurrence → Nat
  | escape _ _ => 0
  | collection _ live record => live - record.surviving.objects

end Occurrence

/-- A sequence of elementary changes with the occurrences among them. -/
inductive Recounts : Context → List Occurrence → Context → Prop
  | nil (c : Context) : Recounts c [] c
  | quiet {a b c : Context} {rest : List Occurrence} :
      Move 0 a b → b.trace = a.trace → Recounts b rest c → Recounts a rest c
  | escape {a c : Context} {kind : PayloadKind} {count size : Nat} {h : Handle} {heap : Heap}
      {rest : List Occurrence} :
      requestSize a.config.maxAllocationBytes kind count = .ok size →
      a.heap.allocateOld (.fresh kind count) size = (h, heap) →
      Recounts (({ a with
        heap
        totals := { a.totals with escapes := a.totals.escapes + 1 }
        trace := a.trace.logEscape size a.heap.arena.capacity } : Context).counted h) rest c →
      Recounts a (.escape size a.heap.arena.capacity :: rest) c
  | collect {a b c : Context} {trigger : Trigger} {record : CollectionRecord} {rest : List Occurrence} :
      a.collect trigger = .ok (record, b) → Recounts b rest c →
      Recounts a (.collection trigger a.heap.slots.live record :: rest) c

theorem Moves.recounts {n : Nat} {a c : Context} (hm : Moves n a c) : ∃ new, Recounts a new c := by
  induction hm with
  | refl c => exact ⟨[], .nil c⟩
  | head hm _ ih =>
    obtain ⟨rest, ih⟩ := ih
    cases hm with
    | stack _ new s ht => exact ⟨rest, .quiet (.stack _ new s ht) rfl ih⟩
    | roots _ r => exact ⟨rest, .quiet (.roots _ r) rfl ih⟩
    | enter _ h n hc => exact ⟨rest, .quiet (.enter _ h n hc) rfl ih⟩
    | leave => exact ⟨rest, .quiet (.leave _) rfl ih⟩
    | inhibit _ depth => exact ⟨rest, .quiet (.inhibit _ depth) rfl ih⟩
    | write _ h p q hp hk hc => exact ⟨rest, .quiet (.write _ h p q hp hk hc) rfl ih⟩
    | serve _ kind count h _ hs =>
      cases hs with
      | young hr ha => exact ⟨rest, .quiet (.serve _ kind count h _ (.young hr ha)) rfl ih⟩
      | old hr ha => exact ⟨_, .escape hr ha ih⟩
    | collect _ trigger record _ hc => exact ⟨_, .collect hc ih⟩

/-- Without a line in the log nothing happens that the totals count, but for allocations. -/
theorem Move.totals_of_trace {a b : Context} (hm : Move 0 a b) (htrace : b.trace = a.trace) :
    ∃ allocations, b.totals = { a.totals with allocations } := by
  cases hm with
  | stack | roots | enter | leave | inhibit | write => exact ⟨_, rfl⟩
  | serve _ kind count h _ hs =>
    cases hs with
    | young => exact ⟨_, rfl⟩
    | old =>
      have hsize := congrArg (fun t => t.lines.size) htrace
      simp [Context.counted, Trace.logEscape] at hsize

namespace Context

/-- The log of a context is that of its history, and its totals are those of its history. -/
structure Tells (ctx : Context) (history : List Occurrence) : Prop where
  lines : ctx.trace.lines.toList = history.flatMap Occurrence.lines
  nextId : ctx.trace.nextId = ctx.totals.collections + 1
  numbers : history.filterMap Occurrence.number? = List.range' 1 ctx.totals.collections
  escapes : history.countP Occurrence.isEscape = ctx.totals.escapes
  promotedObjects : (history.map (·.promoted.objects)).sum = ctx.totals.promoted.objects
  promotedBytes : (history.map (·.promoted.bytes)).sum = ctx.totals.promoted.bytes
  surviving : ∀ trigger live record, Occurrence.collection trigger live record ∈ history →
    record.surviving.objects ≤ live
  reclaimed : (history.map Occurrence.lost).sum = ctx.totals.reclaimed.objects

variable {a b c : Context} {history : List Occurrence}

theorem tells_ofConfig {config : Config} (hc : ofConfig config = .ok c) : c.Tells [] := by
  obtain ⟨arena, _, rfl⟩ := ofConfig_eq_ok hc
  constructor <;> simp

theorem Tells.quiet (ht : a.Tells history) (hm : Move 0 a b) (htrace : b.trace = a.trace) :
    b.Tells history := by
  obtain ⟨allocations, htotals⟩ := hm.totals_of_trace htrace
  constructor
  · rw [htrace]
    exact ht.lines
  · rw [htrace, htotals]
    exact ht.nextId
  · rw [htotals]
    exact ht.numbers
  · rw [htotals]
    exact ht.escapes
  · rw [htotals]
    exact ht.promotedObjects
  · rw [htotals]
    exact ht.promotedBytes
  · exact ht.surviving
  · rw [htotals]
    exact ht.reclaimed

theorem Tells.escape (ht : a.Tells history) {requested capacity : Nat}
    (htrace : b.trace = a.trace.logEscape requested capacity)
    (htotals : b.totals = { a.totals with
      allocations := a.totals.allocations + 1
      escapes := a.totals.escapes + 1 }) : b.Tells (history ++ [.escape requested capacity]) := by
  constructor
  · simp [htrace, Trace.logEscape, ht.lines, Occurrence.lines]
  · simpa [htrace, htotals, Trace.logEscape] using ht.nextId
  · simp [htotals, ht.numbers, List.filterMap_cons, Occurrence.number?]
  · simp [htotals, ht.escapes, Occurrence.isEscape]
  · simpa [htotals, Occurrence.promoted] using ht.promotedObjects
  · simpa [htotals, Occurrence.promoted] using ht.promotedBytes
  · simpa using ht.surviving
  · simp [htotals, ht.reclaimed, Occurrence.lost]

/-- What a collection writes into the log while it runs agrees with what there was before it and what
there is after it. -/
theorem collect_lines (hw : a.heap.WellFormed) {trigger : Trigger} {record : CollectionRecord}
    (hc : a.collect trigger = .ok (record, b)) :
    record.lines record.number = (Occurrence.collection trigger a.heap.slots.live record).lines := by
  obtain ⟨marked, promotion, sweep, hp, rfl, _⟩ := collect_eq_ok hw hc
  have hmarked := hp.marked_eq_surviving hw
  have hlive := hw.live_eq_blocks
  simp only [Array.length_toList] at hlive
  simp [CollectionRecord.lines, Occurrence.lines, Phase.lines, Heap.recordOfPhases, hmarked, hlive]

theorem Tells.collection (ht : a.Tells history) (hw : a.heap.WellFormed) {trigger : Trigger}
    {record : CollectionRecord} (hc : a.collect trigger = .ok (record, b)) :
    b.Tells (history ++ [.collection trigger a.heap.slots.live record]) := by
  have hlines := collect_lines hw hc
  have hnumber := (collect_books hw hc).1
  obtain ⟨marked, promotion, sweep, hp, hrecord, rfl⟩ := collect_eq_ok hw hc
  have hbalance : a.heap.slots.live = record.surviving.objects + record.reclaimed.objects := by
    rw [hrecord]
    exact (hp.balance hw).1
  constructor
  · rw [hnumber, ← ht.nextId] at hlines
    simp [Trace.logCollection, ht.lines, hlines]
  · simp [Trace.logCollection, Totals.include, ht.nextId]
  · simp [Totals.include, ht.numbers, Occurrence.number?, hnumber, List.range'_concat, Nat.add_comm]
  · simp [Totals.include, ht.escapes, Occurrence.isEscape]
  · simpa [Totals.include, Tally.add_def, Occurrence.promoted] using ht.promotedObjects
  · simpa [Totals.include, Tally.add_def, Occurrence.promoted] using ht.promotedBytes
  · intro t live r hmem
    rcases List.mem_append.mp hmem with hmem | hmem
    · exact ht.surviving t live r hmem
    · simp only [List.mem_singleton, Occurrence.collection.injEq] at hmem
      obtain ⟨_, rfl, rfl⟩ := hmem
      omega
  · simp only [List.map_append, List.sum_append, ht.reclaimed, Totals.include, Tally.add_def,
      List.map_cons, List.map_nil, List.sum_singleton, Occurrence.lost]
    omega

end Context

section Recounts

variable {a c : Context} {new : List Occurrence}

theorem Recounts.tells (hr : Recounts a new c) (hw : a.heap.WellFormed) {history : List Occurrence}
    (ht : a.Tells history) : c.Tells (history ++ new) := by
  induction hr generalizing history with
  | nil c => rwa [List.append_nil]
  | quiet hm htrace _ ih => exact ih (hm.wellFormed hw) (ht.quiet hm htrace)
  | @escape a c kind count size h heap rest hr ha _ ih =>
    have hserve := Move.serve a kind count h _ (.old hr ha)
    rw [List.append_cons]
    exact ih (hserve.wellFormed hw) (ht.escape rfl rfl)
  | collect hc _ ih =>
    rw [List.append_cons]
    exact ih ((Move.collect _ _ _ _ hc).wellFormed hw) (ht.collection hw hc)

/-- The lines that are new in the log are those of the occurrences. -/
theorem Recounts.lines (hr : Recounts a new c) (hw : a.heap.WellFormed) {history : List Occurrence}
    (ht : a.Tells history) :
    c.trace.lines.toList = a.trace.lines.toList ++ new.flatMap Occurrence.lines := by
  rw [(hr.tells hw ht).lines, ht.lines, List.flatMap_append]

end Recounts

theorem Arena.reset_eq_ok {arena arena' : Arena} (h : arena.reset = .ok arena') :
    arena' = { arena with used := 0, blocks := #[] } := by
  unfold Arena.reset at h
  split at h
  · exact (Except.ok.inj h).symm
  · simp at h

/-- Whatever the heap, a collection that ends leaves the arena empty. -/
theorem Heap.collect_arena {heap heap' : Heap} {roots : List Handle} {trigger : Trigger} {number : Nat}
    {record : CollectionRecord} (h : heap.collect roots trigger number = .ok (heap', record)) :
    heap'.arena = { heap.arena with used := 0, blocks := #[] } := by
  unfold Heap.collect at h
  simp only [bind, Except.bind, pure, Except.pure] at h
  -- Marking, promotion and sweep come before the arena is emptied; the collection ends, so all of them do.
  split at h
  · simp at h
  split at h
  · simp at h
  split at h
  · simp at h
  cases harena : heap.arena.reset with
  | error why => simp [harena] at h
  | ok arena =>
    simp only [harena] at h
    obtain ⟨rfl, _⟩ := Prod.mk.inj (Except.ok.inj h)
    exact Arena.reset_eq_ok harena

namespace Context

/-- The depth of inhibition stays, and while it is 0 only requests above the size of the arena are told
to escape. -/
def EscapesOversize (a c : Context) : Prop :=
  c.inhibitDepth = a.inhibitDepth ∧ ∃ new, c.trace.lines.toList = a.trace.lines.toList ++ new ∧
    (a.inhibitDepth = 0 → ∀ requested capacity, .oversizeEscape requested capacity ∈ new →
      capacity < requested)

variable {a b c : Context}

theorem EscapesOversize.trans (h : a.EscapesOversize b) (h' : b.EscapesOversize c) :
    a.EscapesOversize c := by
  obtain ⟨hdepth, new, hlines, hnew⟩ := h
  obtain ⟨hdepth', new', hlines', hnew'⟩ := h'
  refine ⟨hdepth'.trans hdepth, new ++ new', ?_, ?_⟩
  · rw [hlines', hlines, List.append_assoc]
  · intro hzero requested capacity hmem
    rcases List.mem_append.mp hmem with hmem | hmem
    · exact hnew hzero requested capacity hmem
    · exact hnew' (hdepth.trans hzero) requested capacity hmem

theorem escapesOversize_of_trace_eq (hdepth : c.inhibitDepth = a.inhibitDepth) (htrace : c.trace = a.trace) :
    a.EscapesOversize c :=
  ⟨hdepth, [], by rw [htrace, List.append_nil], by simp⟩

theorem collect_leaves {trigger : Trigger} {record : CollectionRecord}
    (hc : a.collect trigger = .ok (record, c)) :
    c.heap.arena = { a.heap.arena with used := 0, blocks := #[] } ∧
      c.trace = a.trace.logCollection record ∧ c.inhibitDepth = a.inhibitDepth := by
  unfold collect at hc
  cases hh : a.heap.collect a.rootHandles trigger (a.totals.collections + 1) with
  | error why => simp [hh, bind, Except.bind] at hc
  | ok p =>
    simp only [hh, bind, Except.bind, pure, Except.pure, Except.ok.injEq, Prod.mk.injEq] at hc
    obtain ⟨rfl, rfl⟩ := hc
    exact ⟨Heap.collect_arena hh, rfl, rfl⟩

theorem escapesOversize_collect {trigger : Trigger} {record : CollectionRecord}
    (hc : a.collect trigger = .ok (record, c)) : a.EscapesOversize c := by
  obtain ⟨_, htrace, hdepth⟩ := collect_leaves hc
  refine ⟨hdepth, record.lines a.trace.nextId, ?_, ?_⟩
  · simp [htrace, Trace.logCollection]
  · simp [CollectionRecord.lines, Phase.lines]

end Context

namespace Mutator

/-- With collection allowed, a request that fits into an empty arena finds room, be it after a
collection. -/
theorem allocate_escapesOversize (kind : PayloadKind) (count : Nat) :
    (allocate kind count).Within Context.EscapesOversize := by
  intro ctx r c hrun
  cases hr : requestSize ctx.config.maxAllocationBytes kind count with
  | error e =>
    rw [allocate, run_bind, run_read, hr] at hrun
    obtain ⟨_, rfl⟩ := Prod.mk.inj (Except.ok.inj hrun)
    exact Context.escapesOversize_of_trace_eq rfl rfl
  | ok size =>
    cases ha : ctx.heap.allocateYoung? (.fresh kind count) size with
    | some p =>
      rw [run_allocate_young hr ha] at hrun
      obtain ⟨_, rfl⟩ := Prod.mk.inj (Except.ok.inj hrun)
      exact Context.escapesOversize_of_trace_eq rfl rfl
    | none =>
      by_cases hmay : ctx.inhibitDepth = 0 ∧ size ≤ ctx.heap.arena.capacity
      · rw [run_allocate_full hr ha hmay] at hrun
        cases hc : ctx.collect .arenaExhausted with
        | error why => simp [hc] at hrun
        | ok p =>
          have hroom : p.2.heap.allocateYoung? (.fresh kind count) size ≠ none := by
            rw [ne_eq, Heap.allocateYoung?_eq_none, Arena.remaining, (Context.collect_leaves hc).1]
            exact Nat.not_lt.mpr hmay.2
          obtain ⟨q, hq⟩ := Option.ne_none_iff_exists'.mp hroom
          simp only [hc, hq] at hrun
          obtain ⟨_, rfl⟩ := Prod.mk.inj (Except.ok.inj hrun)
          exact (Context.escapesOversize_collect hc).trans (Context.escapesOversize_of_trace_eq rfl rfl)
      · rw [run_allocate_old hr ha hmay] at hrun
        obtain ⟨_, rfl⟩ := Prod.mk.inj (Except.ok.inj hrun)
        refine ⟨rfl, [.oversizeEscape size ctx.heap.arena.capacity], ?_, ?_⟩
        · simp [Context.counted, Trace.logEscape]
        · intro hzero requested capacity hmem
          simp only [List.mem_singleton, TraceLine.oversizeEscape.injEq] at hmem
          omega

end Mutator

theorem escapesOversize_stepwise : Stepwise Context.EscapesOversize where
  refl _ := Context.escapesOversize_of_trace_eq rfl rfl
  trans := Context.EscapesOversize.trans
  stack _ _ := Context.escapesOversize_of_trace_eq rfl rfl
  captures _ _ := Context.escapesOversize_of_trace_eq rfl rfl
  write _ _ _ := Context.escapesOversize_of_trace_eq rfl rfl
  allocate := Mutator.allocate_escapesOversize
  checkpoint _ := Mutator.leaves_checkpoint (Context.escapesOversize_of_trace_eq rfl rfl)
    fun _ _ hc => Context.escapesOversize_collect hc

open Mutator in
/-- What an event that starts outside of all sections without collections tells to escape is above the size
of the arena. -/
theorem Event.escapes_oversize (event : Event) (a : Context) : event.run.Leaves a fun _ c =>
    ∃ new, c.trace.lines.toList = a.trace.lines.toList ++ new ∧
      (a.inhibitDepth = 0 → ∀ requested capacity, .oversizeEscape requested capacity ∈ new →
        capacity < requested) := by
  cases hgoverns : event.governs with
  | false =>
    have hset : ∀ (c : Context) (roots : RootRegistry), c.EscapesOversize { c with roots } :=
      fun _ _ => Context.escapesOversize_of_trace_eq rfl rfl
    exact (escapesOversize_stepwise.event_of_roots hset event hgoverns a).mono fun _ _ h => h.2
  | true =>
    rcases Event.eq_of_governs hgoverns with rfl | rfl | rfl
    · have hcollect : collect.Leaves a fun _ c => a.EscapesOversize c :=
        leaves_collectWith .explicit fun _ _ hc => Context.escapesOversize_collect hc
      exact (leaves_map hcollect _).bind (fun _ _ h => h.2) fun _ _ h => leaves_pure _ h.2
    all_goals
      intro r c hrun
      obtain ⟨_, rfl⟩ := Prod.mk.inj (Except.ok.inj hrun)
      exact ⟨[], by simp, by simp⟩

/-- A run of events with what its log has to tell, each occurrence with the number of sections without
collections that were open at it. -/
inductive Chronicle (config : Config) : Context → List (Nat × Occurrence) → Prop
  | start {ctx : Context} : Context.ofConfig config = .ok ctx → Chronicle config ctx []
  | step {a c : Context} {r : Except RuntimeError Unit} {history : List (Nat × Occurrence)}
      {new : List Occurrence} (event : Event) :
      Chronicle config a history → event.run.run.run a = .ok (r, c) → Recounts a new c →
      Chronicle config c (history ++ new.map fun x => (a.inhibitDepth, x))

variable {config : Config} {ctx : Context}

theorem Reachable.chronicle (hr : Reachable config ctx) : ∃ history, Chronicle config ctx history := by
  induction hr with
  | start hc => exact ⟨[], .start hc⟩
  | step event hr hrun ih =>
    obtain ⟨history, hh⟩ := ih
    obtain ⟨k, _, hmoves⟩ := Mutator.ends_of_ok (event.traced _ hr.wellFormed) hrun
    obtain ⟨new, hnew⟩ := hmoves.recounts
    exact ⟨_, .step event hh hrun hnew⟩

theorem Chronicle.reachable {history : List (Nat × Occurrence)} (hh : Chronicle config ctx history) :
    Reachable config ctx := by
  induction hh with
  | start hc => exact .start hc
  | step event _ hrun _ ih => exact .step event ih hrun

theorem Chronicle.tells {history : List (Nat × Occurrence)} (hh : Chronicle config ctx history) :
    ctx.Tells (history.map Prod.snd) := by
  induction hh with
  | start hc => exact Context.tells_ofConfig hc
  | step event hh hrun hnew ih =>
    have htells := hnew.tells hh.reachable.wellFormed ih
    simpa [Function.comp_def] using htells

theorem Chronicle.escapes_oversize {history : List (Nat × Occurrence)}
    (hh : Chronicle config ctx history) (requested capacity : Nat)
    (hmem : (0, Occurrence.escape requested capacity) ∈ history) : capacity < requested := by
  induction hh with
  | start => simp at hmem
  | @step a c r history new event hh hrun hnew ih =>
    rcases List.mem_append.mp hmem with hmem | hmem
    · exact ih hmem
    · obtain ⟨x, hoccurred, hpair⟩ := List.mem_map.mp hmem
      obtain ⟨hdepth, rfl⟩ := Prod.mk.inj hpair
      obtain ⟨lines, hlines, hover⟩ := event.escapes_oversize a r c hrun
      rw [hnew.lines hh.reachable.wellFormed hh.tells] at hlines
      obtain rfl := List.append_cancel_left hlines
      exact hover hdepth requested capacity (List.mem_flatMap.mpr ⟨_, hoccurred, by simp [Occurrence.lines]⟩)

/-- The log of a run tells what happened in it. It is made of the lines of its escapes and collections,
in their order, where the group of a collection has its trigger, its number, what there was before it and
what survives it. Its totals are those that the context counts apart from it. Outside of sections without
collections only requests above the size of the arena escape. -/
theorem trace_tells_the_run (hr : Reachable config ctx) :
    (∃ history, Chronicle config ctx history) ∧
      ∀ history, Chronicle config ctx history → ctx.Tells (history.map Prod.snd) ∧
        ∀ requested capacity, (0, Occurrence.escape requested capacity) ∈ history →
          capacity < requested :=
  ⟨hr.chronicle, fun _ hh => ⟨hh.tells, hh.escapes_oversize⟩⟩

/-- The arena holds one block of 64 bytes. A block of 80 bytes escapes at once, a second one of 64 after
the end of the first section only after a collection, which is followed by one on request. -/
theorem trace_tells_the_run_mixed :
    ∃ ctx history, Reachable { arenaBytes := 64, stackSlots := 4 } ctx ∧
      Chronicle { arenaBytes := 64, stackSlots := 4 } ctx history ∧
      ctx.trace.lines.toList = history.flatMap (fun x => x.2.lines) ∧
      history.filterMap (fun x => x.2.number?) = [1, 2] ∧ history.countP (fun x => x.2.isEscape) = 2 ∧
      (history.map fun x => x.2.lost).sum = 3 ∧
      ∀ requested capacity, (0, Occurrence.escape requested capacity) ∈ history → capacity < requested := by
  have hstart : Reachable { arenaBytes := 64, stackSlots := 4 } _ := .start rfl
  have hr := hstart.after [.act (.allocateObjects (1 : Nat)), .act (.allocateObjects (2 : Nat)), .inhibit,
    .act (.allocateObjects (1 : Nat)), .permit, .act (.push (Node.ref ⟨2, 1⟩)),
    .act (.allocateObjects (1 : Nat)), .act .collect]
  obtain ⟨⟨history, hh⟩, htells⟩ := trace_tells_the_run hr
  obtain ⟨ht, hover⟩ := htells history hh
  refine ⟨_, history, hr, hh, ?_, ?_, ?_, ?_, hover⟩
  · rw [ht.lines, List.flatMap_map]
  · have hnumbers := ht.numbers
    rw [List.filterMap_map] at hnumbers
    refine hnumbers.trans ?_
    cbv
  · have hescapes := ht.escapes
    rw [List.countP_map] at hescapes
    refine hescapes.trans ?_
    cbv
  · have hlost := ht.reclaimed
    rw [List.map_map] at hlost
    refine hlost.trans ?_
    cbv

end GenerationalHeap
