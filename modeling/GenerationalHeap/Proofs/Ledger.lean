import GenerationalHeap.Proofs.Reachable

namespace GenerationalHeap

namespace Context

variable {c c' : Context} {kind : PayloadKind} {count : Nat} {h : Handle} {trigger : Trigger}
  {record : CollectionRecord}

/-- Number and bytes of what the last collection left; before the first one there was nothing. -/
def lastSurviving (ctx : Context) : Tally := (ctx.lastCollection.map (·.surviving)).getD {}

/-- Number of the last collection, 0 before the first one. -/
def lastNumber (ctx : Context) : Nat := (ctx.lastCollection.map (·.number)).getD 0

/-- The counters agree with each other and with the sizes of all blocks served so far, `since` being
those served since the last collection. -/
structure Balanced (ctx : Context) (all since : List Nat) : Prop where
  allocations : ctx.totals.allocations = ctx.heap.slots.live + ctx.totals.reclaimed.objects
  bytes : all.sum = ctx.heap.arena.used + ctx.heap.old.bytes + ctx.totals.reclaimed.bytes
  live : ctx.heap.slots.live = ctx.lastSurviving.objects + ctx.allocationsSinceCollect
  heapBytes : ctx.heap.arena.used + ctx.heap.old.bytes = ctx.lastSurviving.bytes + since.sum
  collections : ctx.totals.collections = ctx.lastNumber
  allCount : ctx.totals.allocations = all.length
  sinceCount : ctx.allocationsSinceCollect = since.length

theorem balanced_ofConfig {config : Config} (hc : ofConfig config = .ok c) : c.Balanced [] [] := by
  obtain ⟨arena, ha, rfl⟩ := ofConfig_eq_ok hc
  have hused := (Arena.reserve_eq_ok _ _ ha).1
  constructor <;> simp [lastSurviving, lastNumber, hused]

/-- A block that was just placed is in its generation, and its size in the books of that. -/
theorem Served.sizes (hs : Served c kind count h c') (hw : c.heap.WellFormed) :
    c'.heap.arena.used + c'.heap.old.bytes =
        c.heap.arena.used + c.heap.old.bytes + c'.heap.slots.sizeAt h.index ∧
      c'.heap.slots.live = c.heap.slots.live + 1 := by
  cases hs with
  | young _ ha =>
    obtain ⟨_, rfl, rfl⟩ := Heap.allocateYoung?_eq_some _ _ _ _ ha
    refine ⟨?_, SlotTable.live_insert _ _⟩
    simp only [counted, hw.sizeAt_insert]
    omega
  | @old size _ _ ha =>
    obtain ⟨rfl, rfl⟩ := Prod.mk.inj ha
    refine ⟨?_, SlotTable.live_insert _ _⟩
    have hsize := hw.sizeAt_insert ⟨.fresh kind count, size, .old, false⟩
    exact (Nat.add_assoc _ _ _).symm.trans (congrArg _ hsize.symm)

variable {all since : List Nat}

theorem Balanced.served (hb : c.Balanced all since) (hw : c.heap.WellFormed)
    (hs : Served c kind count h c') :
    c'.Balanced (c'.heap.slots.sizeAt h.index :: all) (c'.heap.slots.sizeAt h.index :: since) := by
  obtain ⟨hplaced, hone⟩ := hs.sizes hw
  obtain ⟨hserved, hsince, hreclaimed, hnumber, hlast⟩ := hs.books
  have hsurviving : c'.lastSurviving = c.lastSurviving := by rw [lastSurviving, hlast, lastSurviving]
  obtain ⟨hallocations, hbytes, hlive, hheapBytes, hcollections, hallCount, hsinceCount⟩ := hb
  constructor
  case allocations =>
    rw [hserved, hone, hreclaimed]
    omega
  case bytes =>
    rw [List.sum_cons, hreclaimed]
    omega
  case live =>
    rw [hsurviving, hone, hsince]
    omega
  case heapBytes =>
    rw [hsurviving, List.sum_cons]
    omega
  case collections =>
    rw [lastNumber, hlast, hnumber]
    exact hcollections
  case allCount => rw [hserved, hallCount, List.length_cons]
  case sinceCount => rw [hsince, hsinceCount, List.length_cons]

/-- What a collection reclaims goes from one side of the books to the other. -/
theorem Balanced.collected (hb : c.Balanced all since) (hw : c.heap.WellFormed)
    (hc : c.collect trigger = .ok (record, c')) : c'.Balanced all [] := by
  obtain ⟨marked, promotion, sweep, hp, rfl, rfl⟩ := collect_eq_ok hw hc
  obtain ⟨hkept, hsizes⟩ := hp.balance hw
  constructor
  case allocations =>
    have hallocations := hb.allocations
    simp only [Totals.include, CollectionRecord.reclaimed, Heap.recordOfPhases, Heap.afterPhases,
      Tally.add_def]
    omega
  case bytes =>
    have hbytes := hb.bytes
    simp only [Totals.include, CollectionRecord.reclaimed, Heap.recordOfPhases, Heap.afterPhases,
      Tally.add_def]
    omega
  case live => simp [lastSurviving, Heap.recordOfPhases, Heap.afterPhases]
  case heapBytes => simp [lastSurviving, Heap.recordOfPhases, Heap.afterPhases]
  case collections => simp [lastNumber, Heap.recordOfPhases, Totals.include]
  case allCount => exact hb.allCount
  case sinceCount => rfl

end Context

section Moves

variable {n : Nat} {a b : Context}

/-- Only a collection takes an allocation away. -/
theorem Move.live (hm : Move 0 a b) (hw : a.heap.WellFormed) {h : Handle} (hl : a.heap.Live h) :
    b.heap.Live h := by
  obtain ⟨p, hp⟩ := Heap.live_iff.mp hl
  cases hm with
  | stack | roots | enter | leave | inhibit => exact hl
  | write _ g p q hg hk hc =>
    rw [Heap.live_iff, Heap.payload?_setPayload hg]
    split
    · exact ⟨q, rfl⟩
    · exact ⟨_, hp⟩
  | serve _ kind count g _ hs =>
    rw [Heap.live_iff, hs.payload? hw]
    split
    · exact ⟨_, rfl⟩
    · exact ⟨p, hp⟩

theorem Move.reclaimed_eq (hm : Move 0 a b) : b.totals.reclaimed = a.totals.reclaimed := by
  cases hm with
  | stack | roots | enter | leave | inhibit | write => rfl
  | serve _ kind count g _ hs => exact hs.books.2.2.1

/-- Between collections nothing is lost and nothing counted as reclaimed. -/
theorem Moves.without_collection (hm : Moves n a b) (hn : n = 0) (hw : a.heap.WellFormed) :
    b.totals.reclaimed = a.totals.reclaimed ∧ ∀ h, a.heap.Live h → b.heap.Live h := by
  induction hm with
  | refl => exact ⟨rfl, fun _ hl => hl⟩
  | @head j k _ _ _ hfirst _ ih =>
    obtain rfl : j = 0 := by omega
    obtain ⟨hreclaimed, hlive⟩ := ih (by omega) (hfirst.wellFormed hw)
    exact ⟨hreclaimed.trans hfirst.reclaimed_eq, fun h hl => hlive h (hfirst.live hw hl)⟩

end Moves

/-- A run with the sizes of the blocks it was served, the latest first: all of them, and those since
the last collection. -/
inductive Ledger (config : Config) : Context → (all since : List Nat) → Prop
  | start {ctx : Context} : Context.ofConfig config = .ok ctx → Ledger config ctx [] []
  | quiet {a b : Context} {all since : List Nat} :
      Ledger config a all since → Move 0 a b → b.issued = a.issued → Ledger config b all since
  | serve {a b : Context} {all since : List Nat} {kind : PayloadKind} {count : Nat} {h : Handle} :
      Ledger config a all since → a.Served kind count h b →
      Ledger config b (b.heap.slots.sizeAt h.index :: all) (b.heap.slots.sizeAt h.index :: since)
  | collect {a b : Context} {all since : List Nat} {trigger : Trigger} {record : CollectionRecord} :
      Ledger config a all since → a.collect trigger = .ok (record, b) → Ledger config b all []

variable {config : Config} {ctx : Context} {all since : List Nat}

theorem Ledger.balanced (hl : Ledger config ctx all since) :
    ctx.heap.WellFormed ∧ ctx.Balanced all since := by
  induction hl with
  | start hc => exact ⟨wellFormed_ofConfig hc, Context.balanced_ofConfig hc⟩
  | quiet _ hm hissued ih =>
    refine ⟨hm.wellFormed ih.1, ?_⟩
    cases hm with
    | stack | roots | enter | leave | inhibit | write => exact { ih.2 with }
    | serve _ _ _ h _ hs =>
      rw [hs.issued_eq] at hissued
      simp at hissued
  | serve _ hs ih => exact ⟨hs.wellFormed ih.1, ih.2.served ih.1 hs⟩
  | collect _ hc ih => exact ⟨(Move.collect _ _ _ _ hc).wellFormed ih.1, ih.2.collected ih.1 hc⟩

/-- Every reachable context has a ledger. -/
theorem Reachable.ledger (hr : Reachable config ctx) : ∃ all since, Ledger config ctx all since := by
  apply (hr.invariant (P := fun c => ∃ all since, Ledger config c all since) _ _).2
  · intro c hc
    exact ⟨[], [], .start hc⟩
  · intro n a b hm hw hledger
    obtain ⟨all, since, hl⟩ := hledger
    have hquiet : ∀ {b}, Move 0 a b → b.issued = a.issued → ∃ all since, Ledger config b all since :=
      fun hm hissued => ⟨all, since, hl.quiet hm hissued⟩
    cases hm with
    | serve _ kind count h _ hs => exact ⟨_, _, hl.serve hs⟩
    | collect _ trigger record _ hc => exact ⟨_, _, hl.collect hc⟩
    | stack _ new s ht => exact hquiet (.stack a new s ht) rfl
    | roots _ r => exact hquiet (.roots a r) rfl
    | enter _ h n hc => exact hquiet (.enter a h n hc) rfl
    | leave => exact hquiet (.leave a) rfl
    | inhibit _ depth => exact hquiet (.inhibit a depth) rfl
    | write _ h p q hp hk hc => exact hquiet (.write a h p q hp hk hc) rfl

/-- An allocation is counted after the collection it makes room by. -/
theorem Mutator.allocate_books (hw : ctx.heap.WellFormed) {kind : PayloadKind} {count : Nat}
    {h : Handle} {c : Context} (hrun : (allocate kind count).run.run ctx = .ok (.ok h, c)) :
    c.totals.allocations = ctx.totals.allocations + 1 ∧
      (c.totals.collections = ctx.totals.collections ∧
          c.allocationsSinceCollect = ctx.allocationsSinceCollect + 1 ∨
        c.totals.collections = ctx.totals.collections + 1 ∧ c.allocationsSinceCollect = 1) := by
  rcases ends_of_ok (allocate_ends ctx kind count) hrun with ⟨e, he, _⟩ | ⟨_, c₁, _, hy, hs⟩
  · simp at he
  · obtain ⟨halloc, hsince, _, hcoll, _⟩ := hs.books
    rcases hy with rfl | ⟨record, hc⟩
    · exact ⟨halloc, .inl ⟨hcoll, hsince⟩⟩
    · obtain ⟨_, _, _, _, rfl, rfl⟩ := Context.collect_eq_ok hw hc
      exact ⟨halloc, .inr ⟨hcoll, hsince⟩⟩

/-- The counters of every reachable context balance, over the whole run and since the last
collection. Collections are numbered without gaps, nothing is lost or counted as reclaimed outside of
them, and an allocation that makes room by a collection is counted behind it. -/
theorem counters_balance (hr : Reachable config ctx) :
    (∃ all since, Ledger config ctx all since) ∧
      (∀ all since, Ledger config ctx all since → ctx.Balanced all since) ∧
      (∀ trigger record c, ctx.collect trigger = .ok (record, c) →
        record.number = ctx.totals.collections + 1 ∧ c.totals.collections = record.number ∧
          c.lastCollection = some record ∧ c.allocationsSinceCollect = 0) ∧
      (∀ (event : Event) r c, event.run.run.run ctx = .ok (r, c) →
        c.totals.collections = ctx.totals.collections →
        c.totals.reclaimed = ctx.totals.reclaimed ∧ ∀ h, ctx.heap.Live h → c.heap.Live h) ∧
      ∀ kind count h c, (Mutator.allocate kind count).run.run ctx = .ok (.ok h, c) →
        c.totals.allocations = ctx.totals.allocations + 1 ∧
          (c.totals.collections = ctx.totals.collections ∧
              c.allocationsSinceCollect = ctx.allocationsSinceCollect + 1 ∨
            c.totals.collections = ctx.totals.collections + 1 ∧ c.allocationsSinceCollect = 1) := by
  have hw := hr.wellFormed
  refine ⟨hr.ledger, fun _ _ hl => hl.balanced.2, fun _ _ _ hc => Context.collect_books hw hc, ?_,
    fun _ _ _ _ hrun => Mutator.allocate_books hw hrun⟩
  intro event r c hrun hcoll
  obtain ⟨k, _, hmoves⟩ := Mutator.ends_of_ok (event.traced ctx hw) hrun
  have hk := hmoves.collections_eq hw
  exact hmoves.without_collection (by omega) hw

/-- Two allocations of this run collect first, and the second of these collections finds garbage. -/
theorem counters_balance_exhausted :
    ∃ ctx, Reachable { arenaBytes := 80, stackSlots := 4 } ctx ∧ ctx.totals.collections = 2 ∧
      ctx.allocationsSinceCollect = 1 ∧ ctx.totals.reclaimed = ⟨1, 80⟩ ∧
      ∃ all since, Ledger { arenaBytes := 80, stackSlots := 4 } ctx all since ∧ all.sum = 208 ∧
        since.sum = 64 := by
  have hstart : Reachable { arenaBytes := 80, stackSlots := 4 } _ := .start rfl
  have hr := hstart.after [.act (.allocateObjects (1 : Nat)), .act (.push (Node.ref ⟨0, 1⟩)),
    .act (.allocateObjects (2 : Nat)), .act (.allocateObjects (1 : Nat))]
  obtain ⟨⟨all, since, hl⟩, hbalanced, _⟩ := counters_balance hr
  have hb := hbalanced all since hl
  refine ⟨_, hr, by cbv, by cbv, by cbv, all, since, hl, ?_, ?_⟩
  · rw [hb.bytes]
    cbv
  · apply Nat.add_left_cancel (hb.heapBytes.symm.trans _)
    cbv

end GenerationalHeap
