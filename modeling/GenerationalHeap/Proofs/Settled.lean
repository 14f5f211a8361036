import GenerationalHeap.Proofs.Reachable

namespace GenerationalHeap

namespace SlotTable

theorem sizeAt_update_mark (t : SlotTable) (i j : Nat) :
    (t.update i Block.mark).sizeAt j = t.sizeAt j := by
  rw [sizeAt, blockAt?_update, sizeAt]
  by_cases hj : j = i
  · cases t.blockAt? j <;> simp [hj, Block.mark]
  · simp [hj]

theorem markedAt_update_mark (t : SlotTable) {i : Nat} {b : Block} (hb : t.blockAt? i = some b) (j : Nat) :
    (t.update i Block.mark).markedAt j = true ↔ j = i ∨ t.markedAt j = true := by
  rw [markedAt, blockAt?_update, markedAt]
  by_cases hj : j = i
  · simp [hj, hb, Block.mark]
  · simp [hj]

end SlotTable

namespace Traversal

/-- A traversal that began with some table and count has counted the blocks in these slots, each of them
once, and has marked no others. -/
structure Counted (t : SlotTable) (count : Tally) (new : List Nat) (s : Traversal) : Prop where
  nodup : new.Nodup
  mem : ∀ i, i ∈ new ↔ s.table.markedAt i = true ∧ t.markedAt i = false
  size : ∀ i, s.table.sizeAt i = t.sizeAt i
  mono : ∀ i, t.markedAt i = true → s.table.markedAt i = true
  count : s.count = count + t.tally new

theorem counted_start (t : SlotTable) (count : Tally) (work : List Handle) :
    Counted t count [] ⟨t, count, work⟩ :=
  ⟨List.nodup_nil, by simp, fun _ => rfl, fun _ h => h, by simp [SlotTable.tally, Tally.add_def]⟩

variable {t₀ : SlotTable} {count₀ : Tally} {new : List Nat} {s s' : Traversal}

/-- A step counts the block that it marks, if it marks one. -/
theorem Step.counted (hs : Step s s') (hc : Counted t₀ count₀ new s) :
    ∃ new', Counted t₀ count₀ new' s' := by
  cases hs with
  | pass => exact ⟨new, hc.nodup, hc.mem, hc.size, hc.mono, hc.count⟩
  | @visit t count _ _ _ x b _ hb hm _ =>
    obtain ⟨_, hblock⟩ := (SlotTable.resolve_eq_some_iff t x b).mp hb
    have hmarked := SlotTable.markedAt_update_mark t hblock
    have hbefore : t.markedAt x.index = false := by simp [SlotTable.markedAt, hblock, hm]
    have hstart : t₀.markedAt x.index = false := by
      rw [Bool.eq_false_iff]
      intro hmarked
      simp [hc.mono x.index hmarked] at hbefore
    refine ⟨x.index :: new, List.nodup_cons.mpr ⟨?_, hc.nodup⟩, ?_, ?_, ?_, ?_⟩
    · intro hmem
      simp [((hc.mem x.index).mp hmem).1] at hbefore
    · intro i
      rw [List.mem_cons, hc.mem, hmarked i]
      by_cases hi : i = x.index
      · simp [hi, hstart]
      · simp [hi]
    · exact fun i => (SlotTable.sizeAt_update_mark t x.index i).trans (hc.size i)
    · exact fun i hi => (hmarked i).mpr (.inr (hc.mono i hi))
    · have hsize : t₀.sizeAt x.index = b.size := by
        rw [← hc.size, SlotTable.sizeAt, hblock]
        rfl
      have hcount : count = count₀ + t₀.tally new := hc.count
      rw [hcount, SlotTable.tally_cons, hsize, Tally.count, Tally.add_def, Tally.add_def]
      simp only [Tally.mk.injEq]
      omega

theorem counted_of_run (hrun : Relation.ReflTransGen Step s s') (hc : Counted t₀ count₀ new s) :
    ∃ new', Counted t₀ count₀ new' s' := by
  induction hrun with
  | refl => exact ⟨new, hc⟩
  | tail _ hstep ih =>
    obtain ⟨new', hc'⟩ := ih
    exact hstep.counted hc'

/-- A traversal counts each block that it marks, and counts it once. -/
theorem Yields.counts {t t' : SlotTable} {count count' : Tally} {work : List Handle}
    (hy : (⟨t, count, work⟩ : Traversal).Yields (.ok (t', count'))) :
    ∃ new : List Nat, new.Nodup ∧
      (∀ i, i ∈ new ↔ t'.markedAt i = true ∧ t.markedAt i = false) ∧ count' = count + t.tally new := by
  obtain ⟨s, hrun, hout⟩ := hy
  obtain ⟨new, hc⟩ := counted_of_run hrun (counted_start t count work)
  cases hout with
  | done => exact ⟨new, hc.nodup, hc.mem, hc.count⟩

end Traversal

namespace Heap

variable {heap : Heap} {roots : List Handle} {marked : SlotTable × Tally} {promotion sweep : Sifting}

/-- What the traversal counts is what the walks over the two generations keep. -/
theorem Phases.marked_tally (hw : heap.WellFormed) (hp : Phases heap roots marked promotion sweep) :
    marked.2 = heap.slots.tally sweep.kept.toList := by
  have hyields := Traversal.yields_mark (heap.slots.mapBlocks Block.unmark) {} roots.reverse
  rw [hp.mark] at hyields
  obtain ⟨new, hnodup, hnew, hcount⟩ := hyields.counts
  have hperm : new.Perm sweep.kept.toList := by
    have hkept : sweep.kept.toList.Nodup := (hp.wellFormed hw).old_nodup
    rw [List.perm_ext_iff_of_nodup hnodup hkept]
    intro i
    have hclear : (heap.slots.mapBlocks Block.unmark).markedAt i = false := by
      rw [SlotTable.markedAt, SlotTable.blockAt?_mapBlocks]
      cases heap.slots.blockAt? i <;> simp [Block.unmark]
    rw [hnew, hp.kept hw, List.mem_append, List.mem_filter, List.mem_filter, ← or_and_right, hclear]
    constructor
    · intro hmarked
      obtain ⟨b, hb, _⟩ := (Option.any_eq_true _ _).mp hmarked.1
      rw [blockAt?_marked hp.mark] at hb
      obtain ⟨a, ha, _⟩ := Option.map_eq_some_iff.mp hb
      exact ⟨(hw.listed i a ha).symm, hmarked.1⟩
    · exact fun hmarked => ⟨hmarked.2, rfl⟩
  have hsizes : (heap.slots.mapBlocks Block.unmark).tally new = heap.slots.tally new := by
    apply SlotTable.tally_congr_size
    intro i _
    rw [SlotTable.sizeAt, SlotTable.blockAt?_mapBlocks, SlotTable.sizeAt]
    cases heap.slots.blockAt? i <;> rfl
  rw [hcount, hsizes, heap.slots.tally_perm hperm, Tally.add_def]
  simp

/-- What the traversal counts is what survives. -/
theorem Phases.marked_eq_surviving (hw : heap.WellFormed)
    (hp : Phases heap roots marked promotion sweep) :
    marked.2 = ⟨sweep.slots.live, heap.bytesAfter promotion sweep⟩ := by
  rw [hp.marked_tally hw, hp.live_eq_kept hw, hp.bytesAfter hw, hp.kept_tally hw]
  simp [SlotTable.tally]

/-- A heap in which a collection from the given roots has nothing to take and nothing to move. -/
structure Settled (heap : Heap) (roots : List Handle) : Prop where
  live_iff : ∀ h, heap.Live h ↔ heap.slots.Reaches (· ∈ roots) h
  promoted : ∀ h b, heap.block? h = some b → b.promoted = b
  young : heap.arena.blocks = #[]

theorem Phases.settled (hw : heap.WellFormed) (hp : Phases heap roots marked promotion sweep) :
    (heap.afterPhases promotion sweep).Settled roots := by
  have hpayload := payload?_afterPhases hw hp
  -- Survivors have their contents, so the same is reached through them as before.
  have hreached : ∀ h, heap.slots.Reaches (· ∈ roots) h →
      (heap.afterPhases promotion sweep).slots.Reaches (· ∈ roots) h := by
    intro h hr
    apply reaches_kept (fun _ hg => .root hg) _ hr
    intro g p hg _ hgp
    exact (hpayload g p).mpr ⟨hg, hgp⟩
  constructor
  · intro h
    constructor
    · intro hl
      obtain ⟨p, hp'⟩ := Heap.live_iff.mp hl
      exact hreached h ((hpayload h p).mp hp').1
    · intro hr
      have hbefore : heap.slots.Reaches (· ∈ roots) h := by
        apply reaches_kept (fun _ hg => .root hg) _ hr
        intro g p _ _ hgp
        exact ((hpayload g p).mp hgp).2
      obtain ⟨p, hp'⟩ := Heap.live_iff.mp (hp.live_of_reaches hbefore)
      exact live_of_payload? ((hpayload h p).mpr ⟨hbefore, hp'⟩)
  · intro h b hb
    obtain ⟨_, a, _, rfl⟩ := (hp.resolve_eq_some_iff hw h b).mp hb
    rfl
  · rfl

theorem Settled.markedAt (hs : heap.Settled roots) (hp : Promoted heap roots marked promotion) {i : Nat}
    {b : Block} (hb : heap.slots.blockAt? i = some b) : marked.1.markedAt i = true := by
  obtain ⟨v, hv, hr⟩ := heap.slots.exists_version_of_blockAt? i b hb
  have hlive : heap.Live ⟨i, v⟩ := by simp [Live, block?, hr]
  exact (markedAt_iff_reaches hp.mark i v hv).mpr ((hs.live_iff _).mp hlive)

/-- A collection of a settled heap counts all of it and changes nothing. -/
theorem Settled.phases (hs : heap.Settled roots) (hw : heap.WellFormed)
    (hp : Phases heap roots marked promotion sweep) :
    marked.2 = heap.slots.tally heap.old.blocks.toList ∧ promotion.keptTally = {} ∧
      promotion.freedTally = {} ∧ sweep.freedTally = {} ∧
      ∀ h, sweep.slots.resolve h = heap.slots.resolve h := by
  have hall : ∀ i ∈ heap.old.blocks.toList, marked.1.markedAt i = true := by
    intro i hi
    obtain ⟨b, hb⟩ := hw.old_occupied i hi
    exact hs.markedAt hp.toPromoted hb
  have hkept := List.filter_eq_self.mpr hall
  have hdropped : (heap.old.blocks.toList.filter fun i => !marked.1.markedAt i) = [] := by
    rw [List.filter_eq_nil_iff]
    intro i hi
    simp [hall i hi]
  refine ⟨?_, ?_, ?_, ?_, ?_⟩
  · rw [hp.marked_tally hw, hp.kept hw, hkept, hs.young]
    simp
  · simp [hp.promoted_tally, hs.young, SlotTable.tally]
  · simp [hp.dropped_tally, hs.young, SlotTable.tally]
  · simp [hp.swept_tally hw, hdropped, SlotTable.tally]
  · intro h
    apply Option.ext
    intro b
    rw [hp.resolve_eq_some_iff hw]
    constructor
    · intro hswept
      obtain ⟨_, a, ha, rfl⟩ := hswept
      rw [hs.promoted h a ha]
      exact ha
    · intro hb
      have hlive : heap.Live h := by simp [Live, block?, hb]
      exact ⟨(hs.live_iff h).mp hlive, b, hb, (hs.promoted h b hb).symm⟩

end Heap

namespace Context

variable {c c' : Context} {trigger : Trigger} {record : CollectionRecord}

theorem collect_rootHandles (hc : c.collect trigger = .ok (record, c')) :
    c'.rootHandles = c.rootHandles := by
  obtain ⟨hstack, hroots, hcaptures, _, _⟩ := collect_frame trigger record hc
  rw [rootHandles, rootHandles, hstack, hroots, hcaptures]

theorem collect_settled (hw : c.heap.WellFormed) (hc : c.collect trigger = .ok (record, c')) :
    c'.heap.Settled c'.rootHandles := by
  obtain ⟨marked, promotion, sweep, hp, hheap⟩ := collect_phases hw hc
  rw [collect_rootHandles hc, hheap]
  exact hp.settled hw

/-- Nothing reachable is gone from a settled heap, so a collection of it ends. -/
theorem collect_again (hw : c.heap.WellFormed) (hs : c.heap.Settled c.rootHandles) (trigger : Trigger) :
    ∃ record c', c.collect trigger = .ok (record, c') ∧
      record.marked = c.heap.slots.tally c.heap.old.blocks.toList ∧ record.promoted = {} ∧
      record.youngReclaimed = {} ∧ record.oldReclaimed = {} ∧
      ∀ h, c'.heap.block? h = c.heap.block? h := by
  rcases c.collect_cases hw trigger with ⟨x, _, hnone, hr⟩ | ⟨marked, promotion, sweep, record, hp, rfl, hok⟩
  · have hlive := (hs.live_iff x).mpr hr
    simp [Heap.Live, Heap.block?, hnone] at hlive
  · have hphases := hs.phases hw hp
    exact ⟨_, _, hok, hphases⟩

end Context

theorem Mutator.run_collectWith_eq_ok {ctx c : Context} {trigger : Trigger} {record : CollectionRecord} :
    (collectWith trigger).run.run ctx = .ok (.ok record, c) ↔ ctx.collect trigger = .ok (record, c) := by
  rw [run_collectWith]
  cases ctx.collect trigger with
  | error why => simp
  | ok p => simp [Prod.ext_iff]

/-- The counts that a collection makes on its ways through the heap agree: of the traversal, of the walks
over the two generations and of the handle table. This holds whenever a collection ends, also in the
middle of an operation. A second collection right behind it ends as well, counts the same and changes
nothing. -/
theorem collection_accounts_agree {config : Config} {start ctx : Context} {n : Nat}
    (hr : Reachable config start) (hm : Moves n start ctx) {trigger : Trigger}
    {record : CollectionRecord} {c : Context}
    (hrun : (Mutator.collectWith trigger).run.run ctx = .ok (.ok record, c)) :
    record.marked.objects = record.surviving.objects ∧
      record.surviving.objects = c.heap.slots.live ∧ c.heap.slots.live = c.heap.old.blocks.size ∧
      ctx.heap.slots.live = record.surviving.objects + record.reclaimed.objects ∧
      ctx.heap.arena.used = record.promoted.bytes + record.youngReclaimed.bytes ∧
      ctx.heap.arena.blocks.size = record.promoted.objects + record.youngReclaimed.objects ∧
      c.heap.old.bytes = record.surviving.bytes ∧
      c.heap.old.bytes + record.oldReclaimed.bytes = ctx.heap.old.bytes + record.promoted.bytes ∧
      c.heap.old.blocks.size + record.oldReclaimed.objects =
        ctx.heap.old.blocks.size + record.promoted.objects ∧
      ∀ trigger', ∃ record' c',
        (Mutator.collectWith trigger').run.run c = .ok (.ok record', c') ∧
        record'.marked.objects = record.marked.objects ∧ record'.promoted = {} ∧
        record'.youngReclaimed = {} ∧ record'.oldReclaimed = {} ∧
        ∀ h, c'.heap.block? h = c.heap.block? h := by
  have hw := hm.wellFormed hr.wellFormed
  have hc := Mutator.run_collectWith_eq_ok.mp hrun
  have hsettled := Context.collect_settled hw hc
  have hw' := (Move.collect ctx trigger record c hc).wellFormed hw
  obtain ⟨marked, promotion, sweep, hp, rfl, rfl⟩ := Context.collect_eq_ok hw hc
  have hmarked := hp.marked_eq_surviving hw
  have hyoung := hp.young_accounts hw
  have hold := hp.old_accounts hw
  have hkept := hp.live_eq_kept hw
  refine ⟨congrArg Tally.objects hmarked, rfl, hkept, (hp.balance hw).1, hyoung.2, hyoung.1, rfl, hold.2,
    hold.1, ?_⟩
  intro trigger'
  obtain ⟨record', c', hc', hcount, hnone⟩ := Context.collect_again hw' hsettled trigger'
  refine ⟨record', c', Mutator.run_collectWith_eq_ok.mpr hc', ?_, hnone⟩
  calc record'.marked.objects = sweep.kept.size := congrArg Tally.objects hcount
    _ = sweep.slots.live := hkept.symm
    _ = marked.2.objects := (congrArg Tally.objects hmarked).symm

/-- In the frame of an operation, with garbage in both generations beside a cycle that runs through
both of them. -/
theorem collection_accounts_agree_mixed :
    ∃ ctx record c record' c', Reachable { arenaBytes := 1000, stackSlots := 4 } ctx ∧
      (Mutator.collectWith .arenaExhausted).run.run { ctx with stack := ctx.stack.pushFrame.2 } =
        .ok (.ok record, c) ∧
      record.promoted.objects = 1 ∧ record.youngReclaimed.objects = 1 ∧
      record.oldReclaimed.objects = 1 ∧ record.marked.objects = c.heap.old.blocks.size ∧
      (Mutator.collectWith .explicit).run.run c = .ok (.ok record', c') ∧
      record'.marked.objects = record.marked.objects ∧ record'.promoted = {} ∧
      record'.oldReclaimed = {} := by
  have hstart : Reachable { arenaBytes := 1000, stackSlots := 4 } _ := .start rfl
  have hr := hstart.after [.act (.allocateObjects (1 : Nat)), .act (.allocateBytes (5 : Nat)),
    .act (.push (Node.ref ⟨0, 1⟩)), .act (.push (Node.ref ⟨1, 1⟩)), .act .collect, .act .pop,
    .act (.allocateObjects (1 : Nat)), .act (.setObject (⟨0, 1⟩ : Handle) (0 : Nat) (Node.ref ⟨2, 1⟩)),
    .act (.setObject (⟨2, 1⟩ : Handle) (0 : Nat) (Node.ref ⟨0, 1⟩)), .act (.allocateBytes (3 : Nat))]
  generalize hctx : Context.after _ _ = ctx at hr
  have hframe := (Move.stack ctx [] ctx.stack.pushFrame.2 (ValueStack.turn_pushFrame ctx.stack)).once
  have hcheck : ((Mutator.collectWith .arenaExhausted).run.run
      { ctx with stack := ctx.stack.pushFrame.2 }).toOption.any (fun p => p.1.toOption.any fun record =>
        record.promoted.objects = 1 ∧ record.youngReclaimed.objects = 1 ∧
          record.oldReclaimed.objects = 1) = true := by
    rw [← hctx]
    cbv
  obtain ⟨⟨collected, c⟩, hrun, hcheck⟩ := exists_ok_of_any hcheck
  obtain ⟨record, rfl, hcounts⟩ := exists_ok_of_any hcheck
  have hcounts := of_decide_eq_true hcounts
  obtain ⟨hmarked, hsurviving, hlive, _, _, _, _, _, _, hagain⟩ := collection_accounts_agree hr hframe hrun
  obtain ⟨record', c', hrun', hcount, hpromoted, _, hreclaimed, _⟩ := hagain .explicit
  have hold := hmarked.trans (hsurviving.trans hlive)
  exact ⟨ctx, record, c, record', c', hr, hrun, hcounts.1, hcounts.2.1, hcounts.2.2, hold, hrun', hcount,
    hpromoted, hreclaimed⟩

end GenerationalHeap
