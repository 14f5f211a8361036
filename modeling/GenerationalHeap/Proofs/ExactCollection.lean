import GenerationalHeap.Proofs.Reachable
import GenerationalHeap.Proofs.Roots

namespace GenerationalHeap

namespace SlotTable

/-- The same blocks under other marks. -/
def remark (t : SlotTable) (marks : Nat → Bool) : SlotTable :=
  { t with slots := t.slots.mapIdx fun i slot =>
      { slot with block := slot.block.map fun b => { b with marked := marks i } } }

variable (t : SlotTable) (marks : Nat → Bool)

theorem blockAt?_remark (i : Nat) :
    (t.remark marks).blockAt? i = (t.blockAt? i).map fun b => { b with marked := marks i } := by
  unfold blockAt? remark
  rw [Array.getElem?_mapIdx]
  cases t.slots[i]? <;> simp

theorem sound_remark (ht : t.Sound) : (t.remark marks).Sound := by
  constructor
  · exact ht.free_nodup
  · intro i
    rw [blockAt?_remark, Option.map_eq_none_iff]
    simpa [remark] using ht.mem_free i
  · simpa [remark] using ht.live_add

theorem unmark_remark : (t.remark marks).mapBlocks Block.unmark = t.mapBlocks Block.unmark := by
  have hslots : (t.remark marks).slots.map
        (fun slot => { slot with block := slot.block.map Block.unmark }) =
      t.slots.map fun slot => { slot with block := slot.block.map Block.unmark } := by
    apply Array.ext_getElem?
    intro i
    rw [remark, Array.getElem?_map, Array.getElem?_map, Array.getElem?_mapIdx]
    cases t.slots[i]? with
    | none => rfl
    | some slot => cases h : slot.block <;> simp [h, Block.unmark]
  simp only [mapBlocks, hslots]
  rfl

end SlotTable

namespace Context

/-- The same context under other marks. -/
def remark (ctx : Context) (marks : Nat → Bool) : Context :=
  { ctx with heap := { ctx.heap with slots := ctx.heap.slots.remark marks } }

theorem wellFormed_remark (ctx : Context) (marks : Nat → Bool) (hw : ctx.heap.WellFormed) :
    (ctx.remark marks).heap.WellFormed := by
  apply hw.congr _ (ctx.heap.slots.sound_remark marks hw.slots)
  · intro i
    rw [SlotTable.placeAt?, SlotTable.blockAt?_remark, Option.map_map]
    rfl
  · intro i
    rw [SlotTable.sizeAt, SlotTable.blockAt?_remark, SlotTable.sizeAt]
    cases ctx.heap.slots.blockAt? i <;> rfl
  · intro i b hb
    rw [SlotTable.blockAt?_remark] at hb
    obtain ⟨a, ha, rfl⟩ := Option.map_eq_some_iff.mp hb
    exact hw.sizes i a ha

/-- Marks from before do not change what is reachable. -/
theorem reaches_remark_iff (ctx : Context) (marks : Nat → Bool) (h : Handle) :
    (ctx.remark marks).heap.slots.Reaches (· ∈ (ctx.remark marks).rootHandles) h ↔
      ctx.heap.slots.Reaches ctx.IsRoot h := by
  have hroots : (fun h => h ∈ (ctx.remark marks).rootHandles) = ctx.IsRoot :=
    funext fun h => propext (ctx.mem_rootHandles h)
  have hu := ctx.heap.slots.unmark_remark marks
  rw [hroots]
  exact ⟨SlotTable.reaches_of_unmark_eq hu.symm, SlotTable.reaches_of_unmark_eq hu⟩

end Context

/-- A collection is exact: whatever marks the blocks carry, if everything reachable stands for an
allocation, the collection ends, and a handle stands for an allocation afterwards just if it was
reachable. What survives has its contents and is old; the arena is empty, the counts are exact, and
the roots are as they were. -/
theorem collect_exact {config : Config} {ctx : Context} (hr : Reachable config ctx)
    (marks : Nat → Bool) (trigger : Trigger)
    (hlive : ∀ h, ctx.heap.slots.Reaches ctx.IsRoot h → ctx.heap.Live h) :
    ∃ record ctx', (Mutator.collectWith trigger).run.run (ctx.remark marks) = .ok (.ok record, ctx') ∧
      (∀ h, ctx'.heap.Live h ↔ ctx.heap.slots.Reaches ctx.IsRoot h) ∧
      (∀ h b', ctx'.heap.block? h = some b' → ∃ b, ctx.heap.block? h = some b ∧
        b'.payload = b.payload ∧ b'.place.generation = .old) ∧
      ctx'.heap.arena.used = 0 ∧ ctx'.heap.arena.blocks = #[] ∧
      ctx'.heap.old.blocks.size = ctx'.heap.slots.live ∧
      {h | ctx.heap.slots.Reaches ctx.IsRoot h}.encard = ctx'.heap.slots.live ∧
      ctx'.stack = ctx.stack ∧ ctx'.roots = ctx.roots ∧ ctx'.captures = ctx.captures := by
  have hw := ctx.wellFormed_remark marks hr.wellFormed
  have hu : (ctx.remark marks).heap.slots.mapBlocks Block.unmark = ctx.heap.slots.mapBlocks Block.unmark :=
    ctx.heap.slots.unmark_remark marks
  rcases (ctx.remark marks).collect_cases hw trigger with
    ⟨x, _, hnone, hreached⟩ | ⟨marked, promotion, sweep, record, hp, _, hok⟩
  · -- Marking breaks off at a reachable handle only, and those all stand for an allocation.
    obtain ⟨b, hb⟩ := Option.isSome_iff_exists.mp (hlive x ((ctx.reaches_remark_iff marks x).mp hreached))
    obtain ⟨b', hb', _⟩ := SlotTable.resolve_of_unmark_eq hu x b hb
    rw [hnone] at hb'
    simp at hb'
  · have hsurvivor : ∀ h b', sweep.slots.resolve h = some b' ↔
        ctx.heap.slots.Reaches ctx.IsRoot h ∧
          ∃ b, (ctx.remark marks).heap.slots.resolve h = some b ∧ b' = b.promoted := by
      intro h b'
      rw [← ctx.reaches_remark_iff marks h]
      exact hp.resolve_eq_some_iff hw h b'
    have hresolves : ∀ h, (sweep.slots.resolve h).isSome ↔ ctx.heap.slots.Reaches ctx.IsRoot h := by
      intro h
      rw [Option.isSome_iff_exists]
      constructor
      · intro hsome
        obtain ⟨b', hb'⟩ := hsome
        exact ((hsurvivor h b').mp hb').1
      · intro hreach
        obtain ⟨b, hb⟩ := Option.isSome_iff_exists.mp (hlive h hreach)
        obtain ⟨b', hb', _⟩ := SlotTable.resolve_of_unmark_eq hu h b hb
        exact ⟨b'.promoted, (hsurvivor h _).mpr ⟨hreach, b', hb', rfl⟩⟩
    have hafter := hp.wellFormed hw
    have hrun := Mutator.run_collectWith (ctx.remark marks) trigger
    rw [hok] at hrun
    refine ⟨record, _, hrun, hresolves, ?_, rfl, rfl, ?_, ?_, rfl, rfl, rfl⟩
    · intro h b' hb'
      obtain ⟨_, a, ha, rfl⟩ := (hsurvivor h b').mp hb'
      obtain ⟨b, hb, hab⟩ := SlotTable.resolve_of_unmark_eq hu.symm h a ha
      exact ⟨b, hb, (SlotTable.payload_of_unmark_eq hab).symm, rfl⟩
    · have hperm := hafter.perm_occupied.length_eq
      rw [hafter.slots.live_eq, ← hperm]
      simp [Heap.afterPhases]
    · have hset : {h | ctx.heap.slots.Reaches ctx.IsRoot h} = {h | (sweep.slots.resolve h).isSome} :=
        Set.ext fun h => (hresolves h).symm
      rw [hset]
      exact hafter.slots.encard_resolve

/-- A marked piece of garbage beside a cycle of an old and a young block. -/
theorem collect_exact_cycle :
    ∃ ctx record ctx', Reachable { arenaBytes := 1000, stackSlots := 4 } ctx ∧
      ctx.heap.Live ⟨2, 1⟩ ∧
      (Mutator.collectWith .explicit).run.run (ctx.remark (· == 2)) = .ok (.ok record, ctx') ∧
      ctx'.heap.Live ⟨0, 1⟩ ∧ ctx'.heap.Live ⟨1, 1⟩ ∧ ¬ ctx'.heap.Live ⟨2, 1⟩ := by
  have hstart : Reachable { arenaBytes := 1000, stackSlots := 4 } _ := .start rfl
  have hr := hstart.after [.act (.allocateObjects (1 : Nat)), .act (.push (Node.ref ⟨0, 1⟩)),
    .act .collect, .act (.allocateObjects (1 : Nat)),
    .act (.setObject (⟨0, 1⟩ : Handle) (0 : Nat) (Node.ref ⟨1, 1⟩)),
    .act (.setObject (⟨1, 1⟩ : Handle) (0 : Nat) (Node.ref ⟨0, 1⟩)), .act (.allocateBytes (5 : Nat))]
  generalize hctx : Context.after _ _ = ctx at hr
  have hroots : ctx.rootHandles = [⟨0, 1⟩] := by
    rw [← hctx]
    cbv
  have hold : ctx.heap.slots.resolve ⟨0, 1⟩ = some ⟨.objects #[.ref ⟨1, 1⟩], 64, .old, false⟩ := by
    rw [← hctx]
    cbv
  have hyoung : ctx.heap.slots.resolve ⟨1, 1⟩ = some ⟨.objects #[.ref ⟨0, 1⟩], 64, .young 0, false⟩ := by
    rw [← hctx]
    cbv
  have hgarbage : ctx.heap.Live ⟨2, 1⟩ := by
    rw [← hctx]
    cbv
  have hclosed : ∀ h, ctx.heap.slots.Reaches ctx.IsRoot h → h = ⟨0, 1⟩ ∨ h = ⟨1, 1⟩ := by
    intro h hreach
    induction hreach with
    | root hroot =>
      rw [← Context.mem_rootHandles, hroots] at hroot
      exact .inl (by simpa using hroot)
    | edge _ hb hg ih =>
      rcases ih with rfl | rfl
      · obtain rfl := Option.some.inj (hold.symm.trans hb)
        exact .inr (by simpa [Payload.references, Node.references, Node.ref] using hg)
      · obtain rfl := Option.some.inj (hyoung.symm.trans hb)
        exact .inl (by simpa [Payload.references, Node.references, Node.ref] using hg)
  have hfirst : ctx.heap.slots.Reaches ctx.IsRoot ⟨0, 1⟩ :=
    .root ((ctx.mem_rootHandles _).mp (by simp [hroots]))
  have hsecond : ctx.heap.slots.Reaches ctx.IsRoot ⟨1, 1⟩ := .edge hfirst hold (by decide)
  have hlive : ∀ h, ctx.heap.slots.Reaches ctx.IsRoot h → ctx.heap.Live h := by
    intro h hreach
    rcases hclosed h hreach with rfl | rfl
    · simp [Heap.Live, Heap.block?, hold]
    · simp [Heap.Live, Heap.block?, hyoung]
  obtain ⟨record, ctx', hrun, hiff, _⟩ := collect_exact hr (· == 2) .explicit hlive
  refine ⟨ctx, record, ctx', hr, hgarbage, hrun, (hiff _).mpr hfirst, (hiff _).mpr hsecond, ?_⟩
  intro h
  have hreach := hclosed _ ((hiff _).mp h)
  simp at hreach

end GenerationalHeap
