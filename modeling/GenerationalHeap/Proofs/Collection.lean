import Mathlib.Data.List.Perm.Basic
import Mathlib.Algebra.BigOperators.Group.List.Basic
import GenerationalHeap.Proofs.HeapInvariant

namespace GenerationalHeap

/-- A block as a collection leaves it: in the old generation, its mark cleared. -/
def Block.promoted (b : Block) : Block := { b with place := .old, marked := false }

theorem SlotTable.tally_append (t : SlotTable) (l l' : List Nat) :
    t.tally (l ++ l') = t.tally l + t.tally l' := by
  simp [SlotTable.tally, Tally.add_def]

theorem SlotTable.tally_perm (t : SlotTable) {l l' : List Nat} (h : l.Perm l') :
    t.tally l = t.tally l' := by
  rw [SlotTable.tally, SlotTable.tally, h.length_eq, (h.map t.sizeAt).sum_eq]

theorem SlotTable.tally_filter (t : SlotTable) (l : List Nat) (p : Nat → Bool) :
    t.tally l = t.tally (l.filter p) + t.tally (l.filter fun i => !p i) := by
  rw [← SlotTable.tally_append]
  exact t.tally_perm (List.filter_append_perm p l).symm

theorem SlotTable.tally_congr_size {t t' : SlotTable} {l : List Nat}
    (h : ∀ i ∈ l, t'.sizeAt i = t.sizeAt i) : t'.tally l = t.tally l := by
  rw [SlotTable.tally, List.map_congr_left h, SlotTable.tally]

theorem Arena.reset_of_le (a : Arena) (h : a.used ≤ a.mapped) (hm : a.mapped < Word.span) :
    a.reset = .ok { a with used := 0, blocks := #[] } := by
  have hadd : Word.add? 0 a.used = some a.used := by
    rw [Word.add?, Nat.zero_add, if_pos (by omega)]
  rw [Arena.reset, checkRange, hadd]
  simp [h]

namespace Heap

/-- The first phases of a collection on one heap: its marked table and the walk over the arena. -/
structure Promoted (heap : Heap) (roots : List Handle) (marked : SlotTable × Tally)
    (promotion : Sifting) : Prop where
  mark : (heap.slots.mapBlocks Block.unmark).mark {} roots.reverse = .ok marked
  promote : Sifting.Sifted Block.settle { slots := marked.1 } heap.arena.blocks.toList promotion

/-- All phases of a collection: the last walks over the old blocks with the promoted ones behind
them. -/
structure Phases (heap : Heap) (roots : List Handle) (marked : SlotTable × Tally)
    (promotion sweep : Sifting) : Prop extends Promoted heap roots marked promotion where
  sweep : Sifting.Sifted Block.unmark { slots := promotion.slots }
    (heap.old.blocks ++ promotion.kept).toList sweep

/-- Bytes of the old generation after a collection. -/
def bytesAfter (heap : Heap) (promotion sweep : Sifting) : Nat :=
  heap.old.bytes + promotion.keptTally.bytes - sweep.freedTally.bytes

def afterPhases (heap : Heap) (promotion sweep : Sifting) : Heap where
  slots := sweep.slots
  arena := { heap.arena with used := 0, blocks := #[] }
  old := { blocks := sweep.kept, bytes := heap.bytesAfter promotion sweep }

def recordOfPhases (heap : Heap) (trigger : Trigger) (number : Nat) (marked : Tally)
    (promotion sweep : Sifting) : CollectionRecord where
  trigger := trigger
  number := number
  cleared := heap.arena.blocks.size + heap.old.blocks.size
  marked := marked
  promoted := promotion.keptTally
  youngReclaimed := promotion.freedTally
  oldReclaimed := sweep.freedTally
  surviving := ⟨sweep.slots.live, heap.bytesAfter promotion sweep⟩

variable {heap : Heap} {roots : List Handle}

section Marked

variable {marked : SlotTable × Tally}

theorem unmark_eq_of_mark
    (hm : (heap.slots.mapBlocks Block.unmark).mark {} roots.reverse = .ok marked) :
    marked.1.mapBlocks Block.unmark = heap.slots.mapBlocks Block.unmark := by
  rw [(SlotTable.mark_ok _ _ _ _ _ hm).unmark_eq, SlotTable.unmark_unmark]

theorem version?_marked
    (hm : (heap.slots.mapBlocks Block.unmark).mark {} roots.reverse = .ok marked) (i : Nat) :
    marked.1.version? i = heap.slots.version? i :=
  SlotTable.version?_of_unmark_eq (unmark_eq_of_mark hm) i

/-- Marking keeps every block but for its mark. -/
theorem blockAt?_marked
    (hm : (heap.slots.mapBlocks Block.unmark).mark {} roots.reverse = .ok marked) (i : Nat) :
    marked.1.blockAt? i =
      (heap.slots.blockAt? i).map fun b => { b with marked := marked.1.markedAt i } := by
  have hu := SlotTable.blockAt?_of_unmark_eq (unmark_eq_of_mark hm) i
  cases ht : marked.1.blockAt? i with
  | none =>
    rw [ht] at hu
    cases hb : heap.slots.blockAt? i with
    | none => rfl
    | some b => simp [hb] at hu
  | some c =>
    rw [ht] at hu
    obtain ⟨b, hb, hcb⟩ := Option.map_eq_some_iff.mp hu.symm
    rw [hb, SlotTable.markedAt, ht]
    simp only [Block.unmark, Block.mk.injEq, and_true] at hcb
    obtain ⟨hp, hs, hpl⟩ := hcb
    simp [hp, hs, hpl]

theorem markedAt_iff_reaches
    (hm : (heap.slots.mapBlocks Block.unmark).mark {} roots.reverse = .ok marked) (i v : Nat)
    (hv : heap.slots.version? i = some v) :
    marked.1.markedAt i = true ↔ heap.slots.Reaches (· ∈ roots) ⟨i, v⟩ := by
  have hiff := (SlotTable.mark_ok _ _ _ _ _ hm).marked_iff
    (SlotTable.not_marked_unmark heap.slots) ⟨i, v⟩
  rw [SlotTable.marked_iff_markedAt, version?_marked hm, hv] at hiff
  have hu := SlotTable.unmark_unmark heap.slots
  constructor
  · intro h
    have hr := hiff.mp ⟨rfl, h⟩
    simp only [List.mem_reverse] at hr
    exact SlotTable.reaches_of_unmark_eq hu.symm hr
  · intro h
    apply (hiff.mpr _).2
    simp only [List.mem_reverse]
    exact SlotTable.reaches_of_unmark_eq hu h

end Marked

section Phases

variable {marked : SlotTable × Tally} {promotion sweep : Sifting}

theorem young_occupied_marked (hw : heap.WellFormed)
    (hm : (heap.slots.mapBlocks Block.unmark).mark {} roots.reverse = .ok marked) (i : Nat)
    (hi : i ∈ heap.arena.blocks.toList) : ∃ b, marked.1.blockAt? i = some b := by
  obtain ⟨b, hb⟩ := hw.young_occupied i hi
  exact ⟨_, by rw [blockAt?_marked hm, hb]; rfl⟩

theorem sound_marked (hw : heap.WellFormed)
    (hm : (heap.slots.mapBlocks Block.unmark).mark {} roots.reverse = .ok marked) :
    marked.1.Sound := by
  have hu := unmark_eq_of_mark hm
  have hfree : marked.1.free = heap.slots.free := by
    change (marked.1.mapBlocks Block.unmark).free = (heap.slots.mapBlocks Block.unmark).free
    rw [hu]
  have hlive : marked.1.live = heap.slots.live := by
    change (marked.1.mapBlocks Block.unmark).live = (heap.slots.mapBlocks Block.unmark).live
    rw [hu]
  have hsize : marked.1.slots.size = heap.slots.slots.size := by
    rw [← SlotTable.size_mapBlocks marked.1 Block.unmark, hu, SlotTable.size_mapBlocks]
  constructor
  · rw [hfree]
    exact hw.slots.free_nodup
  · intro i
    rw [hfree, hsize, hw.slots.mem_free, blockAt?_marked hm]
    simp
  · rw [hfree, hlive, hsize]
    exact hw.slots.live_add

theorem Promoted.promoted_blockAt? (hw : heap.WellFormed) (hp : Promoted heap roots marked promotion)
    (i : Nat) (b : Block) (hb : heap.slots.blockAt? i = some b) :
    promotion.slots.blockAt? i =
      if marked.1.markedAt i then some { b with place := .old, marked := true }
      else if i ∈ heap.old.blocks.toList then some { b with marked := false } else none := by
  rw [hp.promote.blockAt?, blockAt?_marked hp.mark, hb]
  rcases hw.listed i b hb with hy | ho
  · have hold := hw.young_not_old i hy
    by_cases hlive : marked.1.markedAt i
    · simp [hy, hlive, Block.settle]
    · simp [hy, hlive, hold]
  · have hyoung : i ∉ heap.arena.blocks.toList := fun hy => hw.young_not_old i hy ho
    have hplace : b.place = .old := by
      have := (hw.old_mem i).mp ho
      simpa [SlotTable.placeAt?, hb] using this
    by_cases hlive : marked.1.markedAt i
    · simp [hyoung, hlive, ← hplace]
    · simp [hyoung, hlive, ho]

theorem Promoted.promoted_vacant (hw : heap.WellFormed) (hp : Promoted heap roots marked promotion)
    (i : Nat) (hb : heap.slots.blockAt? i = none) : promotion.slots.blockAt? i = none := by
  rw [hp.promote.blockAt?, blockAt?_marked hp.mark, hb]
  simp [(hw.not_listed_of_vacant i hb).1]

/-- Promotion moves blocks and marks of those that stay. -/
theorem Promoted.promoted_markedAt (hw : heap.WellFormed)
    (hp : Promoted heap roots marked promotion) (i : Nat) :
    promotion.slots.markedAt i = marked.1.markedAt i := by
  cases hb : heap.slots.blockAt? i with
  | none =>
    have hm : marked.1.markedAt i = false := by
      rw [SlotTable.markedAt, blockAt?_marked hp.mark, hb]
      rfl
    rw [SlotTable.markedAt, hp.promoted_vacant hw i hb, hm]
    rfl
  | some b =>
    rw [SlotTable.markedAt, hp.promoted_blockAt? hw i b hb]
    by_cases hlive : marked.1.markedAt i
    · simp [hlive]
    · by_cases ho : i ∈ heap.old.blocks.toList <;> simp [hlive, ho]

theorem Promoted.kept_young (hp : Promoted heap roots marked promotion) :
    promotion.kept.toList = heap.arena.blocks.toList.filter marked.1.markedAt := by
  simpa using hp.promote.kept

/-- The slots that the sweep visits. -/
theorem Promoted.mem_swept (hp : Promoted heap roots marked promotion) (i : Nat) :
    i ∈ (heap.old.blocks ++ promotion.kept).toList ↔
      i ∈ heap.old.blocks.toList ∨ i ∈ heap.arena.blocks.toList ∧ marked.1.markedAt i = true := by
  rw [Array.toList_append, List.mem_append, hp.kept_young, List.mem_filter]

theorem Promoted.swept_nodup (hw : heap.WellFormed) (hp : Promoted heap roots marked promotion) :
    (heap.old.blocks ++ promotion.kept).toList.Nodup := by
  rw [Array.toList_append, List.nodup_append, hp.kept_young]
  refine ⟨hw.old_nodup, hw.young_nodup.filter _, ?_⟩
  intro i hi _ hj he
  subst he
  exact hw.young_not_old i (List.mem_of_mem_filter hj) hi

theorem Promoted.swept_occupied (hw : heap.WellFormed) (hp : Promoted heap roots marked promotion)
    (i : Nat) (hi : i ∈ (heap.old.blocks ++ promotion.kept).toList) :
    ∃ b, promotion.slots.blockAt? i = some b := by
  rcases (hp.mem_swept i).mp hi with ho | ⟨hy, hm⟩
  · obtain ⟨b, hb⟩ := hw.old_occupied i ho
    rw [hp.promoted_blockAt? hw i b hb]
    by_cases hm : marked.1.markedAt i <;> simp [hm, ho]
  · obtain ⟨b, hb⟩ := hw.young_occupied i hy
    rw [hp.promoted_blockAt? hw i b hb]
    simp [hm]

theorem Phases.blockAt? (hw : heap.WellFormed) (hp : Phases heap roots marked promotion sweep)
    (i : Nat) : sweep.slots.blockAt? i =
      (heap.slots.blockAt? i).bind fun b => if marked.1.markedAt i then some b.promoted else none := by
  rw [hp.sweep.blockAt?]
  cases hb : heap.slots.blockAt? i with
  | none => simp [hp.promoted_vacant hw i hb]
  | some b =>
    rw [hp.promoted_blockAt? hw i b hb]
    have hlisted := hw.listed i b hb
    have hmem := hp.mem_swept i
    by_cases hlive : marked.1.markedAt i
    · have hi : i ∈ (heap.old.blocks ++ promotion.kept).toList := hmem.mpr (by tauto)
      rw [if_pos hi]
      simp [hlive, Block.promoted, Block.unmark]
    · by_cases ho : i ∈ heap.old.blocks.toList
      · have hi : i ∈ (heap.old.blocks ++ promotion.kept).toList := hmem.mpr (.inl ho)
        rw [if_pos hi]
        simp [hlive, ho]
      · simp [hlive, ho]

theorem Phases.version? (hw : heap.WellFormed) (hp : Phases heap roots marked promotion sweep)
    (i : Nat) : sweep.slots.version? i =
      if (heap.slots.blockAt? i).isSome ∧ marked.1.markedAt i = false
      then (heap.slots.version? i).map nextVersion else heap.slots.version? i := by
  rw [hp.sweep.version?, hp.promote.version?]
  simp only [hp.promoted_markedAt hw, version?_marked hp.mark]
  have hmem := hp.mem_swept i
  cases hb : heap.slots.blockAt? i with
  | none =>
    obtain ⟨hy, ho⟩ := hw.not_listed_of_vacant i hb
    have hi : i ∉ (heap.old.blocks ++ promotion.kept).toList := by
      rw [hmem]
      tauto
    rw [if_neg fun h => hi h.1]
    simp [hy]
  | some b =>
    by_cases hlive : marked.1.markedAt i
    · simp [hlive]
    · rcases hw.listed i b hb with hy | ho
      · have hi : i ∉ (heap.old.blocks ++ promotion.kept).toList := by
          rw [hmem]
          have := hw.young_not_old i hy
          tauto
        rw [if_neg fun h => hi h.1]
        simp [hy, hlive]
      · have hi : i ∈ (heap.old.blocks ++ promotion.kept).toList := hmem.mpr (.inl ho)
        have hy : i ∉ heap.arena.blocks.toList := fun hy => hw.young_not_old i hy ho
        rw [if_pos ⟨hi, by simpa using hlive⟩]
        simp [hy, hlive]

theorem Phases.kept (hw : heap.WellFormed) (hp : Phases heap roots marked promotion sweep) :
    sweep.kept.toList = heap.old.blocks.toList.filter marked.1.markedAt ++
      heap.arena.blocks.toList.filter marked.1.markedAt := by
  have hs : sweep.kept.toList =
      (heap.old.blocks ++ promotion.kept).toList.filter promotion.slots.markedAt := by
    simpa using hp.sweep.kept
  have hmarks : promotion.slots.markedAt = marked.1.markedAt := funext (hp.promoted_markedAt hw)
  rw [hs, hmarks, Array.toList_append, List.filter_append, hp.kept_young, List.filter_filter]
  simp

theorem sizeAt_marked
    (hm : (heap.slots.mapBlocks Block.unmark).mark {} roots.reverse = .ok marked) (i : Nat) :
    marked.1.sizeAt i = heap.slots.sizeAt i := by
  rw [SlotTable.sizeAt, blockAt?_marked hm, SlotTable.sizeAt]
  cases heap.slots.blockAt? i <;> rfl

theorem Phases.sizeAt (hw : heap.WellFormed) (hp : Phases heap roots marked promotion sweep)
    (i : Nat) (hi : marked.1.markedAt i = true) : sweep.slots.sizeAt i = heap.slots.sizeAt i := by
  rw [SlotTable.sizeAt, hp.blockAt? hw, SlotTable.sizeAt]
  cases heap.slots.blockAt? i <;> simp [hi, Block.promoted]

theorem Promoted.promoted_sizeAt (hw : heap.WellFormed) (hp : Promoted heap roots marked promotion)
    (i : Nat) (hi : i ∈ heap.old.blocks.toList) :
    promotion.slots.sizeAt i = heap.slots.sizeAt i := by
  obtain ⟨b, hb⟩ := hw.old_occupied i hi
  rw [SlotTable.sizeAt, hp.promoted_blockAt? hw i b hb, SlotTable.sizeAt, hb]
  by_cases hm : marked.1.markedAt i <;> simp [hm, hi]

theorem Promoted.promoted_tally (hp : Promoted heap roots marked promotion) :
    promotion.keptTally = heap.slots.tally (heap.arena.blocks.toList.filter marked.1.markedAt) := by
  rw [hp.promote.keptTally, SlotTable.tally_congr_size fun i _ => sizeAt_marked hp.mark i]
  simp [Tally.add_def]

theorem Promoted.dropped_tally (hp : Promoted heap roots marked promotion) :
    promotion.freedTally =
      heap.slots.tally (heap.arena.blocks.toList.filter fun i => !marked.1.markedAt i) := by
  rw [hp.promote.freedTally, SlotTable.tally_congr_size fun i _ => sizeAt_marked hp.mark i]
  simp [Tally.add_def]

theorem Phases.swept_tally (hw : heap.WellFormed) (hp : Phases heap roots marked promotion sweep) :
    sweep.freedTally =
      heap.slots.tally (heap.old.blocks.toList.filter fun i => !marked.1.markedAt i) := by
  have hlist : ((heap.old.blocks ++ promotion.kept).toList.filter fun i => !promotion.slots.markedAt i) =
      heap.old.blocks.toList.filter fun i => !marked.1.markedAt i := by
    simp only [hp.promoted_markedAt hw]
    rw [Array.toList_append, List.filter_append, hp.kept_young, List.filter_filter]
    simp
  rw [hp.sweep.freedTally, hlist, SlotTable.tally_congr_size fun i hi =>
    hp.promoted_sizeAt hw i (List.mem_of_mem_filter hi)]
  simp [Tally.add_def]

theorem Phases.kept_tally (hw : heap.WellFormed) (hp : Phases heap roots marked promotion sweep) :
    sweep.slots.tally sweep.kept.toList = heap.slots.tally sweep.kept.toList := by
  apply SlotTable.tally_congr_size
  intro i hi
  apply hp.sizeAt hw
  rw [hp.kept hw] at hi
  rcases List.mem_append.mp hi with hi | hi <;> exact (List.mem_filter.mp hi).2

/-- The sweep keeps or frees what was old and what has been promoted. -/
theorem Phases.kept_add_swept (hw : heap.WellFormed) (hp : Phases heap roots marked promotion sweep) :
    heap.slots.tally sweep.kept.toList + sweep.freedTally =
      heap.slots.tally heap.old.blocks.toList + promotion.keptTally := by
  have hparts := heap.slots.tally_filter heap.old.blocks.toList marked.1.markedAt
  rw [hp.kept hw, SlotTable.tally_append, hparts, hp.promoted_tally, hp.swept_tally hw]
  simp only [Tally.add_def, Tally.mk.injEq]
  omega

/-- The byte count of the old generation is exact after a collection. -/
theorem Phases.bytesAfter (hw : heap.WellFormed) (hp : Phases heap roots marked promotion sweep) :
    heap.bytesAfter promotion sweep = (sweep.slots.tally sweep.kept.toList).bytes := by
  have hbytes := congrArg Tally.bytes (hp.kept_add_swept hw)
  rw [hp.kept_tally hw, Heap.bytesAfter, hw.old_bytes]
  simp only [Tally.add_def] at hbytes
  omega

theorem Phases.wellFormed (hw : heap.WellFormed) (hp : Phases heap roots marked promotion sweep) :
    (heap.afterPhases promotion sweep).WellFormed := by
  have hplace : ∀ i, sweep.slots.placeAt? i =
      if (heap.slots.blockAt? i).isSome ∧ marked.1.markedAt i = true then some .old else none := by
    intro i
    rw [SlotTable.placeAt?, hp.blockAt? hw]
    cases heap.slots.blockAt? i <;> by_cases hm : marked.1.markedAt i <;> simp [hm, Block.promoted]
  refine ⟨hp.sweep.sound, ?_, rfl, Nat.zero_le _, hw.capacity_le, hw.mapped_lt, List.nodup_nil, ?_,
    ?_, ?_, hp.bytesAfter hw⟩
  · intro i c hc
    rw [afterPhases, hp.blockAt? hw] at hc
    obtain ⟨b, hb, hc⟩ := Option.bind_eq_some_iff.mp hc
    split at hc
    · obtain rfl := Option.some.inj hc
      exact hw.sizes i b hb
    · simp at hc
  · intro i
    change i ∈ [] ↔ ∃ offset, sweep.slots.placeAt? i = some (.young offset)
    rw [hplace i]
    simp only [List.not_mem_nil, false_iff, not_exists]
    intro offset
    split <;> simp
  · change sweep.kept.toList.Nodup
    rw [hp.kept hw, List.nodup_append]
    refine ⟨hw.old_nodup.filter _, hw.young_nodup.filter _, ?_⟩
    intro i hi _ hj he
    subst he
    exact hw.young_not_old i (List.mem_of_mem_filter hj) (List.mem_of_mem_filter hi)
  · intro i
    change i ∈ sweep.kept.toList ↔ sweep.slots.placeAt? i = some .old
    rw [hp.kept hw, hplace i, List.mem_append, List.mem_filter, List.mem_filter, ← or_and_right]
    cases hb : heap.slots.blockAt? i with
    | none =>
      obtain ⟨hy, ho⟩ := hw.not_listed_of_vacant i hb
      simp only [Option.isSome_none, Bool.false_eq_true, false_and, if_false, reduceCtorEq, iff_false]
      tauto
    | some b =>
      have hl := hw.listed i b hb
      by_cases hm : marked.1.markedAt i
      · simp only [hm, and_true, Option.isSome_some, if_true, iff_true]
        tauto
      · simp [hm]

/-- Exactly what the roots reach survives, with its contents, as an old block. -/
theorem Phases.resolve_eq_some_iff (hw : heap.WellFormed)
    (hp : Phases heap roots marked promotion sweep) (h : Handle) (c : Block) :
    sweep.slots.resolve h = some c ↔ heap.slots.Reaches (· ∈ roots) h ∧
      ∃ b, heap.slots.resolve h = some b ∧ c = b.promoted := by
  rw [SlotTable.resolve_eq_some_iff, hp.version? hw, hp.blockAt? hw]
  constructor
  · intro hkept
    obtain ⟨hv, hc⟩ := hkept
    obtain ⟨b, hb, hc⟩ := Option.bind_eq_some_iff.mp hc
    split at hc
    · rename_i hm
      rw [if_neg (by simp [hm])] at hv
      exact ⟨(markedAt_iff_reaches hp.mark _ _ hv).mp hm, b,
        (SlotTable.resolve_eq_some_iff _ h b).mpr ⟨hv, hb⟩, (Option.some.inj hc).symm⟩
    · simp at hc
  · intro hreached
    obtain ⟨hr, b, hb, rfl⟩ := hreached
    obtain ⟨hv, hb⟩ := (SlotTable.resolve_eq_some_iff _ h b).mp hb
    have hm := (markedAt_iff_reaches hp.mark _ _ hv).mpr hr
    exact ⟨by simp [hm, hv], by simp [hm, hb]⟩

theorem Phases.clear (hw : heap.WellFormed) (hp : Phases heap roots marked promotion sweep) :
    (heap.afterPhases promotion sweep).Clear := by
  intro i
  rw [afterPhases, SlotTable.markedAt, hp.blockAt? hw]
  cases heap.slots.blockAt? i <;> by_cases hm : marked.1.markedAt i <;> simp [hm, Block.promoted]

/-- The handle table has as many blocks left as the old generation lists. -/
theorem Phases.live_eq_kept (hw : heap.WellFormed) (hp : Phases heap roots marked promotion sweep) :
    sweep.slots.live = sweep.kept.size := by
  have hblocks := (hp.wellFormed hw).live_eq_blocks
  simpa [afterPhases] using hblocks

/-- All that was young is promoted or reclaimed. -/
theorem Phases.young_accounts (hw : heap.WellFormed)
    (hp : Phases heap roots marked promotion sweep) :
    heap.arena.blocks.size = promotion.keptTally.objects + promotion.freedTally.objects ∧
      heap.arena.used = promotion.keptTally.bytes + promotion.freedTally.bytes := by
  have hparts := heap.slots.tally_filter heap.arena.blocks.toList marked.1.markedAt
  rw [← hp.promoted_tally, ← hp.dropped_tally] at hparts
  constructor
  · exact congrArg Tally.objects hparts
  · rw [hw.used_eq]
    exact congrArg Tally.bytes hparts

/-- The old generation gains what is promoted and loses what is swept. -/
theorem Phases.old_accounts (hw : heap.WellFormed) (hp : Phases heap roots marked promotion sweep) :
    sweep.kept.size + sweep.freedTally.objects =
        heap.old.blocks.size + promotion.keptTally.objects ∧
      heap.bytesAfter promotion sweep + sweep.freedTally.bytes =
        heap.old.bytes + promotion.keptTally.bytes := by
  have hkept := hp.kept_add_swept hw
  constructor
  · exact congrArg Tally.objects hkept
  · rw [hp.bytesAfter hw, hp.kept_tally hw, hw.old_bytes]
    exact congrArg Tally.bytes hkept

/-- What was there before a collection is there afterwards or has been reclaimed. -/
theorem Phases.balance (hw : heap.WellFormed) (hp : Phases heap roots marked promotion sweep) :
    heap.slots.live =
        sweep.slots.live + (promotion.freedTally.objects + sweep.freedTally.objects) ∧
      heap.arena.used + heap.old.bytes =
        heap.bytesAfter promotion sweep + (promotion.freedTally.bytes + sweep.freedTally.bytes) := by
  have hyoung := hp.young_accounts hw
  have hold := hp.old_accounts hw
  have hlive := hw.live_eq_blocks
  have hkept := hp.live_eq_kept hw
  simp only [Array.length_toList] at hlive
  omega

end Phases

/-- A collection of a well-formed heap breaks off only at a reachable handle that stands for no
block; otherwise all its phases run. -/
theorem WellFormed.collect_cases (hw : heap.WellFormed) (roots : List Handle) (trigger : Trigger)
    (number : Nat) :
    (∃ x, heap.collect roots trigger number = .error (.danglingReference x) ∧
      heap.slots.resolve x = none ∧ heap.slots.Reaches (· ∈ roots) x) ∨
    ∃ marked promotion sweep, Phases heap roots marked promotion sweep ∧
      heap.collect roots trigger number = .ok (heap.afterPhases promotion sweep,
        heap.recordOfPhases trigger number marked.2 promotion sweep) := by
  cases hm : (heap.slots.mapBlocks Block.unmark).mark {} roots.reverse with
  | error why =>
    obtain ⟨x, rfl, hn, hr⟩ := SlotTable.mark_error _ _ _ _ hm
    rw [SlotTable.resolve_mapBlocks, Option.map_eq_none_iff] at hn
    refine .inl ⟨x, by rw [collect, hm]; rfl, hn, ?_⟩
    simp only [List.mem_reverse] at hr
    exact SlotTable.reaches_of_unmark_eq (SlotTable.unmark_unmark heap.slots).symm hr
  | ok marked =>
    obtain ⟨promotion, hpromote, hpromoted⟩ := sift_sifted Block.settle marked.1 heap.arena.blocks
      (sound_marked hw hm) hw.young_nodup (young_occupied_marked hw hm)
    have hp : Promoted heap roots marked promotion := ⟨hm, hpromoted⟩
    obtain ⟨sweep, hsweep, hswept⟩ := sift_sifted Block.unmark promotion.slots
      (heap.old.blocks ++ promotion.kept) hpromoted.sound (hp.swept_nodup hw) (hp.swept_occupied hw)
    refine .inr ⟨marked, promotion, sweep, ⟨hp, hswept⟩, ?_⟩
    have hreset := heap.arena.reset_of_le (hw.used_le.trans hw.capacity_le) hw.mapped_lt
    simp only [collect, hm, hpromote, hsweep, hreset, bind, Except.bind, pure, Except.pure]
    rfl

end Heap

end GenerationalHeap
