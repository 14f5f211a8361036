import Mathlib.Data.List.Perm.Basic
import Mathlib.Data.Set.Card
import GenerationalHeap.Heap.Slots

namespace GenerationalHeap.SlotTable

/-- Version of a slot, occupied or not. -/
def version? (t : SlotTable) (i : Nat) : Option Nat := t.slots[i]?.map (·.version)

/-- Version under which a slot was used last or will be used next; a slot yet to come has the first one. -/
def versionOf (t : SlotTable) (i : Nat) : Nat := (t.version? i).getD firstVersion

theorem resolve_eq_some_iff (t : SlotTable) (h : Handle) (b : Block) :
    t.resolve h = some b ↔ t.version? h.index = some h.version ∧ t.blockAt? h.index = some b := by
  unfold resolve version? blockAt?
  cases hs : t.slots[h.index]? with
  | none => simp
  | some slot =>
    by_cases hv : slot.version = h.version
    · simp [hv]
    · simp [hv]

theorem version?_isSome_iff (t : SlotTable) (i : Nat) :
    (t.version? i).isSome ↔ i < t.slots.size := by
  simp [version?]

theorem lt_size_of_blockAt? (t : SlotTable) (i : Nat) (b : Block) (h : t.blockAt? i = some b) :
    i < t.slots.size := by
  unfold blockAt? at h
  obtain ⟨slot, hs, _⟩ := Option.bind_eq_some_iff.mp h
  exact (Array.getElem?_eq_some_iff.mp hs).1

/-- An occupied slot has a handle of its current version. -/
theorem exists_version_of_blockAt? (t : SlotTable) (i : Nat) (b : Block)
    (h : t.blockAt? i = some b) : ∃ v, t.version? i = some v ∧ t.resolve ⟨i, v⟩ = some b := by
  have hlt := (version?_isSome_iff t i).mpr (lt_size_of_blockAt? t i b h)
  obtain ⟨v, hv⟩ := Option.isSome_iff_exists.mp hlt
  exact ⟨v, hv, (resolve_eq_some_iff t _ b).mpr ⟨hv, h⟩⟩

section Update

@[simp] theorem size_update (t : SlotTable) (i : Nat) (f : Block → Block) :
    (t.update i f).slots.size = t.slots.size := by
  simp [update]

@[simp] theorem version?_update (t : SlotTable) (i j : Nat) (f : Block → Block) :
    (t.update i f).version? j = t.version? j := by
  unfold version? update
  rw [Array.getElem?_modify]
  by_cases h : i = j
  · simp [h, Function.comp_def]
  · simp [h]

theorem blockAt?_update (t : SlotTable) (i j : Nat) (f : Block → Block) :
    (t.update i f).blockAt? j = if j = i then (t.blockAt? j).map f else t.blockAt? j := by
  unfold blockAt? update
  rw [Array.getElem?_modify]
  by_cases h : j = i
  · subst h
    cases t.slots[j]? <;> simp
  · simp [h, Ne.symm h]

@[simp] theorem version?_mapBlocks (t : SlotTable) (i : Nat) (f : Block → Block) :
    (t.mapBlocks f).version? i = t.version? i := by
  simp [version?, mapBlocks, Function.comp_def]

@[simp] theorem blockAt?_mapBlocks (t : SlotTable) (i : Nat) (f : Block → Block) :
    (t.mapBlocks f).blockAt? i = (t.blockAt? i).map f := by
  unfold blockAt? mapBlocks
  cases h : t.slots[i]? <;> simp [h]

@[simp] theorem size_mapBlocks (t : SlotTable) (f : Block → Block) :
    (t.mapBlocks f).slots.size = t.slots.size := by
  simp [mapBlocks]

end Update

/-- What a table looks like after the release of an occupied slot. -/
structure Released (t : SlotTable) (i : Nat) (t' : SlotTable) : Prop where
  size : t'.slots.size = t.slots.size
  version? : ∀ j, t'.version? j = if j = i then (t.version? j).map nextVersion else t.version? j
  blockAt? : ∀ j, t'.blockAt? j = if j = i then none else t.blockAt? j
  free : t'.free = i :: t.free
  live : t'.live = t.live - 1

theorem release?_of_occupied (t : SlotTable) (i : Nat) (b : Block) (h : t.blockAt? i = some b) :
    ∃ t', t.release? i = some t' ∧ Released t i t' := by
  refine ⟨{
      slots := t.slots.modify i fun slot => ⟨nextVersion slot.version, none⟩
      free := i :: t.free
      live := t.live - 1 }, by simp only [release?, h], ?_⟩
  constructor
  · simp
  · intro j
    unfold SlotTable.version?
    rw [Array.getElem?_modify]
    by_cases hj : j = i
    · simp [hj, Function.comp_def]
    · simp [hj, Ne.symm hj]
  · intro j
    unfold SlotTable.blockAt?
    rw [Array.getElem?_modify]
    by_cases hj : j = i
    · subst hj
      cases t.slots[j]? <;> simp
    · simp [hj, Ne.symm hj]
  · rfl
  · rfl

/-- The free list holds every vacant slot once, and all other slots are counted as live. -/
structure Sound (t : SlotTable) : Prop where
  free_nodup : t.free.Nodup
  mem_free : ∀ i, i ∈ t.free ↔ i < t.slots.size ∧ t.blockAt? i = none
  live_add : t.live + t.free.length = t.slots.size

/-- What a table looks like after a block was put into a slot. -/
structure Inserted (t : SlotTable) (b : Block) (h : Handle) (t' : SlotTable) : Prop where
  vacant : t.blockAt? h.index = none
  version_eq : t.versionOf h.index = h.version
  version? : ∀ j, t'.version? j = if j = h.index then some h.version else t.version? j
  blockAt? : ∀ j, t'.blockAt? j = if j = h.index then some b else t.blockAt? j

theorem sound_empty : Sound {} := by
  constructor
  · exact List.nodup_nil
  · intro i
    simp
  · rfl

theorem Sound.occupied_not_free {t : SlotTable} (ht : t.Sound) (i : Nat) (b : Block)
    (h : t.blockAt? i = some b) : i ∉ t.free := by
  intro hi
  have := ((ht.mem_free i).mp hi).2
  simp [h] at this

theorem Sound.update {t : SlotTable} (ht : t.Sound) (i : Nat) (f : Block → Block) :
    (t.update i f).Sound := by
  constructor
  · exact ht.free_nodup
  · intro j
    have hfree : (t.update i f).free = t.free := rfl
    rw [hfree, ht.mem_free, size_update, blockAt?_update]
    by_cases hj : j = i <;> simp [hj]
  · simpa [SlotTable.update] using ht.live_add

/-- While some slot is occupied, some slot is counted as live. -/
theorem Sound.live_pos {t : SlotTable} (ht : t.Sound) (i : Nat) (b : Block)
    (h : t.blockAt? i = some b) : 0 < t.live := by
  have hlt := lt_size_of_blockAt? t i b h
  have hsub : (i :: t.free) ⊆ List.range t.slots.size := by
    intro j hj
    rcases List.mem_cons.mp hj with rfl | hj
    · exact List.mem_range.mpr hlt
    · exact List.mem_range.mpr ((ht.mem_free j).mp hj).1
  have hnd : (i :: t.free).Nodup := List.nodup_cons.mpr ⟨ht.occupied_not_free i b h, ht.free_nodup⟩
  have hlen := (List.subperm_of_subset hnd hsub).length_le
  have hsum := ht.live_add
  simp only [List.length_cons, List.length_range] at hlen
  omega

/-- Slots with a block, in order. -/
def occupied (t : SlotTable) : List Nat :=
  (List.range t.slots.size).filter fun i => (t.blockAt? i).isSome

theorem nodup_occupied (t : SlotTable) : t.occupied.Nodup := List.nodup_range.filter _

theorem mem_occupied (t : SlotTable) (i : Nat) : i ∈ t.occupied ↔ ∃ b, t.blockAt? i = some b := by
  rw [occupied, List.mem_filter, List.mem_range, Option.isSome_iff_exists]
  constructor
  · exact And.right
  · intro hoccupied
    obtain ⟨b, hb⟩ := hoccupied
    exact ⟨lt_size_of_blockAt? t i b hb, b, hb⟩

/-- The live count is the number of occupied slots. -/
theorem Sound.live_eq {t : SlotTable} (ht : t.Sound) : t.live = t.occupied.length := by
  have hvacant : ((List.range t.slots.size).filter fun i => !(t.blockAt? i).isSome).Perm t.free := by
    rw [List.perm_ext_iff_of_nodup (List.nodup_range.filter _) ht.free_nodup]
    intro i
    simp [ht.mem_free]
  have hall := (List.filter_append_perm (fun i => (t.blockAt? i).isSome)
    (List.range t.slots.size)).length_eq
  rw [List.length_append, List.length_range, hvacant.length_eq] at hall
  have hsum := ht.live_add
  rw [occupied]
  omega

/-- There are as many live handles as the live count says. -/
theorem Sound.encard_resolve {t : SlotTable} (ht : t.Sound) :
    {h | (t.resolve h).isSome}.encard = t.live := by
  have hset : {h | (t.resolve h).isSome} =
      (fun i => (⟨i, (t.version? i).getD 0⟩ : Handle)) '' (t.occupied.toFinset : Set Nat) := by
    ext h
    simp only [Set.mem_ofPred_eq, Set.mem_image, List.coe_toFinset, mem_occupied]
    constructor
    · intro hs
      obtain ⟨b, hb⟩ := Option.isSome_iff_exists.mp hs
      obtain ⟨hv, hb⟩ := (resolve_eq_some_iff t h b).mp hb
      exact ⟨h.index, ⟨b, hb⟩, by simp [hv]⟩
    · intro hmem
      obtain ⟨i, ⟨b, hb⟩, rfl⟩ := hmem
      obtain ⟨v, hv, hr⟩ := exists_version_of_blockAt? t i b hb
      simp [hv, hr]
  have hinj : Function.Injective fun i => (⟨i, (t.version? i).getD 0⟩ : Handle) := by
    intro i j he
    exact congrArg Handle.index he
  rw [hset, hinj.encard_image, Set.encard_coe_eq_coe_finsetCard,
    List.toFinset_card_of_nodup t.nodup_occupied, ht.live_eq]

theorem Sound.released {t t' : SlotTable} (ht : t.Sound) (i : Nat) (b : Block)
    (hb : t.blockAt? i = some b) (hr : Released t i t') : t'.Sound := by
  constructor
  · rw [hr.free]
    exact List.nodup_cons.mpr ⟨ht.occupied_not_free i b hb, ht.free_nodup⟩
  · intro j
    rw [hr.free, hr.size, hr.blockAt?, List.mem_cons, ht.mem_free]
    by_cases hj : j = i
    · simp [hj, lt_size_of_blockAt? t i b hb]
    · simp [hj]
  · have hpos := ht.live_pos i b hb
    have hsum := ht.live_add
    rw [hr.free, hr.size, hr.live, List.length_cons]
    omega

theorem Sound.insert_new {t : SlotTable} (ht : t.Sound) (b : Block) (hf : t.free = []) :
    (t.insert b).2.Sound ∧ Inserted t b (t.insert b).1 (t.insert b).2 := by
  have hver : ∀ j, (t.insert b).2.version? j =
      if j = t.slots.size then some firstVersion else t.version? j := by
    intro j
    simp only [SlotTable.insert, hf, SlotTable.version?, Array.getElem?_push]
    by_cases hj : j = t.slots.size <;> simp [hj]
  have hblk : ∀ j, (t.insert b).2.blockAt? j =
      if j = t.slots.size then some b else t.blockAt? j := by
    intro j
    simp only [SlotTable.insert, hf, SlotTable.blockAt?, Array.getElem?_push]
    by_cases hj : j = t.slots.size <;> simp [hj]
  have hfree : (t.insert b).2.free = [] := by simp [SlotTable.insert, hf]
  have hsize : (t.insert b).2.slots.size = t.slots.size + 1 := by simp [SlotTable.insert, hf]
  have hlive : (t.insert b).2.live = t.live + 1 := by simp [SlotTable.insert, hf]
  have hh : (t.insert b).1 = ⟨t.slots.size, firstVersion⟩ := by simp [SlotTable.insert, hf]
  refine ⟨⟨?_, ?_, ?_⟩, ⟨?_, ?_, ?_, ?_⟩⟩
  · rw [hfree]
    exact List.nodup_nil
  · intro j
    rw [hfree, hsize, hblk]
    by_cases hj : j = t.slots.size
    · simp [hj]
    · have hvac := (ht.mem_free j).not.mp (by simp [hf])
      simp only [List.not_mem_nil, hj, if_false, false_iff, not_and]
      intro hlt hnone
      exact hvac ⟨by omega, hnone⟩
  · have hsum := ht.live_add
    rw [hf, List.length_nil] at hsum
    rw [hfree, hsize, hlive, List.length_nil]
    omega
  · simp [hh, SlotTable.blockAt?]
  · simp [hh, SlotTable.versionOf, SlotTable.version?]
  · rw [hh]
    exact hver
  · rw [hh]
    exact hblk

theorem Sound.insert_reused {t : SlotTable} (ht : t.Sound) (b : Block) {i : Nat} {rest : List Nat}
    (hf : t.free = i :: rest) :
    (t.insert b).2.Sound ∧ Inserted t b (t.insert b).1 (t.insert b).2 := by
  have hmem : i ∈ t.free := by simp [hf]
  obtain ⟨hlt, hvac⟩ := (ht.mem_free i).mp hmem
  obtain ⟨v, hv⟩ := Option.isSome_iff_exists.mp ((version?_isSome_iff t i).mpr hlt)
  have hval : (t.slots[i]?.map (·.version)).getD firstVersion = v := by
    rw [← SlotTable.version?, hv]
    rfl
  have hnd : i ∉ rest ∧ rest.Nodup := List.nodup_cons.mp (hf ▸ ht.free_nodup)
  have hver : ∀ j, (t.insert b).2.version? j = if j = i then some v else t.version? j := by
    intro j
    simp only [SlotTable.insert, hf, SlotTable.version?, Array.getElem?_setIfInBounds]
    by_cases hj : i = j
    · subst hj
      simp [hlt, ← hval]
    · simp [hj, Ne.symm hj]
  have hblk : ∀ j, (t.insert b).2.blockAt? j = if j = i then some b else t.blockAt? j := by
    intro j
    simp only [SlotTable.insert, hf, SlotTable.blockAt?, Array.getElem?_setIfInBounds]
    by_cases hj : i = j
    · subst hj
      simp [hlt]
    · simp [hj, Ne.symm hj]
  have hfree : (t.insert b).2.free = rest := by simp [SlotTable.insert, hf]
  have hsize : (t.insert b).2.slots.size = t.slots.size := by simp [SlotTable.insert, hf]
  have hlive : (t.insert b).2.live = t.live + 1 := by simp [SlotTable.insert, hf]
  have hh : (t.insert b).1 = ⟨i, v⟩ := by simp only [SlotTable.insert, hf, hval]
  refine ⟨⟨?_, ?_, ?_⟩, ⟨?_, ?_, ?_, ?_⟩⟩
  · rw [hfree]
    exact hnd.2
  · intro j
    have hj' := ht.mem_free j
    rw [hf, List.mem_cons] at hj'
    rw [hfree, hsize, hblk]
    by_cases hj : j = i
    · subst hj
      simp [hnd.1]
    · simpa [hj] using hj'
  · have hsum := ht.live_add
    rw [hf, List.length_cons] at hsum
    rw [hfree, hsize, hlive]
    omega
  · rw [hh]
    exact hvac
  · simp [hh, SlotTable.versionOf, hv]
  · rw [hh]
    exact hver
  · rw [hh]
    exact hblk

/-- A block goes into a vacant slot, or into a new slot behind the last one. -/
theorem Sound.insert {t : SlotTable} (ht : t.Sound) (b : Block) :
    (t.insert b).2.Sound ∧ Inserted t b (t.insert b).1 (t.insert b).2 := by
  cases hf : t.free with
  | nil => exact ht.insert_new b hf
  | cons i rest => exact ht.insert_reused b hf

/-- The slot of a new block was vacant, so its handle stood for nothing. -/
theorem Inserted.resolve_eq_none {t t' : SlotTable} {b : Block} {h : Handle} (hi : Inserted t b h t') :
    t.resolve h = none := by
  rw [Option.eq_none_iff_forall_ne_some]
  intro a ha
  have hblock := ((resolve_eq_some_iff t h a).mp ha).2
  rw [hi.vacant] at hblock
  simp at hblock

/-- A new block is found under its handle, every other block as before. -/
theorem Inserted.resolve {t t' : SlotTable} {b : Block} {h : Handle} (hi : Inserted t b h t')
    (g : Handle) : t'.resolve g = if g = h then some b else t.resolve g := by
  apply Option.ext
  intro a
  rw [resolve_eq_some_iff, hi.version?, hi.blockAt?]
  by_cases hg : g = h
  · simp [hg]
  · rw [if_neg hg, resolve_eq_some_iff]
    by_cases hindex : g.index = h.index
    · -- The slot was vacant, so neither table has anything under another handle of it.
      have hv : h.version ≠ g.version := by
        intro hv
        apply hg
        cases g
        cases h
        simp_all
      simp [hindex, hi.vacant, hv]
    · simp [hindex]

theorem live_insert (t : SlotTable) (b : Block) : (t.insert b).2.live = t.live + 1 := by
  unfold insert
  cases t.free <;> rfl

end GenerationalHeap.SlotTable
