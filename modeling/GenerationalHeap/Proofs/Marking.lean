import Mathlib.Logic.Relation
import GenerationalHeap.Collection.Mark
import GenerationalHeap.Proofs.SlotTable

namespace GenerationalHeap.SlotTable

/-- Handles that can be reached from a set of them through the values of live allocations. -/
inductive Reaches (t : SlotTable) (start : Handle → Prop) : Handle → Prop
  | root {h : Handle} : start h → Reaches t start h
  | edge {h g : Handle} {b : Block} :
      Reaches t start h → t.resolve h = some b → g ∈ b.payload.references → Reaches t start g

/-- A set that is reached from another reaches no more than the other. -/
theorem Reaches.rebase {t : SlotTable} {start start' : Handle → Prop}
    (hs : ∀ h, start h → t.Reaches start' h) {h : Handle} (hr : t.Reaches start h) :
    t.Reaches start' h := by
  induction hr with
  | root hh => exact hs _ hh
  | edge _ hb hg ih => exact .edge ih hb hg

def Marked (t : SlotTable) (h : Handle) : Prop := ∃ b, t.resolve h = some b ∧ b.marked = true

theorem resolve_mapBlocks (t : SlotTable) (f : Block → Block) (h : Handle) :
    (t.mapBlocks f).resolve h = (t.resolve h).map f := by
  unfold resolve mapBlocks
  cases hs : t.slots[h.index]? with
  | none => simp [hs]
  | some slot =>
    by_cases hv : slot.version = h.version <;> simp [hs, hv]

theorem resolve_update (t : SlotTable) (i : Nat) (f : Block → Block) (h : Handle) :
    (t.update i f).resolve h = if h.index = i then (t.resolve h).map f else t.resolve h := by
  apply Option.ext
  intro b
  by_cases hi : h.index = i
  · simp only [hi, if_true, Option.map_eq_some_iff, resolve_eq_some_iff, version?_update,
      blockAt?_update]
    constructor
    · intro hupdated
      obtain ⟨hv, a, ha, hb⟩ := hupdated
      exact ⟨a, ⟨hv, ha⟩, hb⟩
    · intro hbefore
      obtain ⟨a, ⟨hv, ha⟩, hb⟩ := hbefore
      exact ⟨hv, a, ha, hb⟩
  · simp [hi, resolve_eq_some_iff, blockAt?_update]

/-- Two live handles of one slot are the same. -/
theorem handle_ext_of_resolve (t : SlotTable) (h g : Handle) (a b : Block)
    (hh : t.resolve h = some a) (hg : t.resolve g = some b) (hi : g.index = h.index) : g = h := by
  have hv := ((resolve_eq_some_iff t h a).mp hh).1
  have hw := ((resolve_eq_some_iff t g b).mp hg).1
  rw [hi, hv] at hw
  cases g
  cases h
  simp_all

section Marks

variable {t t' : SlotTable}

/-- Tables that differ in marks only have the same blocks up to the mark. -/
theorem blockAt?_of_unmark_eq (he : t'.mapBlocks Block.unmark = t.mapBlocks Block.unmark) (i : Nat) :
    (t'.blockAt? i).map Block.unmark = (t.blockAt? i).map Block.unmark := by
  rw [← blockAt?_mapBlocks, ← blockAt?_mapBlocks, he]

theorem version?_of_unmark_eq (he : t'.mapBlocks Block.unmark = t.mapBlocks Block.unmark) (i : Nat) :
    t'.version? i = t.version? i := by
  rw [← version?_mapBlocks t' i Block.unmark, he, version?_mapBlocks]

theorem resolve_of_unmark_eq (he : t'.mapBlocks Block.unmark = t.mapBlocks Block.unmark)
    (h : Handle) (b : Block) (hb : t.resolve h = some b) :
    ∃ b', t'.resolve h = some b' ∧ b'.unmark = b.unmark := by
  have hm : (t'.resolve h).map Block.unmark = (t.resolve h).map Block.unmark := by
    rw [← resolve_mapBlocks, ← resolve_mapBlocks, he]
  rw [hb] at hm
  simpa using hm

theorem payload_of_unmark_eq {a b : Block} (h : a.unmark = b.unmark) : a.payload = b.payload := by
  have hp : a.unmark.payload = b.unmark.payload := by rw [h]
  exact hp

theorem reaches_of_unmark_eq (he : t'.mapBlocks Block.unmark = t.mapBlocks Block.unmark)
    {start : Handle → Prop} {h : Handle} (hr : t.Reaches start h) : t'.Reaches start h := by
  induction hr with
  | root hh => exact .root hh
  | edge _ hb hg ih =>
    obtain ⟨b', hb', hu⟩ := resolve_of_unmark_eq he _ _ hb
    exact .edge ih hb' (payload_of_unmark_eq hu ▸ hg)

theorem unmark_unmark (t : SlotTable) :
    (t.mapBlocks Block.unmark).mapBlocks Block.unmark = t.mapBlocks Block.unmark := by
  have hu : Block.unmark ∘ Block.unmark = Block.unmark := rfl
  simp only [mapBlocks, Array.map_map, SlotTable.mk.injEq, and_true]
  congr 1
  funext slot
  simp [hu]

theorem unmark_update_mark (t : SlotTable) (i : Nat) :
    (t.update i Block.mark).mapBlocks Block.unmark = t.mapBlocks Block.unmark := by
  have hslots : (t.slots.modify i fun slot => { slot with block := slot.block.map Block.mark }).map
        (fun slot => { slot with block := slot.block.map Block.unmark }) =
      t.slots.map fun slot => { slot with block := slot.block.map Block.unmark } := by
    apply Array.ext_getElem?
    intro j
    rw [Array.getElem?_map, Array.getElem?_map, Array.getElem?_modify]
    by_cases hj : i = j
    · cases t.slots[j]? with
      | none => simp
      | some slot =>
        have hc : Block.unmark ∘ Block.mark = Block.unmark := rfl
        simp [hj, hc]
    · simp [hj]
  simp only [update, mapBlocks, hslots]

theorem marked_update_mark (t : SlotTable) (h : Handle) (b : Block) (hb : t.resolve h = some b)
    (g : Handle) : (t.update h.index Block.mark).Marked g ↔ t.Marked g ∨ g = h := by
  unfold Marked
  rw [resolve_update]
  by_cases hi : g.index = h.index
  · constructor
    · intro hmarked
      obtain ⟨_, hm, _⟩ := hmarked
      rw [if_pos hi] at hm
      obtain ⟨a, ha, _⟩ := Option.map_eq_some_iff.mp hm
      exact .inr (handle_ext_of_resolve t h g b a hb ha hi)
    · intro hmarked
      rcases hmarked with ⟨a, ha, _⟩ | rfl
      · exact ⟨a.mark, by simp [hi, ha], rfl⟩
      · exact ⟨b.mark, by simp [hb], rfl⟩
  · have hne : g ≠ h := fun he => hi (congrArg Handle.index he)
    simp [hi, hne]

end Marks

/-- What marking from a worklist leaves behind: nothing but marks changes, the worklist and all that
newly marked blocks refer to is marked, and nothing is marked without being reachable. -/
structure MarkedFrom (t : SlotTable) (work : List Handle) (t' : SlotTable) : Prop where
  unmark_eq : t'.mapBlocks Block.unmark = t.mapBlocks Block.unmark
  mono : ∀ h, t.Marked h → t'.Marked h
  starts : ∀ h ∈ work, t'.Marked h
  closed : ∀ h g b, t'.resolve h = some b → b.marked = true → ¬ t.Marked h →
    g ∈ b.payload.references → t'.Marked g
  sound : ∀ h, t'.Marked h → t.Marked h ∨ t.Reaches (· ∈ work) h

end GenerationalHeap.SlotTable

namespace GenerationalHeap

/-- A traversal under way: the handle table, what was counted so far, and the handles still to be
followed. -/
structure Traversal where
  table : SlotTable
  count : Tally
  work : List Handle

namespace Traversal

/-- One step, with any of the handles still to be followed: a block that is marked is passed over, any
other is marked and counted, and its references are to be followed as well. -/
inductive Step : Traversal → Traversal → Prop
  | pass {t : SlotTable} {count : Tally} {work rest : List Handle} {h : Handle} {b : Block} :
      work.Perm (h :: rest) → t.resolve h = some b → b.marked = true →
      Step ⟨t, count, work⟩ ⟨t, count, rest⟩
  | visit {t : SlotTable} {count : Tally} {work work' rest : List Handle} {h : Handle} {b : Block} :
      work.Perm (h :: rest) → t.resolve h = some b → b.marked = false →
      work'.Perm (b.payload.references ++ rest) →
      Step ⟨t, count, work⟩ ⟨t.update h.index Block.mark, count.count b.size, work'⟩

/-- What a traversal has come to: nothing is left to be followed, or a handle to be followed stands for
no block. -/
inductive Outcome (s : Traversal) : Except Fault (SlotTable × Tally) → Prop
  | done : s.work = [] → Outcome s (.ok (s.table, s.count))
  | broken {h : Handle} : h ∈ s.work → s.table.resolve h = none →
      Outcome s (.error (.danglingReference h))

/-- A traversal may come to this result, if it takes its handles in some order. -/
def Yields (s : Traversal) (r : Except Fault (SlotTable × Tally)) : Prop :=
  ∃ s', Relation.ReflTransGen Step s s' ∧ Outcome s' r

theorem Yields.of_step {s s' : Traversal} {r : Except Fault (SlotTable × Tally)} (hs : Step s s')
    (hy : s'.Yields r) : s.Yields r := by
  obtain ⟨last, hrun, hout⟩ := hy
  exact ⟨last, .head hs hrun, hout⟩

/-- How a traversal stands that began with some table and worklist: nothing but marks has changed, all
that is due is marked or still to be followed, and all of it is reachable. -/
structure Underway (t : SlotTable) (work : List Handle) (s : Traversal) : Prop where
  unmark_eq : s.table.mapBlocks Block.unmark = t.mapBlocks Block.unmark
  mono : ∀ h, t.Marked h → s.table.Marked h
  starts : ∀ h ∈ work, s.table.Marked h ∨ h ∈ s.work
  closed : ∀ h g b, s.table.resolve h = some b → b.marked = true → ¬ t.Marked h →
    g ∈ b.payload.references → s.table.Marked g ∨ g ∈ s.work
  sound : ∀ h, s.table.Marked h → t.Marked h ∨ t.Reaches (· ∈ work) h
  pending : ∀ h ∈ s.work, t.Reaches (· ∈ work) h

theorem underway_start (t : SlotTable) (count : Tally) (work : List Handle) :
    Underway t work ⟨t, count, work⟩ := by
  refine ⟨rfl, fun _ h => h, fun _ h => .inr h, ?_, fun _ h => .inl h, fun _ h => .root h⟩
  intro h g b hb hm hnot _
  exact absurd ⟨b, hb, hm⟩ hnot

variable {t₀ : SlotTable} {work₀ : List Handle} {s s' : Traversal}

theorem Underway.pass {t : SlotTable} {count : Tally} {work rest : List Handle} {x : Handle} {b : Block}
    (hu : Underway t₀ work₀ ⟨t, count, work⟩) (hwork : work.Perm (x :: rest))
    (hb : t.resolve x = some b) (hm : b.marked = true) : Underway t₀ work₀ ⟨t, count, rest⟩ := by
  have hleft : ∀ h, t.Marked h ∨ h ∈ work → t.Marked h ∨ h ∈ rest := by
    intro h hh
    rcases hh with hh | hh
    · exact .inl hh
    · rcases List.mem_cons.mp (hwork.mem_iff.mp hh) with rfl | hh
      · exact .inl ⟨b, hb, hm⟩
      · exact .inr hh
  refine ⟨hu.unmark_eq, hu.mono, fun h hh => hleft h (hu.starts h hh), ?_, hu.sound, ?_⟩
  · intro h g c hc hcm hnot hg
    exact hleft g (hu.closed h g c hc hcm hnot hg)
  · intro h hh
    exact hu.pending h (hwork.mem_iff.mpr (List.mem_cons_of_mem _ hh))

theorem Underway.visit {t : SlotTable} {count count' : Tally} {work work' rest : List Handle}
    {x : Handle} {b : Block} (hu : Underway t₀ work₀ ⟨t, count, work⟩) (hwork : work.Perm (x :: rest))
    (hb : t.resolve x = some b) (hwork' : work'.Perm (b.payload.references ++ rest)) :
    Underway t₀ work₀ ⟨t.update x.index Block.mark, count', work'⟩ := by
  have hmarked := SlotTable.marked_update_mark t x b hb
  have hunmark := SlotTable.unmark_update_mark t x.index
  have hreach : t₀.Reaches (· ∈ work₀) x := hu.pending x (hwork.mem_iff.mpr List.mem_cons_self)
  have hleft : ∀ h, t.Marked h ∨ h ∈ work →
      (t.update x.index Block.mark).Marked h ∨ h ∈ work' := by
    intro h hh
    rcases hh with hh | hh
    · exact .inl ((hmarked h).mpr (.inl hh))
    · rcases List.mem_cons.mp (hwork.mem_iff.mp hh) with rfl | hh
      · exact .inl ((hmarked h).mpr (.inr rfl))
      · exact .inr (hwork'.mem_iff.mpr (List.mem_append_right _ hh))
  refine ⟨hunmark.trans hu.unmark_eq, fun h hh => (hmarked h).mpr (.inl (hu.mono h hh)),
    fun h hh => hleft h (hu.starts h hh), ?_, ?_, ?_⟩
  · intro h g c hc hcm hnot hg
    obtain ⟨a, ha, hca⟩ := SlotTable.resolve_of_unmark_eq hunmark.symm h c hc
    rw [← SlotTable.payload_of_unmark_eq hca] at hg
    rcases (hmarked h).mp ⟨c, hc, hcm⟩ with ⟨a', ha', ham⟩ | rfl
    · obtain rfl := Option.some.inj (ha'.symm.trans ha)
      exact hleft g (hu.closed h g a' ha ham hnot hg)
    · -- the references of the block marked in this step are among those to be followed
      obtain rfl := Option.some.inj (hb.symm.trans ha)
      exact .inr (hwork'.mem_iff.mpr (List.mem_append_left _ hg))
  · intro h hh
    rcases (hmarked h).mp hh with hh | rfl
    · exact hu.sound h hh
    · exact .inr hreach
  · intro h hh
    rcases List.mem_append.mp (hwork'.mem_iff.mp hh) with hh | hh
    · obtain ⟨c, hc, hbc⟩ := SlotTable.resolve_of_unmark_eq hu.unmark_eq.symm x b hb
      exact .edge hreach hc (SlotTable.payload_of_unmark_eq hbc ▸ hh)
    · exact hu.pending h (hwork.mem_iff.mpr (List.mem_cons_of_mem _ hh))

theorem Step.underway (hs : Step s s') (hu : Underway t₀ work₀ s) : Underway t₀ work₀ s' := by
  cases hs with
  | pass hwork hb hm => exact hu.pass hwork hb hm
  | visit hwork hb _ hwork' => exact hu.visit hwork hb hwork'

theorem underway_of_run (hrun : Relation.ReflTransGen Step s s') (hu : Underway t₀ work₀ s) :
    Underway t₀ work₀ s' := by
  induction hrun with
  | refl => exact hu
  | tail _ hstep ih => exact hstep.underway ih

/-- A traversal that has nothing left to follow has marked all it was due to. -/
theorem Yields.markedFrom {t t' : SlotTable} {count count' : Tally} {work : List Handle}
    (hy : (⟨t, count, work⟩ : Traversal).Yields (.ok (t', count'))) : SlotTable.MarkedFrom t work t' := by
  obtain ⟨s, hrun, hout⟩ := hy
  obtain ⟨hunmark, hmono, hstarts, hclosed, hsound, _⟩ := underway_of_run hrun (underway_start t count work)
  cases hout with
  | done hempty =>
    simp only [hempty, List.not_mem_nil, or_false] at hstarts hclosed
    exact ⟨hunmark, hmono, hstarts, hclosed, hsound⟩

/-- A traversal breaks off only at a reachable handle that stands for no block. -/
theorem Yields.dangling {t : SlotTable} {count : Tally} {work : List Handle} {why : Fault}
    (hy : (⟨t, count, work⟩ : Traversal).Yields (.error why)) :
    ∃ x, why = .danglingReference x ∧ t.resolve x = none ∧ t.Reaches (· ∈ work) x := by
  obtain ⟨s, hrun, hout⟩ := hy
  have hu := underway_of_run hrun (underway_start t count work)
  cases hout with
  | @broken x hmem hnone =>
    refine ⟨x, rfl, ?_, hu.pending x hmem⟩
    rw [Option.eq_none_iff_forall_ne_some]
    intro b hb
    obtain ⟨c, hc, _⟩ := SlotTable.resolve_of_unmark_eq hu.unmark_eq x b hb
    rw [hnone] at hc
    simp at hc

/-- Marking is the traversal that takes the handle put down last. -/
theorem yields_mark (t : SlotTable) (count : Tally) (work : List Handle) :
    (⟨t, count, work⟩ : Traversal).Yields (t.mark count work) := by
  fun_induction SlotTable.mark t count work with
  | case1 t count => exact ⟨_, .refl, .done rfl⟩
  | case2 t count x work hnone => exact ⟨_, .refl, .broken List.mem_cons_self hnone⟩
  | case3 t count x work b hb hm ih => exact ih.of_step (.pass .rfl hb hm)
  | case4 t count x work b hb hm _ ih =>
    have hnext := (List.reverse_perm b.payload.references).append_right work
    exact ih.of_step (.visit .rfl hb (by simpa using hm) hnext)

end Traversal

end GenerationalHeap

namespace GenerationalHeap.SlotTable

theorem mark_ok (t : SlotTable) (count : Tally) (work : List Handle) (t' : SlotTable)
    (count' : Tally) (h : t.mark count work = .ok (t', count')) : MarkedFrom t work t' := by
  have hy := Traversal.yields_mark t count work
  rw [h] at hy
  exact hy.markedFrom

/-- Marking breaks off only at a reachable handle that stands for no block. -/
theorem mark_error (t : SlotTable) (count : Tally) (work : List Handle) (why : Fault)
    (h : t.mark count work = .error why) :
    ∃ x, why = .danglingReference x ∧ t.resolve x = none ∧ t.Reaches (· ∈ work) x := by
  have hy := Traversal.yields_mark t count work
  rw [h] at hy
  exact hy.dangling

/-- From an unmarked table, exactly the reachable handles are marked. -/
theorem MarkedFrom.marked_iff {t t' : SlotTable} {work : List Handle} (hm : MarkedFrom t work t')
    (hclear : ∀ h, ¬ t.Marked h) (h : Handle) : t'.Marked h ↔ t.Reaches (· ∈ work) h := by
  constructor
  · intro hh
    exact (hm.sound h hh).resolve_left (hclear h)
  · intro hr
    induction hr with
    | root hh => exact hm.starts _ hh
    | edge _ hb hg ih =>
      obtain ⟨c, hc, hmark⟩ := ih
      obtain ⟨c', hc', hu⟩ := resolve_of_unmark_eq hm.unmark_eq _ _ hb
      rw [hc] at hc'
      obtain rfl := Option.some.inj hc'
      exact hm.closed _ _ c hc hmark (hclear _) (payload_of_unmark_eq hu ▸ hg)

theorem not_marked_unmark (t : SlotTable) (h : Handle) : ¬ (t.mapBlocks Block.unmark).Marked h := by
  intro hmarked
  obtain ⟨b, hb, hm⟩ := hmarked
  rw [resolve_mapBlocks] at hb
  obtain ⟨a, _, rfl⟩ := Option.map_eq_some_iff.mp hb
  simp [Block.unmark] at hm

end GenerationalHeap.SlotTable
