import Mathlib.Algebra.BigOperators.Group.Finset.Basic
import GenerationalHeap.Proofs.Representation
import GenerationalHeap.Proofs.Settled

namespace GenerationalHeap

theorem Block.eq_of_unmark_eq {a b : Block} (hu : a.unmark = b.unmark) (hm : a.marked = b.marked) :
    a = b := by
  cases a
  cases b
  simp_all [Block.unmark]

namespace SlotTable

variable {t t' : SlotTable}

/-- A table is what its blocks are without their marks, and where the marks are. -/
theorem eq_of_unmark_eq (he : t'.mapBlocks Block.unmark = t.mapBlocks Block.unmark)
    (hm : ∀ i, t'.markedAt i = t.markedAt i) : t' = t := by
  obtain ⟨slots, free, live⟩ := t
  obtain ⟨slots', free', live'⟩ := t'
  simp only [mapBlocks, SlotTable.mk.injEq] at he
  obtain ⟨hslots, rfl, rfl⟩ := he
  congr 1
  apply Array.ext_getElem?
  intro i
  have hslot := congrArg (·[i]?) hslots
  have hmark := hm i
  simp only [Array.getElem?_map, markedAt, blockAt?] at hslot hmark
  cases hget' : slots'[i]? with
  | none => cases hget : slots[i]? <;> simp_all
  | some x =>
    cases hget : slots[i]? with
    | none => simp_all
    | some y =>
      obtain ⟨version, block⟩ := x
      obtain ⟨version', block'⟩ := y
      cases block with
      | none => cases block' <;> simp_all
      | some a =>
        cases block' with
        | none => simp_all
        | some b =>
          simp only [hget', hget, Option.map_some, Option.some.injEq, Slot.mk.injEq] at hslot
          have hab := Block.eq_of_unmark_eq hslot.2 (by simpa [hget', hget] using hmark)
          rw [hslot.1, hab]

theorem unmark_eq_self (hclear : ∀ i, t.markedAt i = false) : t.mapBlocks Block.unmark = t := by
  apply eq_of_unmark_eq t.unmark_unmark
  intro i
  have hi := hclear i
  rw [markedAt, blockAt?_mapBlocks, hi]
  cases t.blockAt? i <;> simp [Block.unmark]

theorem not_marked_of_clear (hclear : ∀ i, t.markedAt i = false) (h : Handle) : ¬ t.Marked h := by
  rw [marked_iff_markedAt, hclear]
  simp

/-- A marked block is marked under its handle. -/
theorem markedAt_iff_exists (t : SlotTable) (i : Nat) :
    t.markedAt i = true ↔ ∃ v, t.Marked ⟨i, v⟩ := by
  constructor
  · intro hm
    obtain ⟨b, hb, hbm⟩ := (Option.any_eq_true _ _).mp hm
    obtain ⟨v, _, hr⟩ := t.exists_version_of_blockAt? i b hb
    exact ⟨v, b, hr, hbm⟩
  · intro hmarked
    obtain ⟨v, hv⟩ := hmarked
    exact ((t.marked_iff_markedAt ⟨i, v⟩).mp hv).2

/-- How a table without marks is to be marked from some roots: nothing but marks changes, the reachable
blocks are marked and no others, and each of them is counted once. -/
structure MarksReachable (t : SlotTable) (roots : List Handle) (t' : SlotTable) (count : Tally) : Prop where
  unmark : t'.mapBlocks Block.unmark = t
  marked_iff : ∀ h, t'.Marked h ↔ t.Reaches (· ∈ roots) h
  counted : ∃ reached : Finset Handle, (∀ h, h ∈ reached ↔ t.Reaches (· ∈ roots) h) ∧
    count.objects = reached.card ∧ count.bytes = ∑ h ∈ reached, t.sizeAt h.index

/-- Roots in another order, or given more than once, are marked alike. -/
theorem MarksReachable.unique {roots roots' : List Handle} {t₁ t₂ : SlotTable} {count₁ count₂ : Tally}
    (h₁ : MarksReachable t roots t₁ count₁) (h₂ : MarksReachable t roots' t₂ count₂)
    (hroots : ∀ h, t.Reaches (· ∈ roots') h ↔ t.Reaches (· ∈ roots) h) : (t₂, count₂) = (t₁, count₁) := by
  have htable : t₂ = t₁ := by
    apply eq_of_unmark_eq (h₂.unmark.trans h₁.unmark.symm)
    intro i
    rw [Bool.eq_iff_iff, markedAt_iff_exists, markedAt_iff_exists]
    simp only [h₁.marked_iff, h₂.marked_iff, hroots]
  obtain ⟨reached₁, hmem₁, hobjects₁, hbytes₁⟩ := h₁.counted
  obtain ⟨reached₂, hmem₂, hobjects₂, hbytes₂⟩ := h₂.counted
  have hreached : reached₂ = reached₁ := by
    ext h
    rw [hmem₁, hmem₂, hroots]
  have hcount : count₂ = count₁ := by
    cases count₁
    cases count₂
    simp_all
  rw [htable, hcount]

end SlotTable

/-- The traversal of a table from some roots. -/
abbrev Traversal.ofRoots (t : SlotTable) (roots : List Handle) : Traversal := ⟨t, {}, roots⟩

namespace Traversal

variable {s s' : Traversal} {t : SlotTable} {count : Tally} {work work' roots : List Handle}
  {r : Except Fault (SlotTable × Tally)}

theorem Step.decreases (hs : Step s s') :
    Prod.Lex (· < ·) (· < ·) (s'.table.unmarked, s'.work.length) (s.table.unmarked, s.work.length) := by
  cases hs with
  | pass hwork _ _ =>
    have hlength := hwork.length_eq
    rw [List.length_cons] at hlength
    exact .right _ (by simp [hlength])
  | visit _ hb hm _ => exact .left _ _ (SlotTable.unmarked_update_mark_lt _ _ _ hb hm)

/-- No order goes on for ever: a step marks one block more, or leaves one handle less to be followed. -/
theorem wellFounded_step : WellFounded fun s' s : Traversal => Step s s' := by
  have hlex := (Prod.lex Nat.lt_wfRel Nat.lt_wfRel).wf
  have hmeasure := InvImage.wf (fun s : Traversal => (s.table.unmarked, s.work.length)) hlex
  exact Subrelation.wf (fun {_ _} hs => hs.decreases) hmeasure

/-- A traversal goes on as long as it has come to nothing. -/
theorem step_or_outcome (s : Traversal) : (∃ s', Step s s') ∨ ∃ r, Outcome s r := by
  obtain ⟨t, count, work⟩ := s
  cases work with
  | nil => exact .inr ⟨_, .done rfl⟩
  | cons h rest =>
    cases hb : t.resolve h with
    | none => exact .inr ⟨_, .broken List.mem_cons_self hb⟩
    | some b =>
      cases hm : b.marked with
      | true => exact .inl ⟨_, .pass .rfl hb hm⟩
      | false => exact .inl ⟨_, .visit .rfl hb hm .rfl⟩

/-- The order in which the handles are listed does not matter to a traversal. -/
theorem Yields.of_perm (hy : (⟨t, count, work⟩ : Traversal).Yields r) (hw : work'.Perm work) :
    (⟨t, count, work'⟩ : Traversal).Yields r := by
  obtain ⟨last, hrun, hout⟩ := hy
  rcases hrun.cases_head with rfl | ⟨next, hstep, hrest⟩
  · cases hout with
    | done hempty => exact ⟨_, .refl, .done ((show work = [] from hempty) ▸ hw).eq_nil⟩
    | broken hh hnone => exact ⟨_, .refl, .broken (hw.mem_iff.mpr hh) hnone⟩
  · have hstep' : Step ⟨t, count, work'⟩ next := by
      cases hstep with
      | pass hwork hb hm => exact .pass (hw.trans hwork) hb hm
      | visit hwork hb hm hnext => exact .visit (hw.trans hwork) hb hm hnext
    exact ⟨last, .head hstep' hrest, hout⟩

/-- From a table without marks, whatever the order, exactly what is reachable is marked and counted. -/
theorem Yields.marksReachable (hclear : ∀ i, t.markedAt i = false) {t' : SlotTable} {count : Tally}
    (hy : (ofRoots t roots).Yields (.ok (t', count))) :
    SlotTable.MarksReachable t roots t' count := by
  have hfrom := hy.markedFrom
  have hmarked := hfrom.marked_iff (SlotTable.not_marked_of_clear hclear)
  have hunmark : t'.mapBlocks Block.unmark = t :=
    hfrom.unmark_eq.trans (SlotTable.unmark_eq_self hclear)
  obtain ⟨new, hnodup, hnew, hcount⟩ := hy.counts
  have hinj : Function.Injective fun i => (⟨i, (t.version? i).getD 0⟩ : Handle) :=
    fun i j he => congrArg Handle.index he
  refine ⟨hunmark, hmarked, new.toFinset.image fun i => ⟨i, (t.version? i).getD 0⟩, ?_, ?_, ?_⟩
  · intro h
    have hversion := SlotTable.version?_of_unmark_eq hfrom.unmark_eq h.index
    simp only [Finset.mem_image, List.mem_toFinset, hnew, hclear, and_true]
    rw [← hmarked, SlotTable.marked_iff_markedAt, hversion]
    constructor
    · intro hcounted
      obtain ⟨i, hi, rfl⟩ := hcounted
      obtain ⟨v, hv⟩ := (t'.markedAt_iff_exists i).mp hi
      have hiv := ((t'.marked_iff_markedAt ⟨i, v⟩).mp hv).1
      rw [hversion] at hiv
      simp [hiv, hi]
    · intro hmarked
      exact ⟨h.index, hmarked.2, by simp [hmarked.1]⟩
  · rw [Finset.card_image_of_injective _ hinj, List.toFinset_card_of_nodup hnodup, hcount]
    simp [Tally.add_def, SlotTable.tally]
  · rw [Finset.sum_image fun i _ j _ he => hinj he, List.sum_toFinset _ hnodup, hcount]
    simp [Tally.add_def, SlotTable.tally]

/-- A traversal ends well just if all that can be reached is there. -/
theorem Yields.eq_error_iff (hclear : ∀ i, t.markedAt i = false)
    (hy : (ofRoots t roots).Yields r) :
    (∃ why, r = .error why) ↔ ∃ h, t.Reaches (· ∈ roots) h ∧ t.resolve h = none := by
  constructor
  · intro hfailed
    obtain ⟨why, rfl⟩ := hfailed
    obtain ⟨h, _, hnone, hreach⟩ := hy.dangling
    exact ⟨h, hreach, hnone⟩
  · intro hbroken
    obtain ⟨h, hreach, hnone⟩ := hbroken
    cases r with
    | error why => exact ⟨why, rfl⟩
    | ok p =>
      obtain ⟨b, hb, _⟩ := ((hy.marksReachable hclear).marked_iff h).mpr hreach
      have hunmark := (hy.markedFrom).unmark_eq
      obtain ⟨c, hc, _⟩ := SlotTable.resolve_of_unmark_eq hunmark.symm h b hb
      rw [hnone] at hc
      simp at hc

end Traversal

/-- Marking is exact, in whatever order the handles are followed, those of the roots included. No order
goes on for ever. All of them break off if something reachable stands for no block, each at such a
handle; otherwise all of them mark the reachable blocks and no others, count each of these once and change
nothing but marks. -/
theorem marking_exact_in_any_order {t : SlotTable} (hclear : ∀ i, t.markedAt i = false)
    (roots : List Handle) :
    Acc (fun s' s => Traversal.Step s s') (.ofRoots t roots) ∧
      (∀ s, Relation.ReflTransGen Traversal.Step (.ofRoots t roots) s →
        (∃ s', s.Step s') ∨ ∃ r, s.Outcome r) ∧
      (Traversal.ofRoots t roots).Yields (t.mark {} roots.reverse) ∧
      (∀ r, (Traversal.ofRoots t roots).Yields r →
        ((∃ why, r = .error why) ↔ ∃ h, t.Reaches (· ∈ roots) h ∧ t.resolve h = none) ∧
        (∀ why, r = .error why →
          ∃ h, why = .danglingReference h ∧ t.Reaches (· ∈ roots) h ∧ t.resolve h = none) ∧
        ∀ t' count, r = .ok (t', count) → t.MarksReachable roots t' count) ∧
      ∀ roots' : List Handle, (∀ h, h ∈ roots' ↔ h ∈ roots) → ∀ r r',
        (Traversal.ofRoots t roots).Yields r → (Traversal.ofRoots t roots').Yields r' →
        ∀ p, r' = .ok p ↔ r = .ok p := by
  refine ⟨Traversal.wellFounded_step.apply _, fun s _ => s.step_or_outcome, ?_, ?_, ?_⟩
  · exact (Traversal.yields_mark t {} roots.reverse).of_perm (List.reverse_perm roots).symm
  · intro r hy
    refine ⟨hy.eq_error_iff hclear, ?_, ?_⟩
    · rintro why rfl
      obtain ⟨h, hwhy, hnone, hreach⟩ := hy.dangling
      exact ⟨h, hwhy, hreach, hnone⟩
    · rintro t' count rfl
      exact hy.marksReachable hclear
  · intro roots' hroots r r' hy hy'
    have hreaches : ∀ h, t.Reaches (· ∈ roots') h ↔ t.Reaches (· ∈ roots) h := fun h => by simp only [hroots]
    have herror := hy.eq_error_iff hclear
    have herror' := hy'.eq_error_iff hclear
    simp only [hreaches] at herror'
    cases r with
    | error why =>
      obtain ⟨why', rfl⟩ := herror'.mpr (herror.mp ⟨why, rfl⟩)
      simp
    | ok p =>
      cases r' with
      | error why' =>
        obtain ⟨why, hwhy⟩ := herror.mpr (herror'.mp ⟨why', rfl⟩)
        simp at hwhy
      | ok p' =>
        have hsame := (hy.marksReachable hclear).unique (hy'.marksReachable hclear) hreaches
        simp only [Prod.mk.eta] at hsame
        rw [hsame]
        simp

/-- An old and a young block refer to each other and both to a third. From the two of them all orders
mark the three, and with a stale handle beside them none comes to an end. -/
theorem marking_exact_in_any_order_cycle :
    ∃ ctx t' count, Reachable { arenaBytes := 1000, stackSlots := 4 } ctx ∧ ctx.heap.Clear ∧
      ctx.heap.slots.mark {} [⟨1, 2⟩, ⟨0, 1⟩] = .ok (t', count) ∧ count.objects = 3 ∧
      (∀ r, (Traversal.ofRoots ctx.heap.slots [⟨1, 2⟩, ⟨0, 1⟩, ⟨1, 2⟩]).Yields r →
        r = .ok (t', count)) ∧
      ∀ r, (Traversal.ofRoots ctx.heap.slots [⟨0, 1⟩, ⟨1, 1⟩, ⟨1, 2⟩]).Yields r → ∃ why, r = .error why := by
  have hstart : Reachable { arenaBytes := 1000, stackSlots := 4 } _ := .start rfl
  have hr := hstart.after [.act (.allocateObjects (2 : Nat)), .act (.push (Node.ref ⟨0, 1⟩)),
    .act (.allocateBytes (1 : Nat)), .act .collect, .act (.allocateObjects (2 : Nat)),
    .act (.allocateBytes (5 : Nat)),
    .act (.setObject (⟨0, 1⟩ : Handle) (0 : Nat) (Node.ref ⟨1, 2⟩)),
    .act (.setObject (⟨0, 1⟩ : Handle) (1 : Nat) (Node.string 5 ⟨2, 1⟩)),
    .act (.setObject (⟨1, 2⟩ : Handle) (0 : Nat) (Node.ref ⟨0, 1⟩)),
    .act (.setObject (⟨1, 2⟩ : Handle) (1 : Nat) (Node.string 5 ⟨2, 1⟩))]
  generalize hctx : Context.after _ _ = ctx at hr
  have hclear : ctx.heap.Clear := by
    have hinvariant := hr.invariant (fun _ hc => Context.orderly_ofConfig hc)
      fun _ _ _ hm hw ho => hm.orderly hw ho
    exact hinvariant.2.clear
  have hcheck : (ctx.heap.slots.mark {} [⟨1, 2⟩, ⟨0, 1⟩]).toOption.any (fun p => p.2.objects = 3) = true := by
    rw [← hctx]
    cbv
  have hstale : ctx.heap.slots.resolve ⟨1, 1⟩ = none := by
    rw [← hctx]
    cbv
  obtain ⟨⟨t', count⟩, hmark, hcount⟩ := exists_ok_of_any hcheck
  obtain ⟨_, _, hyields, _, hsame⟩ := marking_exact_in_any_order hclear [⟨0, 1⟩, ⟨1, 2⟩]
  obtain ⟨_, _, _, hresult, _⟩ := marking_exact_in_any_order hclear [⟨0, 1⟩, ⟨1, 1⟩, ⟨1, 2⟩]
  refine ⟨ctx, t', count, hr, hclear, hmark, of_decide_eq_true hcount, ?_, ?_⟩
  · intro r hy
    exact (hsame _ (by simp [or_comm]) _ r hyields hy (t', count)).mpr hmark
  · intro r hy
    exact (hresult r hy).1.mpr ⟨⟨1, 1⟩, .root (by simp), hstale⟩

end GenerationalHeap
