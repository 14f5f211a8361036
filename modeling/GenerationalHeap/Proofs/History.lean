import GenerationalHeap.Proofs.Reachable

namespace GenerationalHeap

/-- What may become of a version in `k` releases: it goes up by no more, or it has started over. -/
def Bumped (k v v' : Nat) : Prop := (v ≤ v' ∧ v' ≤ v + k) ∨ (2 ^ 32 ≤ v + k ∧ v' ≤ k)

theorem bumped_self (k v : Nat) : Bumped k v v := .inl ⟨Nat.le_refl v, Nat.le_add_right v k⟩

theorem bumped_nextVersion (v : Nat) : Bumped 1 v (nextVersion v) := by
  unfold Bumped nextVersion firstVersion
  split <;> omega

theorem nextVersion_ne (v : Nat) : nextVersion v ≠ v := by
  unfold nextVersion firstVersion
  split <;> omega

theorem Bumped.trans {j k u v w : Nat} (h₁ : Bumped j u v) (h₂ : Bumped k v w) : Bumped (j + k) u w := by
  unfold Bumped at *
  omega

/-- A version that comes out no lower has not started over on the way, unless the releases were very
many. -/
theorem Bumped.between {j k u v w : Nat} (h₁ : Bumped j u v) (h₂ : Bumped k v w)
    (hjk : j + k < 2 ^ 31) (huw : u ≤ w) : u ≤ v ∧ v ≤ w := by
  unfold Bumped at h₁ h₂
  omega

namespace SlotTable

variable {t t' t'' : SlotTable} {j k : Nat}

/-- The slots have their versions after at most `k` releases each. -/
def Aged (k : Nat) (t t' : SlotTable) : Prop := ∀ i, Bumped k (t.versionOf i) (t'.versionOf i)

theorem aged_of_eq (h : ∀ i, t'.versionOf i = t.versionOf i) : Aged k t t' := by
  intro i
  rw [h]
  exact bumped_self k _

theorem Aged.mono (h : Aged j t t') (hjk : j ≤ k) : Aged k t t' := by
  intro i
  have hi := h i
  unfold Bumped at *
  omega

theorem Aged.trans (h₁ : Aged j t t') (h₂ : Aged k t' t'') : Aged (j + k) t t'' :=
  fun i => (h₁ i).trans (h₂ i)

theorem Inserted.versionOf {b : Block} {h : Handle} (hi : Inserted t b h t') (i : Nat) :
    t'.versionOf i = t.versionOf i := by
  by_cases hih : i = h.index
  · rw [hih, hi.version_eq]
    simp [SlotTable.versionOf, hi.version?]
  · simp [SlotTable.versionOf, hi.version?, hih]

end SlotTable

theorem Heap.Phases.versionOf {heap : Heap} {roots : List Handle} {marked : SlotTable × Tally}
    {promotion sweep : Sifting} (hw : heap.WellFormed) (hp : Phases heap roots marked promotion sweep)
    (i : Nat) : sweep.slots.versionOf i =
      if (heap.slots.blockAt? i).isSome ∧ marked.1.markedAt i = false
      then nextVersion (heap.slots.versionOf i) else heap.slots.versionOf i := by
  unfold SlotTable.versionOf
  rw [hp.version? hw]
  by_cases hfreed : (heap.slots.blockAt? i).isSome ∧ marked.1.markedAt i = false
  · obtain ⟨b, hb⟩ := Option.isSome_iff_exists.mp hfreed.1
    obtain ⟨v, hv, _⟩ := heap.slots.exists_version_of_blockAt? i b hb
    simp [hfreed, hv]
  · simp [hfreed]

theorem Heap.versionOf_of_payload? {heap : Heap} {h : Handle} {p : Payload}
    (hp : heap.payload? h = some p) : heap.slots.versionOf h.index = h.version := by
  obtain ⟨b, hb, _⟩ := Heap.payload?_eq_some.mp hp
  have hversion := ((SlotTable.resolve_eq_some_iff _ h b).mp hb).1
  simp [SlotTable.versionOf, hversion]

/-- A collection raises the version of each slot that it frees, so what is under the version of its
handle afterwards has been kept. -/
theorem Context.collect_keeps_version {c c' : Context} (hw : c.heap.WellFormed) {trigger : Trigger}
    {record : CollectionRecord} (hc : c.collect trigger = .ok (record, c')) {h : Handle} {p : Payload}
    (hp : c.heap.payload? h = some p) (hv : c'.heap.slots.versionOf h.index = h.version) :
    c'.heap.payload? h = some p := by
  obtain ⟨marked, promotion, sweep, hphases, hheap⟩ := Context.collect_phases hw hc
  obtain ⟨b, hb, _⟩ := Heap.payload?_eq_some.mp hp
  obtain ⟨hversion, hblock⟩ := (SlotTable.resolve_eq_some_iff _ h b).mp hb
  have hmarked : marked.1.markedAt h.index = true := by
    rw [hheap, Heap.afterPhases, hphases.versionOf hw, Heap.versionOf_of_payload? hp] at hv
    by_contra hno
    rw [if_pos ⟨by simp [hblock], by simpa using hno⟩] at hv
    exact nextVersion_ne h.version hv
  have hreached := (Heap.markedAt_iff_reaches hphases.mark h.index h.version hversion).mp hmarked
  exact (Context.collect_payload? hw trigger record hc h p).mpr ⟨hreached, hp⟩

/-- The handles issued so far are all different. The slot of each has the version of the handle or a
later one, and is not vacant before it has a later one. -/
structure Context.Recorded (c : Context) : Prop where
  nodup : c.issued.Nodup
  version_le : ∀ h ∈ c.issued, h.version ≤ c.heap.slots.versionOf h.index
  occupied : ∀ h ∈ c.issued, c.heap.slots.versionOf h.index = h.version →
    (c.heap.slots.blockAt? h.index).isSome

theorem recorded_ofConfig {config : Config} {ctx : Context} (h : Context.ofConfig config = .ok ctx) :
    ctx.Recorded := by
  obtain ⟨arena, _, rfl⟩ := Context.ofConfig_eq_ok h
  exact ⟨List.nodup_nil, by simp, by simp⟩

/-- No slot's version is lower than before: what a run looks like in which no version wraps around. -/
def Context.Ages (c c' : Context) : Prop :=
  ∀ i, c.heap.slots.versionOf i ≤ c'.heap.slots.versionOf i

/-- Whether no slot that was there has a lower version than before. -/
def Context.ages (c c' : Context) : Bool :=
  (List.range c.heap.slots.slots.size).all fun i =>
    c.heap.slots.versionOf i ≤ c'.heap.slots.versionOf i

section Moves

variable {n : Nat} {a b : Context}

theorem Move.aged (hm : Move n a b) (hw : a.heap.WellFormed) :
    SlotTable.Aged n a.heap.slots b.heap.slots := by
  cases hm with
  | stack | roots | enter | leave | inhibit => exact SlotTable.aged_of_eq fun _ => rfl
  | write => exact SlotTable.aged_of_eq fun i => by simp [SlotTable.versionOf, Heap.setPayload]
  | serve _ kind count h _ hs =>
    obtain ⟨_, _, _, hi⟩ := hs.inserted hw
    exact SlotTable.aged_of_eq hi.versionOf
  | collect _ trigger record _ hc =>
    obtain ⟨marked, promotion, sweep, hp, hheap⟩ := Context.collect_phases hw hc
    intro i
    simp only [hheap, Heap.afterPhases, hp.versionOf hw]
    split
    · exact bumped_nextVersion _
    · exact bumped_self 1 _

/-- An allocation takes a vacant slot, so its handle is not among those issued before. -/
theorem Context.Recorded.served (hr : a.Recorded) {kind : PayloadKind} {count : Nat} {h : Handle}
    (hs : a.Served kind count h b) (hw : a.heap.WellFormed) : b.Recorded := by
  obtain ⟨_, _, _, hi⟩ := hs.inserted hw
  have hissued := hs.issued_eq
  have hnew : h ∉ a.issued := by
    intro hmem
    have hocc := hr.occupied h hmem hi.version_eq
    simp [hi.vacant] at hocc
  constructor
  · rw [hissued]
    exact List.nodup_cons.mpr ⟨hnew, hr.nodup⟩
  · intro g hg
    rw [hi.versionOf]
    rw [hissued, List.mem_cons] at hg
    rcases hg with rfl | hg
    · exact hi.version_eq.ge
    · exact hr.version_le g hg
  · intro g hg hv
    rw [hi.versionOf] at hv
    rw [hi.blockAt?]
    rw [hissued, List.mem_cons] at hg
    by_cases hgh : g.index = h.index
    · simp [hgh]
    · rcases hg with rfl | hg
      · exact absurd rfl hgh
      · simpa [hgh] using hr.occupied g hg hv

/-- A collection that frees a slot raises its version above that of every handle issued for it. -/
theorem Context.Recorded.collected (hr : a.Recorded) (hw : a.heap.WellFormed) (hages : a.Ages b)
    {trigger : Trigger} {record : CollectionRecord} (hc : a.collect trigger = .ok (record, b)) :
    b.Recorded := by
  have hissued := Context.collect_issued hc
  refine ⟨by rw [hissued]; exact hr.nodup, ?_, ?_⟩
  · intro h hh
    rw [hissued] at hh
    exact (hr.version_le h hh).trans (hages h.index)
  · intro h hh hv
    rw [hissued] at hh
    obtain ⟨marked, promotion, sweep, hp, hheap⟩ := Context.collect_phases hw hc
    have hle := hr.version_le h hh
    have hup := hages h.index
    simp only [hheap, Heap.afterPhases, hp.versionOf hw] at hv hup
    by_cases hfreed : (a.heap.slots.blockAt? h.index).isSome ∧ marked.1.markedAt h.index = false
    · rw [if_pos hfreed] at hv hup
      have hne := nextVersion_ne (a.heap.slots.versionOf h.index)
      omega
    · rw [if_neg hfreed] at hv
      have hocc := hr.occupied h hh hv
      obtain ⟨b, hb⟩ := Option.isSome_iff_exists.mp hocc
      have hmarked : marked.1.markedAt h.index = true := by
        simpa [hocc] using hfreed
      rw [hheap, Heap.afterPhases, hp.blockAt? hw]
      simp [hb, hmarked]

/-- What one elementary change does to the record. -/
theorem Move.recorded (hm : Move n a b) (hw : a.heap.WellFormed) (hages : a.Ages b)
    (hr : a.Recorded) : b.Recorded := by
  cases hm with
  | stack | roots | enter | leave | inhibit => exact ⟨hr.nodup, hr.version_le, hr.occupied⟩
  | write _ h p q hp hk hc =>
    refine ⟨hr.nodup, fun g hg => ?_, fun g hg hv => ?_⟩
    · exact (hr.version_le g hg).trans (hages g.index)
    · simp only [Heap.setPayload, SlotTable.versionOf, SlotTable.version?_update] at hv
      have hocc := hr.occupied g hg hv
      simp only [Heap.setPayload, SlotTable.blockAt?_update]
      split
      · simpa using hocc
      · exact hocc
  | serve _ kind count h _ hs => exact hr.served hs hw
  | collect _ trigger record _ hc => exact hr.collected hw hages hc

theorem Move.issued_suffix (hm : Move n a b) : a.issued <:+ b.issued := by
  cases hm with
  | stack | roots | enter | leave | inhibit | write => exact List.suffix_rfl
  | serve _ kind count h _ hs =>
    rw [hs.issued_eq]
    exact List.suffix_cons h _
  | collect _ trigger record _ hc =>
    rw [Context.collect_issued hc]

theorem Moves.aged (hm : Moves n a b) (hw : a.heap.WellFormed) :
    SlotTable.Aged n a.heap.slots b.heap.slots := by
  induction hm with
  | refl => exact SlotTable.aged_of_eq fun _ => rfl
  | head hfirst _ ih => exact (hfirst.aged hw).trans (ih (hfirst.wellFormed hw))

/-- Slots that were not there before have no lower version either. -/
theorem Moves.ages (hm : Moves n a b) (hn : n < 2 ^ 31) (hw : a.heap.WellFormed)
    (h : a.ages b = true) : a.Ages b := by
  simp only [Context.ages, List.all_eq_true, List.mem_range, decide_eq_true_eq] at h
  intro i
  by_cases hi : i < a.heap.slots.slots.size
  · exact h i hi
  · have hnew : a.heap.slots.versionOf i = firstVersion := by
      simp [SlotTable.versionOf, SlotTable.version?, Array.getElem?_eq_none (Nat.le_of_not_lt hi)]
    have hage := hm.aged hw i
    unfold Bumped at hage
    unfold firstVersion at hnew
    omega

/-- Changes that leave no version lower at the end have left none lower on the way. -/
theorem Moves.recorded (hm : Moves n a b) (hn : n < 2 ^ 31) (hw : a.heap.WellFormed)
    (hages : a.Ages b) (hr : a.Recorded) : b.Recorded := by
  induction hm with
  | refl => exact hr
  | head hfirst hrest ih =>
    have hw' := hfirst.wellFormed hw
    have hbetween := fun i => (hfirst.aged hw i).between (hrest.aged hw' i) hn (hages i)
    have hr' := hfirst.recorded hw (fun i => (hbetween i).1) hr
    exact ih (by omega) hw' (fun i => (hbetween i).2) hr'

theorem Moves.issued_suffix (hm : Moves n a b) : a.issued <:+ b.issued := by
  induction hm with
  | refl => exact List.suffix_rfl
  | head hfirst _ ih => exact hfirst.issued_suffix.trans ih

end Moves

end GenerationalHeap
