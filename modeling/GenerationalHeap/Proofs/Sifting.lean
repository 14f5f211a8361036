import GenerationalHeap.Collection.Collect
import GenerationalHeap.Proofs.Marking

namespace GenerationalHeap

theorem Tally.add_def (a b : Tally) : a + b = ⟨a.objects + b.objects, a.bytes + b.bytes⟩ := rfl

namespace SlotTable

def markedAt (t : SlotTable) (i : Nat) : Bool := (t.blockAt? i).any (·.marked)

/-- Size of the block in a slot; a vacant slot has none. -/
def sizeAt (t : SlotTable) (i : Nat) : Nat := (t.blockAt? i).elim 0 (·.size)

/-- Number and bytes of the blocks in some slots. -/
def tally (t : SlotTable) (indices : List Nat) : Tally :=
  ⟨indices.length, (indices.map t.sizeAt).sum⟩

theorem tally_cons (t : SlotTable) (i : Nat) (l : List Nat) :
    t.tally (i :: l) = ⟨(t.tally l).objects + 1, t.sizeAt i + (t.tally l).bytes⟩ := by
  simp [tally]

theorem markedAt_congr {t t' : SlotTable} {i : Nat} (h : t'.blockAt? i = t.blockAt? i) :
    t'.markedAt i = t.markedAt i := by
  rw [markedAt, h, markedAt]

theorem tally_congr {t t' : SlotTable} {l : List Nat}
    (h : ∀ i ∈ l, t'.blockAt? i = t.blockAt? i) : t'.tally l = t.tally l := by
  have hs : l.map t'.sizeAt = l.map t.sizeAt := by
    apply List.map_congr_left
    intro i hi
    rw [sizeAt, h i hi, sizeAt]
  rw [tally, hs, tally]

theorem marked_iff_markedAt (t : SlotTable) (h : Handle) :
    t.Marked h ↔ t.version? h.index = some h.version ∧ t.markedAt h.index = true := by
  unfold Marked markedAt
  constructor
  · intro hmarked
    obtain ⟨b, hb, hm⟩ := hmarked
    obtain ⟨hv, hb⟩ := (resolve_eq_some_iff t h b).mp hb
    exact ⟨hv, by simp [hb, hm]⟩
  · intro hat
    obtain ⟨hv, hm⟩ := hat
    obtain ⟨b, hb, hm⟩ := (Option.any_eq_true _ _).mp hm
    exact ⟨b, (resolve_eq_some_iff t h b).mpr ⟨hv, hb⟩, hm⟩

end SlotTable

/-- What a walk over some occupied slots comes to: marked blocks are changed and listed, unmarked
ones give up their slots, and all other slots stay. -/
structure Sifting.Sifted (keep : Block → Block) (s : Sifting) (l : List Nat) (s' : Sifting) : Prop where
  sound : s'.slots.Sound
  size : s'.slots.slots.size = s.slots.slots.size
  version? : ∀ j, s'.slots.version? j =
    if j ∈ l ∧ s.slots.markedAt j = false then (s.slots.version? j).map nextVersion
    else s.slots.version? j
  blockAt? : ∀ j, s'.slots.blockAt? j =
    if j ∈ l then (s.slots.blockAt? j).bind fun b => if b.marked then some (keep b) else none
    else s.slots.blockAt? j
  kept : s'.kept.toList = s.kept.toList ++ l.filter s.slots.markedAt
  keptTally : s'.keptTally = s.keptTally + s.slots.tally (l.filter s.slots.markedAt)
  freedTally : s'.freedTally =
    s.freedTally + s.slots.tally (l.filter fun i => !s.slots.markedAt i)

namespace Sifting

theorem Sifted.nil (keep : Block → Block) (s : Sifting) (hs : s.slots.Sound) : Sifted keep s [] s := by
  constructor
  · exact hs
  · rfl
  · simp
  · simp
  · simp
  · rfl
  · rfl

/-- A slot that was treated first is not touched by the rest of the walk. -/
theorem Sifted.cons (keep : Block → Block) (s s₁ s' : Sifting) (i : Nat) (l : List Nat)
    (hi : i ∉ l) (h₁ : Sifted keep s [i] s₁) (h : Sifted keep s₁ l s') : Sifted keep s (i :: l) s' := by
  have same : ∀ j, j ≠ i → s₁.slots.blockAt? j = s.slots.blockAt? j := by
    intro j hj
    rw [h₁.blockAt?, if_neg (by simpa using hj)]
  have sameList : ∀ j ∈ l, s₁.slots.blockAt? j = s.slots.blockAt? j := by
    intro j hj
    exact same j fun he => hi (he ▸ hj)
  have marks : ∀ j ∈ l, s₁.slots.markedAt j = s.slots.markedAt j := by
    intro j hj
    exact SlotTable.markedAt_congr (sameList j hj)
  have keptList : l.filter s₁.slots.markedAt = l.filter s.slots.markedAt :=
    List.filter_congr marks
  have freedList : (l.filter fun j => !s₁.slots.markedAt j) = l.filter fun j => !s.slots.markedAt j := by
    apply List.filter_congr
    intro j hj
    rw [marks j hj]
  constructor
  · exact h.sound
  · exact h.size.trans h₁.size
  · intro j
    rw [h.version?, h₁.version?]
    by_cases hj : j = i
    · subst hj
      simp [hi]
    · by_cases hl : j ∈ l
      · simp [hj, hl, marks j hl]
      · simp [hj, hl]
  · intro j
    rw [h.blockAt?, h₁.blockAt?]
    by_cases hj : j = i
    · subst hj
      simp [hi]
    · simp [hj]
  · rw [h.kept, h₁.kept, keptList]
    by_cases hm : s.slots.markedAt i <;> simp [hm]
  · rw [h.keptTally, h₁.keptTally, keptList,
      SlotTable.tally_congr fun j hj => sameList j (List.mem_of_mem_filter hj)]
    by_cases hm : s.slots.markedAt i
    · simp only [List.filter_cons, List.filter_nil, hm, if_true, SlotTable.tally_cons, Tally.add_def]
      simp [SlotTable.tally]
      omega
    · simp [hm, SlotTable.tally, Tally.add_def]
  · rw [h.freedTally, h₁.freedTally, freedList,
      SlotTable.tally_congr fun j hj => sameList j (List.mem_of_mem_filter hj)]
    by_cases hm : s.slots.markedAt i
    · simp [hm, SlotTable.tally, Tally.add_def]
    · simp [hm, SlotTable.tally, Tally.add_def]
      omega

theorem step_sifted (keep : Block → Block) (s : Sifting) (i : Nat) (hs : s.slots.Sound)
    (b : Block) (hb : s.slots.blockAt? i = some b) :
    ∃ s', s.step keep i = .ok s' ∧ Sifted keep s [i] s' := by
  have hmark : s.slots.markedAt i = b.marked := by simp [SlotTable.markedAt, hb]
  have hsize : s.slots.sizeAt i = b.size := by simp [SlotTable.sizeAt, hb]
  by_cases hm : b.marked = true
  · refine ⟨{ s with
        slots := s.slots.update i keep
        kept := s.kept.push i
        keptTally := s.keptTally.count b.size }, by simp only [step, hb, hm, if_true], ?_⟩
    constructor
    · exact hs.update i keep
    · simp
    · intro j
      by_cases hj : j = i
      · simp [hj, hmark, hm]
      · simp [hj]
    · intro j
      rw [SlotTable.blockAt?_update]
      by_cases hj : j = i
      · simp [hj, hb, hm]
      · simp [hj]
    · simp [hmark, hm]
    · simp [hmark, hm, hsize, SlotTable.tally, Tally.count, Tally.add_def]
    · simp [hmark, hm, SlotTable.tally, Tally.add_def]
  · obtain ⟨t', ht', hr⟩ := SlotTable.release?_of_occupied s.slots i b hb
    refine ⟨{ s with slots := t', freedTally := s.freedTally.count b.size },
      by simp [step, hb, hm, ht'], ?_⟩
    constructor
    · exact hs.released i b hb hr
    · exact hr.size
    · intro j
      rw [hr.version?]
      by_cases hj : j = i
      · simp [hj, hmark, hm]
      · simp [hj]
    · intro j
      rw [hr.blockAt?]
      by_cases hj : j = i
      · simp [hj, hb, hm]
      · simp [hj]
    · simp [hmark, hm]
    · simp [hmark, hm, SlotTable.tally, Tally.add_def]
    · simp [hmark, hm, hsize, SlotTable.tally, Tally.count, Tally.add_def]

theorem foldlM_sifted (keep : Block → Block) (l : List Nat) (s : Sifting) (hs : s.slots.Sound)
    (hn : l.Nodup) (ho : ∀ i ∈ l, ∃ b, s.slots.blockAt? i = some b) :
    ∃ s', l.foldlM (step keep) s = .ok s' ∧ Sifted keep s l s' := by
  induction l generalizing s with
  | nil => exact ⟨s, rfl, .nil keep s hs⟩
  | cons i l ih =>
    obtain ⟨hi, hn⟩ := List.nodup_cons.mp hn
    obtain ⟨b, hb⟩ := ho i List.mem_cons_self
    obtain ⟨s₁, hstep, h₁⟩ := step_sifted keep s i hs b hb
    have ho₁ : ∀ j ∈ l, ∃ b, s₁.slots.blockAt? j = some b := by
      intro j hj
      have hne : j ≠ i := fun he => hi (he ▸ hj)
      rw [h₁.blockAt?, if_neg (by simpa using hne)]
      exact ho j (List.mem_cons_of_mem _ hj)
    obtain ⟨s', hfold, h'⟩ := ih s₁ h₁.sound hn ho₁
    refine ⟨s', ?_, .cons keep s s₁ s' i l hi h₁ h'⟩
    rw [List.foldlM_cons, hstep]
    exact hfold

end Sifting

/-- A walk over distinct occupied slots of a sound table never breaks off. -/
theorem sift_sifted (keep : Block → Block) (slots : SlotTable) (indices : Array Nat)
    (hs : slots.Sound) (hn : indices.toList.Nodup)
    (ho : ∀ i ∈ indices.toList, ∃ b, slots.blockAt? i = some b) :
    ∃ s, sift keep slots indices = .ok s ∧ Sifting.Sifted keep { slots } indices.toList s :=
  Sifting.foldlM_sifted keep indices.toList { slots } hs hn ho

end GenerationalHeap
