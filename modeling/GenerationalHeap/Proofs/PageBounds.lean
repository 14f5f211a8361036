import GenerationalHeap.Proofs.Reachable
import GenerationalHeap.Proofs.Words

namespace GenerationalHeap

section Pages

variable {k : Nat} (hk : k ≤ 64)
include hk

theorem roundToPages_exact (length : Nat) :
    roundToPages length (2 ^ k) =
      if Word.ceilTo (2 ^ k) length < Word.span then some (Word.ceilTo (2 ^ k) length) else none :=
  Word.roundUp?_exact hk length

/-- A mapping has the least number of whole pages that holds its bytes, all of them zero. -/
theorem Mapping.anonymous_exact (length : Nat) :
    Mapping.anonymous length (2 ^ k) =
      if length = 0 then .error .emptyLength
      else if Word.ceilTo (2 ^ k) length < Word.span then
        .ok ⟨Word.ceilTo (2 ^ k) length, fun _ => 0⟩
      else .error .lengthOverflow := by
  rw [Mapping.anonymous, mappedLength, roundToPages_exact hk]
  by_cases hz : length = 0
  · rw [if_pos hz, if_pos hz]
    rfl
  · rw [if_neg hz, if_neg hz]
    by_cases hfits : Word.ceilTo (2 ^ k) length < Word.span
    · rw [if_pos hfits, if_pos hfits]
      rfl
    · rw [if_neg hfits, if_neg hfits]
      rfl

end Pages

/-- The arena lies in a mapping of the length that a request for its capacity is served with. -/
theorem Arena.exists_mapping {capacity page : Nat} {arena : Arena}
    (h : Arena.reserve capacity page = .ok arena) (hpos : 0 < capacity) :
    ∃ m, Mapping.anonymous capacity page = .ok m ∧ arena.mapped = m.length := by
  unfold Arena.reserve at h
  rw [if_neg (by omega)] at h
  rw [Mapping.anonymous]
  cases hmapped : mappedLength page capacity with
  | error why => simp [hmapped, Except.map] at h
  | ok rounded =>
    simp only [hmapped, Except.map, Except.ok.injEq] at h
    obtain rfl := h
    exact ⟨_, rfl, rfl⟩

/-- Two words that do not sum up to a word end beyond every mapping, so both guards refuse the same
ranges. -/
theorem checkRange_eq_ok_iff {length : Nat} (hlength : length < Word.span) (offset count : Nat) :
    checkRange length offset count = .ok () ↔ offset + count ≤ length := by
  rw [checkRange, Word.add?]
  by_cases hsum : offset + count < Word.span
  · simp [hsum]
  · have hbeyond : ¬ offset + count ≤ length := by omega
    simp [hsum, hbeyond]

namespace Mapping

variable {m : Mapping} (hm : m.length < Word.span) {offset count : Nat}
include hm

theorem zero_of_le (h : offset + count ≤ m.length) :
    m.zero offset count = .ok (m.overwrite offset count 0) := by
  rw [Mapping.zero, (checkRange_eq_ok_iff hm offset count).mpr h]
  rfl

theorem zero_of_lt (h : m.length < offset + count) :
    ∃ why, m.zero offset count = .error why := by
  rw [Mapping.zero]
  cases hc : checkRange m.length offset count with
  | error why => exact ⟨why, rfl⟩
  | ok _ =>
    have hle := (checkRange_eq_ok_iff hm offset count).mp hc
    omega

end Mapping

/-- Neither the capacity of the arena nor its mapping ever changes. -/
theorem Move.arena_extent {n : Nat} {a b : Context} (hm : Move n a b) (hw : a.heap.WellFormed) :
    b.heap.arena.capacity = a.heap.arena.capacity ∧ b.heap.arena.mapped = a.heap.arena.mapped := by
  cases hm with
  | stack | roots | enter | leave | inhibit | write => exact ⟨rfl, rfl⟩
  | serve _ kind count h _ hs =>
    cases hs with
    | young _ ha =>
      obtain ⟨_, _, rfl⟩ := Heap.allocateYoung?_eq_some _ _ _ _ ha
      exact ⟨rfl, rfl⟩
    | old _ ha =>
      obtain ⟨_, rfl⟩ := Prod.mk.inj ha
      exact ⟨rfl, rfl⟩
  | collect _ trigger record _ hc =>
    obtain ⟨_, _, _, _, hheap⟩ := Context.collect_phases hw hc
    rw [hheap]
    exact ⟨rfl, rfl⟩

theorem Context.after_arena {ctx : Context} (hw : ctx.heap.WellFormed) (events : List Event) :
    (ctx.after events).heap.WellFormed ∧
      (ctx.after events).heap.arena.capacity = ctx.heap.arena.capacity ∧
      (ctx.after events).heap.arena.mapped = ctx.heap.arena.mapped := by
  apply Context.after_invariant (P := fun c => c.heap.arena.capacity = ctx.heap.arena.capacity ∧
    c.heap.arena.mapped = ctx.heap.arena.mapped) _ ⟨hw, rfl, rfl⟩
  intro n a b hm ha hkept
  have hextent := hm.arena_extent ha
  exact ⟨hextent.1.trans hkept.1, hextent.2.trans hkept.2⟩

/-- For pages of every size, rounding gives the least number of whole pages unless that is no word, as
the mask of a machine does; a mapping of that length is made, all zero, unless none is asked for or
none fits; a range of a mapping is zeroed, and nothing else, exactly if its end is not beyond the
mapping. So in whatever a program does the arena lies in its mapping with all of its capacity, and to
empty it never fails. -/
theorem page_bounds_exact (page : UInt64) (hpage : page.toNat.isPowerOfTwo) :
    (∀ length : UInt64, ∃ rounded,
      IsLeast {n | page.toNat ∣ n ∧ length.toNat ≤ n} rounded ∧
      roundToPages length.toNat page.toNat = (if rounded < 2 ^ 64 then some rounded else none) ∧
      (rounded < 2 ^ 64 → ((length + (page - 1)) &&& ~~~(page - 1)).toNat = rounded) ∧
      Mapping.anonymous length.toNat page.toNat =
        (if length = 0 then .error .emptyLength
        else if rounded < 2 ^ 64 then .ok ⟨rounded, fun _ => 0⟩
        else .error .lengthOverflow) ∧
      (length ≠ 0 → 0 < rounded)) ∧
    (∀ (m : Mapping) (offset count : UInt64), m.length < 2 ^ 64 →
      (m.length < offset.toNat + count.toNat →
        ∃ why, m.zero offset.toNat count.toNat = .error why) ∧
      (offset.toNat + count.toNat ≤ m.length →
        ∃ m', m.zero offset.toNat count.toNat = .ok m' ∧ m'.length = m.length ∧
          ∀ i, m'.byteAt i =
            if offset.toNat ≤ i ∧ i < offset.toNat + count.toNat then 0 else m.byteAt i)) ∧
    (∀ (config : Config) (ctx : Context), Context.ofConfig config page.toNat = .ok ctx →
      ∀ events, (ctx.after events).heap.arena.reset =
          .ok { (ctx.after events).heap.arena with used := 0, blocks := #[] } ∧
        (∀ (event : Event) (range : RangeFault),
          event.run.run.run (ctx.after events) ≠ .error (.zeroRange range)) ∧
        (ctx.after events).heap.arena.capacity = config.arenaBytes ∧
        (0 < config.arenaBytes → ∃ m, Mapping.anonymous config.arenaBytes page.toNat = .ok m ∧
          (ctx.after events).heap.arena.mapped = m.length ∧ config.arenaBytes ≤ m.length)) := by
  obtain ⟨k, hunit⟩ := hpage
  have hk : k ≤ 64 := by
    have hlt : 2 ^ k < 2 ^ 64 := hunit ▸ page.toNat_lt
    exact ((Nat.pow_lt_pow_iff_right (by decide)).mp hlt).le
  have hpos : 0 < page.toNat := hunit ▸ Nat.two_pow_pos k
  refine ⟨?_, ?_, ?_⟩
  · intro length
    have hleast := Word.isLeast_ceilTo hpos length.toNat
    refine ⟨_, hleast, ?_, Word.toNat_roundUp hunit, ?_, ?_⟩
    · rw [hunit]
      exact roundToPages_exact hk length.toNat
    · have hzero : length.toNat = 0 ↔ length = 0 := UInt64.toNat_inj (b := 0)
      rw [hunit, Mapping.anonymous_exact hk]
      simp only [hzero]
      rfl
    · intro hne
      have hlength : length.toNat ≠ 0 := fun h => hne (UInt64.toNat_inj.mp h)
      exact Nat.lt_of_lt_of_le (Nat.pos_of_ne_zero hlength) hleast.1.2
  · intro m offset count hm
    refine ⟨Mapping.zero_of_lt hm, ?_⟩
    intro hle
    exact ⟨_, Mapping.zero_of_le hm hle, rfl, fun _ => rfl⟩
  · intro config ctx hctx events
    -- The page size is met only when the arena is reserved; from there on its extent is kept.
    have hnew : ctx.heap.WellFormed := wellFormed_of_pages hk (hunit ▸ hctx)
    obtain ⟨hw, hcapacity, hmapped⟩ := Context.after_arena hnew events
    obtain ⟨arena, harena, rfl⟩ := Context.ofConfig_eq_ok hctx
    have hreserved : arena.capacity = config.arenaBytes :=
      (Arena.reserve_of_pages hk (hunit ▸ harena)).2.2.1
    refine ⟨?_, ?_, hcapacity.trans hreserved, ?_⟩
    · exact Arena.reset_of_le _ (hw.used_le.trans hw.capacity_le) hw.mapped_lt
    · intro event range hfault
      exact Mutator.ends_of_error (event.traced _ hw) hfault trivial
    · intro hsome
      obtain ⟨m, hmapping, hlength⟩ := Arena.exists_mapping harena hsome
      refine ⟨m, hmapping, hmapped.trans hlength, ?_⟩
      have hcovers := hnew.capacity_le
      rwa [hreserved, hlength] at hcovers

/-- With pages of 4096 bytes no mapping has one byte more than the last whole page below the word range.
A mapping of one page is zeroed up to its last byte and not beyond, and an arena of 100 bytes lies in
such a mapping. -/
theorem page_bounds_exact_last_page :
    (4096 : UInt64).toNat.isPowerOfTwo ∧
      (∃ rounded, IsLeast {n | 4096 ∣ n ∧ 18446744073709547521 ≤ n} rounded ∧ 2 ^ 64 ≤ rounded ∧
        roundToPages 18446744073709547521 4096 = none ∧
        Mapping.anonymous 18446744073709547521 4096 = .error .lengthOverflow) ∧
      ∃ ctx m, Context.ofConfig { arenaBytes := 100, stackSlots := 4 } 4096 = .ok ctx ∧
        Mapping.anonymous 100 4096 = .ok m ∧ ctx.heap.arena.mapped = m.length ∧ m.length = 4096 ∧
        (∃ why, m.zero 4000 97 = .error why) ∧ ∃ m', m.zero 4000 96 = .ok m' := by
  have hpage : (4096 : UInt64).toNat.isPowerOfTwo := ⟨12, rfl⟩
  obtain ⟨hround, hzero, harena⟩ := page_bounds_exact 4096 hpage
  refine ⟨hpage, ?_, ?_⟩
  · obtain ⟨rounded, hleast, hpages, _, hmapping, _⟩ := hround 18446744073709547521
    have hnone : roundToPages 18446744073709547521 4096 = none := by decide
    have hover : ¬ rounded < 2 ^ 64 := by
      intro hlt
      rw [if_pos hlt] at hpages
      exact Option.some_ne_none _ (hpages.symm.trans hnone)
    rw [if_neg (by decide), if_neg hover] at hmapping
    exact ⟨rounded, hleast, Nat.le_of_not_lt hover, hnone, hmapping⟩
  · have hnew : Context.ofConfig { arenaBytes := 100, stackSlots := 4 } 4096 = .ok _ := rfl
    obtain ⟨_, _, _, hmapped⟩ := harena _ _ hnew []
    obtain ⟨m, hm, hlength, _⟩ := hmapped (by decide)
    have hpage : m.length = 4096 := hlength.symm.trans rfl
    have hends := hzero m 4000 97 (by omega)
    have hholds := hzero m 4000 96 (by omega)
    obtain ⟨m', hm', _⟩ := hholds.2 (hpage ▸ by decide)
    exact ⟨_, m, hnew, hm, hlength, hpage, hends.1 (hpage ▸ by decide), m', hm'⟩

end GenerationalHeap
