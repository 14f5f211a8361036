import GenerationalHeap.Proofs.History
import GenerationalHeap.Proofs.Effects

namespace GenerationalHeap

namespace Context

/-- Whether no event of a run leaves a slot with a lower version, as an event does in which a version
starts over. -/
def unwrapped (ctx : Context) : List Event → Bool
  | [] => true
  | event :: events =>
    match event.run.run.run ctx with
    | .ok (_, c) => ctx.ages c && c.unwrapped events
    | .error _ => true

/-- The event ran a collection while neither a root nor an operand led to the allocation. -/
def Forsakes (a : Context) (event : Event) (b : Context) (h : Handle) : Prop :=
  a.totals.collections < b.totals.collections ∧ ¬ a.heap.slots.Reaches (a.Holds event.operands) h

/-- Some event of a run forsakes the allocation. -/
def Loses (ctx : Context) (h : Handle) : List Event → Prop
  | [] => False
  | event :: events =>
    match event.run.run.run ctx with
    | .ok (_, c) => ctx.Forsakes event c h ∨ c.Loses h events
    | .error _ => False

/-- Whether the allocation is a root whenever an event of a run collects. -/
def pins (ctx : Context) (h : Handle) : List Event → Bool
  | [] => true
  | event :: events =>
    match event.run.run.run ctx with
    | .ok (_, c) =>
      (ctx.totals.collections == c.totals.collections || ctx.rootHandles.contains h) && c.pins h events
    | .error _ => true

variable {a b : Context} {h : Handle}

theorem not_loses_of_pins {events : List Event} (hp : a.pins h events = true) : ¬ a.Loses h events := by
  induction events generalizing a with
  | nil => exact id
  | cons event events ih =>
    unfold pins at hp
    unfold Loses
    cases hrun : event.run.run.run a with
    | error why => exact id
    | ok x =>
      simp only [hrun, Bool.and_eq_true, Bool.or_eq_true, beq_iff_eq, List.contains_iff_mem] at hp
      obtain ⟨hsafe, hrest⟩ := hp
      intro hlost
      rcases hlost with ⟨hlt, hunreached⟩ | hlater
      · rcases hsafe with hsame | hroot
        · omega
        · exact hunreached (.root (.inl ((a.mem_rootHandles h).mp hroot)))
      · exact ih hrest hlater

/-- A handle that was issued and stands for nothing is older than its slot. -/
theorem Recorded.version_lt (hr : a.Recorded) (hh : h ∈ a.issued) (hdead : ¬ a.heap.Live h) :
    h.version < a.heap.slots.versionOf h.index := by
  refine Nat.lt_of_le_of_ne (hr.version_le h hh) fun he => hdead ?_
  obtain ⟨block, hblock⟩ := Option.isSome_iff_exists.mp (hr.occupied h hh he.symm)
  obtain ⟨v, hv, _⟩ := a.heap.slots.exists_version_of_blockAt? h.index block hblock
  have hversion : a.heap.slots.versionOf h.index = v := by simp [SlotTable.versionOf, hv]
  have hresolve : a.heap.slots.resolve h = some block := by
    rw [SlotTable.resolve_eq_some_iff, hv, ← hversion, he]
    exact ⟨rfl, hblock⟩
  simp [Heap.Live, Heap.block?, hresolve]

theorem not_live_of_version_lt (hlt : h.version < a.heap.slots.versionOf h.index) :
    ¬ a.heap.Live h := by
  intro hlive
  obtain ⟨block, hblock⟩ := Option.isSome_iff_exists.mp hlive
  have hv := ((SlotTable.resolve_eq_some_iff _ _ _).mp hblock).1
  simp [SlotTable.versionOf, hv] at hlt

end Context

section Runs

variable {config : Config} {ctx : Context}

/-- The record of a run in which no version wraps around. -/
theorem Reachable.recorded_after (hr : Reachable config ctx) (hrec : ctx.Recorded)
    (events : List Event) (hu : ctx.unwrapped events = true) :
    (ctx.after events).Recorded ∧ ctx.issued <:+ (ctx.after events).issued ∧
      ctx.Ages (ctx.after events) := by
  induction events generalizing ctx with
  | nil => exact ⟨hrec, List.suffix_rfl, fun _ => Nat.le_refl _⟩
  | cons event events ih =>
    unfold Context.unwrapped at hu
    unfold Context.after
    cases hrun : event.run.run.run ctx with
    | error why => exact ⟨hrec, List.suffix_rfl, fun _ => Nat.le_refl _⟩
    | ok p =>
      rw [hrun, Bool.and_eq_true] at hu
      have hw := hr.wellFormed
      obtain ⟨k, _, hmoves⟩ := Mutator.ends_of_ok (event.traced ctx hw) hrun
      have hages := hmoves.ages (by omega) hw hu.1
      obtain ⟨hrec', hsuffix, hlater⟩ :=
        ih (.step event hr hrun) (hmoves.recorded (by omega) hw hages hrec) hu.2
      exact ⟨hrec', hmoves.issued_suffix.trans hsuffix, fun i => (hages i).trans (hlater i)⟩

/-- An allocation is there, with its kind and length, until it is forsaken. Its contents stay if they
are not written to and do not begin with a list cell. -/
theorem Reachable.kept_after (hr : Reachable config ctx) (events : List Event) {h : Handle}
    {p : Payload} (hp : ctx.heap.payload? h = some p) :
    (∃ q, (ctx.after events).heap.payload? h = some q ∧ q.kind = p.kind ∧ q.count = p.count ∧
      ((∀ event ∈ events, event.target? ≠ some h) → p.firstIsCell = false → q = p)) ∨
      ctx.Loses h events := by
  induction events generalizing ctx p with
  | nil => exact .inl ⟨p, hp, rfl, rfl, fun _ _ => rfl⟩
  | cons event events ih =>
    unfold Context.Loses Context.after
    cases hrun : event.run.run.run ctx with
    | error why => exact .inl ⟨p, hp, rfl, rfl, fun _ _ => rfl⟩
    | ok x =>
      have hsurvives := event.survives hr.wellFormed hr.tidy x.1 x.2 hrun
      by_cases hsafe : x.2.totals.collections = ctx.totals.collections ∨
          ctx.heap.slots.Reaches (ctx.Holds event.operands) h
      · obtain ⟨q, hq, hk, hc, _⟩ := hsurvives.kept h p hp hsafe
        refine (ih (.step event hr hrun) hq).imp ?_ .inr
        intro hlast
        obtain ⟨last, hlast, hk', hc', hsame'⟩ := hlast
        refine ⟨last, hlast, hk'.trans hk, hc'.trans hc, fun htargets hcell => ?_⟩
        obtain ⟨htarget, htargets⟩ := List.forall_mem_cons.mp htargets
        have hintact := hsurvives.intact hp hsafe htarget hcell
        obtain rfl := Option.some.inj (hq.symm.trans hintact)
        exact hsame' htargets hcell
      · rw [not_or] at hsafe
        have hle := hsurvives.collections_le
        exact .inr (.inl ⟨by omega, hsafe.2⟩)

/-- A new handle is not among those issued before. -/
theorem Mutator.allocate_new (hr : Reachable config ctx) (hrec : ctx.Recorded) {kind : PayloadKind}
    {count : Nat} {h : Handle} {c : Context}
    (hrun : (allocate kind count).run.run ctx = .ok (.ok h, c)) (hages : ctx.ages c = true) :
    h ∉ ctx.issued ∧ c.issued = h :: ctx.issued ∧ c.heap.payload? h = some (.fresh kind count) := by
  have hw := hr.wellFormed
  obtain ⟨k, _, hmoves⟩ := ends_of_ok (traced_allocate kind count ctx hw) hrun
  have hnodup := (hmoves.recorded (by omega) hw (hmoves.ages (by omega) hw hages) hrec).nodup
  have hshelter := Context.sheltered_refl hw ctx.IsRoot
  rcases leaves_allocate kind count hshelter (fun _ hg => hg) (fun _ hg => .inl hg) _ _ hrun with
    ⟨_, he, _⟩ | ⟨_, hh, _, _, _, hissued, hp⟩
  · simp at he
  · obtain rfl := Except.ok.inj hh
    rw [hissued] at hnodup
    exact ⟨(List.nodup_cons.mp hnodup).1, hissued, hp⟩

end Runs

/-- Over a run in which no version wraps around, from its start over `a` to `b`: no handle is issued
twice, an allocation is there with its kind and length until a collection finds nothing that leads to
it, and a handle that stands for nothing never stands for anything again. -/
theorem handles_last {config : Config} {start a b : Context} (hstart : Context.ofConfig config = .ok start)
    (past future : List Event) (ha : start.after past = a) (hb : a.after future = b)
    (hpast : start.unwrapped past = true) (hfuture : a.unwrapped future = true) :
    b.issued.Nodup ∧ a.issued <:+ b.issued ∧
      (∀ kind count h c, (Mutator.allocate kind count).run.run b = .ok (.ok h, c) → b.ages c = true →
        h ∉ b.issued ∧ c.issued = h :: b.issued ∧ c.heap.payload? h = some (.fresh kind count)) ∧
      (∀ (event : Event) r c, event.run.run.run b = .ok (r, c) →
        ∀ h ∈ c.issued, h ∈ b.issued ∨ c.heap.Live h) ∧
      (∀ h ∈ a.issued, ∀ p, a.heap.payload? h = some p →
        (∃ q, b.heap.payload? h = some q ∧ q.kind = p.kind ∧ q.count = p.count) ∨ a.Loses h future) ∧
      ∀ h ∈ a.issued, ¬ a.heap.Live h → ¬ b.heap.Live h := by
  subst ha hb
  have hr : Reachable config start := .start hstart
  have hra := hr.after past
  have hrb := hra.after future
  obtain ⟨hreca, _, _⟩ := hr.recorded_after (recorded_ofConfig hstart) past hpast
  obtain ⟨hrecb, hsuffix, hages⟩ := hra.recorded_after hreca future hfuture
  refine ⟨hrecb.nodup, hsuffix, ?_, ?_, ?_, ?_⟩
  · exact fun _ _ _ _ hrun hok => Mutator.allocate_new hrb hrecb hrun hok
  · exact fun event r c hrun => (event.survives hrb.wellFormed hrb.tidy r c hrun).issued
  · intro h _ p hp
    refine (hra.kept_after future hp).imp ?_ id
    intro hkept
    obtain ⟨q, hq, hk, hc, _⟩ := hkept
    exact ⟨q, hq, hk, hc⟩
  · intro h hh hdead
    have hlt := hreca.version_lt hh hdead
    exact Context.not_live_of_version_lt (Nat.lt_of_lt_of_le hlt (hages h.index))

/-- The first handle of this run loses its slot to the second, which outlives the promotion of its
block. -/
theorem handles_last_reused_slot :
    ∃ start a b : Context, Context.ofConfig { arenaBytes := 80, stackSlots := 4 } = .ok start ∧
      start.after [.act (.allocateObjects (1 : Nat)), .act (.allocateObjects (1 : Nat)),
        .act (.push (Node.ref ⟨0, 2⟩))] = a ∧
      a.after [.act (.allocateObjects (2 : Nat))] = b ∧
      b.issued = [⟨1, 1⟩, ⟨0, 2⟩, ⟨0, 1⟩] ∧ b.issued.Nodup ∧
      (b.heap.block? ⟨0, 2⟩).map (·.place) = some .old ∧ ¬ b.heap.Live ⟨0, 1⟩ := by
  have hstart : Context.ofConfig { arenaBytes := 80, stackSlots := 4 } = .ok _ := rfl
  have hlast := handles_last hstart
    [.act (.allocateObjects (1 : Nat)), .act (.allocateObjects (1 : Nat)), .act (.push (Node.ref ⟨0, 2⟩))]
    [.act (.allocateObjects (2 : Nat))] rfl rfl (by cbv) (by cbv)
  obtain ⟨hnodup, _, _, _, _, hdead⟩ := hlast
  refine ⟨_, _, _, hstart, rfl, rfl, by cbv, hnodup, by cbv, hdead ⟨0, 1⟩ ?_ ?_⟩
  · rw [← List.contains_iff_mem]
    cbv
  · rw [Heap.Live, Bool.not_eq_true]
    cbv

end GenerationalHeap
