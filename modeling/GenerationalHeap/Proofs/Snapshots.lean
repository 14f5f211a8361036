import GenerationalHeap.Proofs.Calls
import GenerationalHeap.Proofs.Lifetimes

namespace GenerationalHeap

/-- An accepted number of slots is a word also in bytes. -/
theorem requestSize_objects_lt {limit count size : Nat}
    (h : requestSize limit .objects count = .ok size) : count * nodeBytes < Word.span := by
  obtain ⟨payload, hp, _⟩ := requestSize_eq_ok h
  simp only [PayloadKind.payloadBytes, Word.mul?] at hp
  split at hp
  · assumption
  · simp at hp

/-- A count that fits next to its values in one allocation is not capped. -/
theorem Node.ofCount_of_lt {n : Nat} (h : (n + 1) * nodeBytes < Word.span) :
    Node.ofCount n = .integer (n : Nat) := by
  have hbytes : nodeBytes = 24 := rfl
  have hspan : Word.span = 18446744073709551616 := rfl
  rw [hbytes, hspan] at h
  rw [Node.ofCount, Nat.min_eq_left (by omega)]

namespace Mutator

variable {ctx : Context}

theorem leaves_allocateObjects (count : Nat) (hw : ctx.heap.WellFormed) :
    (allocateObjects count).Leaves ctx fun r c => ∀ h, r = .ok h →
      c.heap.payload? h = some (.fresh .objects count) ∧ count * nodeBytes < Word.span := by
  intro r c hrun
  rcases ends_of_ok (allocate_ends ctx .objects _) hrun with ⟨e, rfl, _⟩ | ⟨h, c₀, rfl, hy, hserved⟩
  · exact fun _ he => by simp at he
  · intro h' he
    obtain rfl := Except.ok.inj he
    obtain ⟨size, hsize⟩ := hserved.requestSize_eq_ok
    have hs := Context.sheltered_refl hw ctx.IsRoot
    obtain ⟨hs₀, _⟩ := hs.yielded (fun _ hg => hg) (fun _ hg => .inl hg) hy
    refine ⟨?_, requestSize_objects_lt hsize⟩
    rw [hserved.payload? hs₀.heap, if_pos rfl]

/-- A new capture block holds the values of the slots behind their number. -/
theorem makeCaptures_creates (slots : List Nat) (hw : ctx.heap.WellFormed) :
    (makeCaptures slots).Leaves ctx fun r c => ∀ block, r = .ok block →
      ∃ values, slots.mapM ctx.stack.readLocal = .ok values ∧
        c.heap.payload? block = some (.captures values) := by
  refine leaves_read_bind (fun e block he => by simp at he) ?_
  intro values hvalues
  refine (leaves_allocateObjects _ hw).bind (fun e c _ block he => by simp at he) ?_
  intro block c₁ hnew
  obtain ⟨hp, hlt⟩ := hnew block rfl
  have hwritten : (modifyObjects block fun _ => (.ofCount values.length :: values).toArray).run.run c₁ =
      .ok (.ok (), { c₁ with heap := c₁.heap.setPayload block.index (.captures values) }) := by
    rw [run_modifyObjects, Heap.modifyObjects, Heap.objects_eq_ok.mpr hp, Node.ofCount_of_lt hlt]
    rfl
  intro r c₂ hrun block' he
  rw [run_bind, hwritten] at hrun
  obtain ⟨rfl, rfl⟩ := Prod.mk.inj (Except.ok.inj hrun)
  obtain rfl := Except.ok.inj he
  refine ⟨values, hvalues, ?_⟩
  show (c₁.heap.setPayload _ _).payload? _ = _
  rw [Heap.payload?_setPayload hp, if_pos rfl]

theorem makeClosure_creates {flavour : Flavour} {code : Nat} {slots : List Nat} {closure : Node}
    {c : Context} (hw : ctx.heap.WellFormed)
    (h : (makeClosure flavour code slots).run.run ctx = .ok (.ok closure, c)) :
    ∃ block values, closure = .closure flavour code block ∧
      slots.mapM ctx.stack.readLocal = .ok values ∧ c.heap.payload? block = some (.captures values) := by
  have hleaves : (makeClosure flavour code slots).Leaves ctx fun r c => ∀ closure, r = .ok closure →
      ∃ block values, closure = .closure flavour code block ∧
        slots.mapM ctx.stack.readLocal = .ok values ∧ c.heap.payload? block = some (.captures values) := by
    refine (makeCaptures_creates slots hw).bind (fun e c _ block he => by simp at he) ?_
    intro block c hnew
    obtain ⟨values, hvalues, hp⟩ := hnew block rfl
    refine leaves_pure _ fun closure he => ?_
    exact ⟨block, values, (Except.ok.inj he).symm, hvalues, hp⟩
  exact hleaves _ _ h closure rfl

end Mutator

/-- While a block is among the captures of a running closure, the code may do anything but write to it. -/
theorem Body.keeps_payload {frames frames' : List Frame} {a c : Context} {block : Handle} {p : Payload}
    (hb : Body (fun _ event => event.target? ≠ some block) frames a frames' c) (hw : a.heap.WellFormed)
    (ht : a.stack.Tidy) (hin : block ∈ a.captures) (hp : a.heap.payload? block = some p)
    (hcell : p.firstIsCell = false) : c.heap.payload? block = some p := by
  induction hb with
  | done => exact hp
  | step event hplain htarget hrun _ ih =>
    obtain ⟨hw', ht'⟩ := event.leaves_sound hw ht _ _ hrun
    have hsurvives := event.survives hw ht _ _ hrun
    have hp' := hsurvives.intact hp (.inr (.root (.inl (.captured hin)))) htarget hcell
    rw [← (Event.plain_effect hplain hw ht _ _ hrun).1] at hin
    exact ih hw' ht' hin hp'
  | call henter hpush hbody hleave _ ihbody ihrest =>
    obtain ⟨hw₂, ht₂⟩ := Event.leaves_sound _ hw ht _ _ (Event.run_call henter hpush)
    obtain ⟨hw₃, ht₃, hcaptures₃⟩ := hbody.sound hw₂ ht₂
    obtain ⟨hw₄, ht₄⟩ := Event.leaves_sound (.leave _) hw₃ ht₃ _ _ hleave
    obtain ⟨_, _, rfl⟩ := Mutator.leaves_leave _ _ _ hleave
    obtain ⟨_, _, _, _, rfl, _⟩ := Mutator.call_begins henter hpush
    refine ihrest hw₄ ht₄ ?_ (ihbody hw₂ ht₂ (List.mem_cons_of_mem _ hin) hp)
    show _ ∈ List.tail _
    rw [hcaptures₃]
    exact hin

section Reading

variable {ctx : Context} {block : Handle} {rest : List Handle} {values : List Node}

theorem Context.captureCount_eq (hc : ctx.captures = block :: rest)
    (hp : ctx.heap.payload? block = some (.captures values)) :
    ctx.captureCount = .ok values.length := by
  unfold Context.captureCount Context.activeCaptures
  rw [hc]
  exact Heap.captureCount_eq_ok.mpr ⟨values, rfl, hp⟩

theorem Context.capture_eq (hc : ctx.captures = block :: rest)
    (hp : ctx.heap.payload? block = some (.captures values)) (i : Nat) :
    ctx.capture i = match values[i]? with
      | some value => .ok value
      | none => .error (.captureCountMismatch i values.length) := by
  have hcount := Heap.captureCount_eq_ok.mpr ⟨values, rfl, hp⟩
  have hobjects := Heap.objects_eq_ok.mpr hp
  unfold Context.capture Context.activeCaptures
  simp only [hc, hcount, hobjects, bind, Except.bind]
  by_cases hi : i < values.length
  · simp [hi]
  · simp [hi]

end Reading

/-- A closure's captures are the values that the slots held when it was made. They are there whenever
its code runs, whatever has happened since: to the slots, to the stack, to the heap, as long as each
collection found the closure's block and nothing wrote to it. -/
theorem captures_are_snapshots {config : Config} {ctx c : Context} (hr : Reachable config ctx)
    {flavour : Flavour} {code : Nat} {slots : List Nat} {closure : Node}
    (hmake : (Mutator.makeClosure flavour code slots).run.run ctx = .ok (.ok closure, c)) :
    ∃ block, closure = .closure flavour code block ∧
      ∀ events, (∀ event ∈ events, event.target? ≠ some block) → ¬ c.Loses block events →
        (∃ activation c₁, (Mutator.enter closure).run.run (c.after events) = .ok (.ok activation, c₁)) ∧
        ∀ args r c₁ frames c₂, (Event.call closure args).run.run.run (c.after events) = .ok (r, c₁) →
          Body (fun _ event => event.target? ≠ some block) [] c₁ frames c₂ →
          c₂.captureCount = .ok slots.length ∧
          (∀ i slot, slots[i]? = some slot →
            ∃ value, ctx.stack.readLocal slot = .ok value ∧ c₂.capture i = .ok value) ∧
          ∀ i, slots.length ≤ i → c₂.capture i = .error (.captureCountMismatch i slots.length) := by
  obtain ⟨block, values, rfl, hvalues, hp⟩ := Mutator.makeClosure_creates hr.wellFormed hmake
  have hread := Mutator.readLocals_forall₂ hvalues
  have hmade : (Event.act (.makeClosure flavour code slots)).run.run.run ctx = .ok (.ok (), c) :=
    Event.run_eq_ok (bind_map_left ..) hmake
  have hr' : Reachable config c := .step _ hr hmade
  refine ⟨block, rfl, fun events htargets hkept => ?_⟩
  have hlater : (c.after events).heap.payload? block = some (.captures values) := by
    obtain ⟨q, hq, _, _, hsame⟩ := (hr'.kept_after events hp).resolve_right hkept
    rw [hq, hsame htargets rfl]
  have hr'' := hr'.after events
  obtain ⟨activation, c₀, henter⟩ :=
    Mutator.enter_ok_iff.mpr ⟨flavour, code, block, values, rfl, hlater⟩
  refine ⟨⟨activation, c₀, henter⟩, ?_⟩
  intro args r c₁ frames c₂ hcall hbody
  have hentered : c₁.heap = (c.after events).heap ∧ c₁.captures = block :: (c.after events).captures := by
    have hpush : (Mutator.pushAll args).run.run c₀ = .ok (r, c₁) := by
      rwa [Event.run, Mutator.run_bind, henter] at hcall
    obtain ⟨block', _, hclosure, _, rfl, _⟩ := Mutator.call_begins henter hpush
    obtain ⟨_, _, rfl⟩ := Node.closure.inj hclosure
    exact ⟨rfl, rfl⟩
  obtain ⟨hw₁, ht₁⟩ := Event.leaves_sound _ hr''.wellFormed hr''.tidy _ _ hcall
  have hcaptures : c₂.captures = block :: (c.after events).captures :=
    (hbody.sound hw₁ ht₁).2.2.trans hentered.2
  have hp₂ := hbody.keeps_payload hw₁ ht₁ (by simp [hentered.2]) (by rw [hentered.1, hlater]) rfl
  have hlength : values.length = slots.length := hread.length_eq.symm
  refine ⟨hlength ▸ Context.captureCount_eq hcaptures hp₂, fun i slot hslot => ?_, fun i hi => ?_⟩
  · obtain ⟨hi, rfl⟩ := List.getElem?_eq_some_iff.mp hslot
    have hi' : i < values.length := by omega
    refine ⟨values[i], hread.get hi hi', ?_⟩
    rw [Context.capture_eq hcaptures hp₂, List.getElem?_eq_getElem hi']
  · rw [Context.capture_eq hcaptures hp₂, List.getElem?_eq_none (by omega), hlength]

/-- The slots of this closure are written over and its block is promoted before the call, and the code
of the call collects once more. -/
theorem captures_are_snapshots_overwritten_slots :
    ∃ start c c₁ c₂ : Context, Context.ofConfig { arenaBytes := 160, stackSlots := 8 } = .ok start ∧
      (Mutator.makeClosure .value 0 [1, 0, 1]).run.run
        (start.after [.act (.push (.integer 7)), .act (.push (.integer 8))]) =
          .ok (.ok (.closure .value 0 ⟨0, 1⟩), c) ∧
      (Event.call (.closure .value 0 ⟨0, 1⟩) []).run.run.run
        (c.after [.act (.writeLocal (0 : Nat) (.closure .value 0 ⟨0, 1⟩)), .act .collect]) =
          .ok (.ok (), c₁) ∧
      (Event.act .collect).run.run.run c₁ = .ok (.ok (), c₂) ∧ c₂.captureCount = .ok 3 ∧
      c₂.capture 1 = .ok (.integer 7) ∧ c₂.capture 3 = .error (.captureCountMismatch 3 3) := by
  obtain ⟨start, hstart, hseven, hcheck⟩ : ∃ start,
      Context.ofConfig { arenaBytes := 160, stackSlots := 8 } = .ok start ∧
      (start.after [.act (.push (.integer 7)), .act (.push (.integer 8))]).stack.readLocal 0 =
        .ok (.integer 7) ∧
      ((Mutator.makeClosure .value 0 [1, 0, 1]).run.run
        (start.after [.act (.push (.integer 7)), .act (.push (.integer 8))])).toOption.any (fun p =>
          p.1 = .ok (.closure .value 0 ⟨0, 1⟩) ∧
          p.2.pins ⟨0, 1⟩ [.act (.writeLocal (0 : Nat) (.closure .value 0 ⟨0, 1⟩)), .act .collect] ∧
          ((Event.call (.closure .value 0 ⟨0, 1⟩) []).run.run.run (p.2.after
            [.act (.writeLocal (0 : Nat) (.closure .value 0 ⟨0, 1⟩)), .act .collect])).toOption.any
              (fun p₁ => p₁.1 = .ok () ∧
                ((Event.act .collect).run.run.run p₁.2).toOption.any fun p₂ => p₂.1 = .ok ())) = true :=
    ⟨_, rfl, by cbv, by cbv⟩
  have hr := (Reachable.start hstart).after [.act (.push (.integer 7)), .act (.push (.integer 8))]
  obtain ⟨⟨made, c⟩, hmake, hcheck⟩ := exists_ok_of_any hcheck
  obtain ⟨rfl, hpins, hcheck⟩ := of_decide_eq_true hcheck
  obtain ⟨⟨called, c₁⟩, hcall, hcheck⟩ := exists_ok_of_any hcheck
  obtain ⟨rfl, hcheck⟩ := of_decide_eq_true hcheck
  obtain ⟨⟨collected, c₂⟩, hcollect, hcheck⟩ := exists_ok_of_any hcheck
  obtain rfl := of_decide_eq_true hcheck
  obtain ⟨block, hclosure, hsnapshot⟩ := captures_are_snapshots hr hmake
  obtain ⟨_, _, rfl⟩ := Node.closure.inj hclosure
  obtain ⟨_, hinside⟩ := hsnapshot _ (by simp [Event.target?, Action.target?])
    (Context.not_loses_of_pins hpins)
  obtain ⟨hcount, hvalue, hbeyond⟩ := hinside [] _ c₁ _ c₂ hcall
    (.step (.act .collect) rfl (by simp [Event.target?, Action.target?]) hcollect (.done _ c₂))
  obtain ⟨value, hread, hcapture⟩ := hvalue 1 0 rfl
  rw [hseven] at hread
  obtain rfl := Except.ok.inj hread
  exact ⟨start, c, c₁, c₂, hstart, hmake, hcall, hcollect, hcount, hcapture, hbeyond 3 (Nat.le_refl 3)⟩

end GenerationalHeap
