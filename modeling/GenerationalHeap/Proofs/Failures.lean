import GenerationalHeap.Proofs.Spared

namespace GenerationalHeap

namespace Mutator

/-- The operations that make a value out of new allocations. -/
inductive Makes : {α : Type} → Mutator α → Prop
  | newString (text : String) : Makes (newString text)
  | toText (node : Node) : Makes (toText node)
  | boxValue (value : Node) : Makes (boxValue value)
  | append (list value : Node) : Makes (append list value)
  | makeCaptures (slots : List Nat) : Makes (makeCaptures slots)
  | makeClosure (flavour : Flavour) (code : Nat) (slots : List Nat) : Makes (makeClosure flavour code slots)

/-- An error has left the stack and all that was met and is still there as it was. -/
def Undone {α : Type} (a : Context) (r : Except RuntimeError α) (c : Context) : Prop :=
  ∀ e, r = .error e → a.Spares 2 c ∧ c.stack = a.stack

variable {α β : Type} {a c : Context}

theorem undone_ok (x : α) : Undone a (.ok x) c := by
  intro e he
  simp at he

theorem undone_same (hw : a.heap.WellFormed) (r : Except RuntimeError α) : Undone a r a :=
  fun _ _ => ⟨(Context.spares_refl hw).mono (by omega), rfl⟩

/-- What only computes its answer from that of another operation fails as that one does. -/
theorem undone_map {m : Mutator α} (hm : m.Leaves a (Undone a)) (f : α → β) :
    (m >>= fun x => pure (f x)).Leaves a (Undone a) := by
  refine hm.bind ?_ ?_
  · intro e c hundone _ _
    exact hundone e rfl
  · intro x c _
    exact leaves_pure _ (undone_ok _)

theorem newString_undone (text : String) (hw : a.heap.WellFormed) :
    (newString text).Leaves a (Undone a) := by
  refine leaves_build (.bytes (Utf8.encode text)) (Context.spares_refl hw) (by omega)
    rfl rfl ?_ (fun e => undone_same hw _) ?_
  · intro h c hp
    rw [run_modifyBytes, Heap.modifyBytes, Heap.bytes_eq_ok.mpr hp]
    rfl
  · intro h c _ _ _ _ _
    exact leaves_pure _ (undone_ok _)

theorem toText_undone (node : Node) (hw : a.heap.WellFormed) : (toText node).Leaves a (Undone a) := by
  have hrendered : (read (fun ctx => ctx.heap.render node) >>= newString).Leaves a (Undone a) :=
    leaves_read_bind (fun e => undone_same hw _) fun text _ => newString_undone text hw
  cases node with
  | string length handle => exact leaves_pure _ (undone_ok _)
  | undefined | scalar | pointer | closure | cell => exact hrendered

theorem boxValue_undone (value : Node) (hw : a.heap.WellFormed) (ht : a.stack.Tidy) :
    (boxValue value).Leaves a (Undone a) := by
  apply undone_map
  refine (allocateBox_spares value (Context.spares_refl hw) (by omega) ht).mono ?_
  intro r c hallocated
  rcases hallocated with ⟨e, rfl, rfl⟩ | ⟨box, rfl, _⟩
  · exact undone_same hw _
  · exact undone_ok _

theorem makeCaptures_undone (slots : List Nat) (hw : a.heap.WellFormed) :
    (makeCaptures slots).Leaves a (Undone a) := by
  refine leaves_read_bind (fun e => undone_same hw _) fun values _ => ?_
  refine leaves_build (.objects (.ofCount values.length :: values).toArray)
    (Context.spares_refl hw) (by omega) rfl (by simp [Payload.count]) ?_ (fun e => undone_same hw _) ?_
  · intro h c hp
    rw [run_modifyObjects, Heap.modifyObjects, Heap.objects_eq_ok.mpr hp]
    rfl
  · intro h c _ _ _ _ _
    exact leaves_pure _ (undone_ok _)

theorem Makes.undone {m : Mutator α} (hm : Makes m) (hw : a.heap.WellFormed) (ht : a.stack.Tidy) :
    m.Leaves a (Undone a) := by
  cases hm with
  | newString text => exact newString_undone text hw
  | toText node => exact toText_undone node hw
  | boxValue value => exact boxValue_undone value hw ht
  | append list value =>
    refine (append_attaches list value hw ht).mono ?_
    intro r c hended
    rcases hended with ⟨e, rfl, hs, hstack⟩ | ⟨l, _, _, _, rfl, _⟩
    · exact fun _ _ => ⟨hs, hstack⟩
    · exact undone_ok _
  | makeCaptures slots => exact makeCaptures_undone slots hw
  | makeClosure flavour code slots => exact undone_map (makeCaptures_undone slots hw) _

end Mutator

/-- An operation that fails leaves no trace. The stack, the registered roots, the running closures and the
inhibition of collections are as they were. What was there and has not been reclaimed has its contents,
also where cells were allocated before the end of a malformed list was looked for; so no list has
changed. An allocation that is refused leaves the whole context as it was. -/
theorem failure_leaves_no_trace {config : Config} {ctx : Context} (hr : Reachable config ctx) :
    (∀ (α : Type) (m : Mutator α), Mutator.Makes m → ∀ e c, m.run.run ctx = .ok (.error e, c) →
      c.stack = ctx.stack ∧ (∀ i, ctx.stack.top ≤ i → c.stack.slot i = .undefined) ∧
      c.roots = ctx.roots ∧ c.captures = ctx.captures ∧ c.inhibitDepth = ctx.inhibitDepth ∧
      (∀ h p q, ctx.heap.payload? h = some p → c.heap.payload? h = some q → q = p) ∧
      ∀ list cells, ctx.heap.Links list cells → c.heap.Backs list → c.heap.Links list cells) ∧
    (∀ count e c, (Mutator.allocateBytes count).run.run ctx = .ok (.error e, c) → c = ctx) ∧
    ∀ count e c, (Mutator.allocateObjects count).run.run ctx = .ok (.error e, c) → c = ctx := by
  have hrefused : ∀ kind count e c, (Mutator.allocate kind count).run.run ctx = .ok (.error e, c) →
      c = ctx := by
    intro kind count e c hrun
    rcases Mutator.ends_of_ok (Mutator.allocate_ends ctx kind count) hrun with ⟨_, _, hsame, _⟩ | ⟨_, _, he, _⟩
    · exact hsame
    · simp at he
  refine ⟨?_, hrefused .bytes, hrefused .objects⟩
  intro α m hm e c hrun
  obtain ⟨hs, hstack⟩ := hm.undone hr.wellFormed hr.tidy _ _ hrun e rfl
  refine ⟨hstack, ?_, hs.roots, hs.captures, hs.inhibitDepth, ?_, ?_⟩
  · intro i hi
    rw [hstack]
    exact hr.tidy.above i hi
  · intro h p q hp hq
    have hkept := hs.payload? hp (Heap.live_of_payload? hq)
    exact Option.some.inj (hq.symm.trans hkept)
  · intro list cells hl hb
    exact hs.links hl hb

/-- The second cell of this list is no cell. The append collects, makes a box and a cell and then fails
on its way to the end of the list, of which the first cell is as it was. -/
theorem failure_leaves_no_trace_malformed_list :
    ∃ ctx c nodes, Reachable { arenaBytes := 128, stackSlots := 3 } ctx ∧
      (Mutator.append (.ref ⟨0, 1⟩) .undefined).run.run ctx =
        .ok (.error (.wrongPayload ⟨1, 1⟩ .objects .bytes), c) ∧
      c.totals.allocations = ctx.totals.allocations + 2 ∧
      c.totals.collections = ctx.totals.collections + 1 ∧ c.stack = ctx.stack ∧
      ctx.heap.payload? ⟨0, 1⟩ = some (.objects nodes) ∧
      c.heap.payload? ⟨0, 1⟩ = some (.objects nodes) := by
  have hstart : Reachable { arenaBytes := 128, stackSlots := 3 } _ := .start rfl
  have hr := hstart.after [.act (.append Node.emptyList (Node.integer 1)), .act (.allocateBytes (5 : Nat)),
    .act (.setObject (⟨0, 1⟩ : Handle) (0 : Nat) (Node.cell ⟨.scalar (.integer 1), some ⟨1, 1⟩⟩))]
  generalize hctx : Context.after _ _ = ctx at hr
  have hpayload : ctx.heap.payload? ⟨0, 1⟩ =
      some (.objects #[.cell ⟨.scalar (.integer 1), some ⟨1, 1⟩⟩]) := by
    rw [← hctx]
    cbv
  have hcheck : ((Mutator.append (.ref ⟨0, 1⟩) .undefined).run.run ctx).toOption.any (fun p =>
      p.1 = .error (.wrongPayload ⟨1, 1⟩ .objects .bytes) ∧
        p.2.totals.allocations = ctx.totals.allocations + 2 ∧
        p.2.totals.collections = ctx.totals.collections + 1 ∧ p.2.heap.contains ⟨0, 1⟩) = true := by
    rw [← hctx]
    cbv
  obtain ⟨⟨r, c⟩, hrun, hcheck⟩ := exists_ok_of_any hcheck
  obtain ⟨rfl, hallocations, hcollections, hlive⟩ := of_decide_eq_true hcheck
  obtain ⟨hmakes, _, _⟩ := failure_leaves_no_trace hr
  obtain ⟨hstack, _, _, _, _, hsame, _⟩ := hmakes _ _ (.append _ _) _ _ hrun
  obtain ⟨q, hq⟩ := Heap.live_iff.mp hlive
  obtain rfl := hsame _ _ _ hpayload hq
  exact ⟨ctx, c, _, hr, hrun, hallocations, hcollections, hstack, hpayload, hq⟩

end GenerationalHeap
