import GenerationalHeap.Proofs.Moves
import GenerationalHeap.Proofs.Chains

namespace GenerationalHeap

/-- Faults that only a broken heap could cause, as opposed to a mistake of the running program. -/
def Fault.Internal : Fault → Prop
  | .doubleRelease _ | .zeroRange _ | .sumOverflow => True
  | .danglingReference _ | .framesOutOfOrder | .endlessChain | .callDepth => False

/-- The context in which a request is served: the one it met, or the one a collection made of it. -/
def Context.Yielded (c c' : Context) : Prop :=
  c' = c ∨ ∃ record, c.collect .arenaExhausted = .ok (record, c')

namespace Mutator

variable {α β : Type} {n : Nat}

theorem run_placeYoung (ctx : Context) (payload : Payload) (size : Nat) :
    (placeYoung payload size).run.run ctx =
      match ctx.heap.allocateYoung? payload size with
      | some (h, heap) => .ok (.ok (some h), { ctx with heap })
      | none => .ok (.ok none, ctx) := by
  rw [placeYoung, run_bind, run_get]
  simp only
  cases ctx.heap.allocateYoung? payload size <;> rfl

theorem run_mayCollectFor (ctx : Context) (size : Nat) :
    (mayCollectFor size).run.run ctx =
      .ok (.ok (decide (ctx.inhibitDepth = 0 ∧ size ≤ ctx.heap.arena.capacity)), ctx) := rfl

section Placing

variable (ctx : Context) (kind : PayloadKind) (count size : Nat)

/-- What finding a place for a block comes to. -/
def Placed (r : Except RuntimeError Handle) (c : Context) : Prop :=
  ∃ h c₁, r = .ok h ∧ ctx.Yielded c₁ ∧ c₁.Served kind count h (c.counted h)

theorem limit_yielded (hr : requestSize ctx.config.maxAllocationBytes kind count = .ok size)
    (c : Context) (hy : ctx.Yielded c) :
    requestSize c.config.maxAllocationBytes kind count = .ok size := by
  rcases hy with rfl | ⟨record, hc⟩
  · exact hr
  · rw [(Context.collect_frame _ _ hc).2.2.2.1]
    exact hr

theorem placeOld_ends (hr : requestSize ctx.config.maxAllocationBytes kind count = .ok size)
    (c : Context) (hy : ctx.Yielded c) (broken : Fault → Prop) :
    (placeOld (.fresh kind count) size).Ends c (Placed ctx kind count) broken :=
  ⟨_, c, rfl, hy, .old (limit_yielded ctx kind count size hr c hy) rfl⟩

theorem placeYoung_ends (hr : requestSize ctx.config.maxAllocationBytes kind count = .ok size)
    (c : Context) (hy : ctx.Yielded c) (broken : Fault → Prop) :
    (placeYoung (.fresh kind count) size).Ends c
      (fun r c' => (r = .ok none ∧ c' = c) ∨ ∃ h, r = .ok (some h) ∧ Placed ctx kind count (.ok h) c')
      broken := by
  unfold Ends
  rw [run_placeYoung]
  cases ha : c.heap.allocateYoung? (.fresh kind count) size with
  | none => exact .inl ⟨rfl, rfl⟩
  | some p =>
    have hlimit := limit_yielded ctx kind count size hr c hy
    exact .inr ⟨p.1, rfl, p.1, c, rfl, hy, .young hlimit ha⟩

/-- The attempt after a collection. -/
theorem retry_ends (hr : requestSize ctx.config.maxAllocationBytes kind count = .ok size)
    (broken : Fault → Prop) (hb : ∀ why, ctx.collect .arenaExhausted = .error why → broken why) :
    (do
      let _ ← collectWith .arenaExhausted
      match ← placeYoung (.fresh kind count) size with
      | some h => return h
      | none => placeOld (.fresh kind count) size : Mutator Handle).Ends ctx
      (Placed ctx kind count) broken := by
  rw [ends_bind]
  unfold Ends
  rw [run_collectWith]
  cases hc : ctx.collect .arenaExhausted with
  | error why => exact hb why hc
  | ok p =>
    obtain ⟨record, c⟩ := p
    have hy : ctx.Yielded c := .inr ⟨record, hc⟩
    simp only [After]
    rw [ends_bind]
    apply ends_mono (placeYoung_ends ctx kind count size hr c hy broken) _ (fun _ h => h)
    intro r c' hplaced
    rcases hplaced with ⟨rfl, rfl⟩ | ⟨h, rfl, hp⟩
    · exact placeOld_ends ctx kind count size hr c' hy broken
    · exact hp

theorem place_ends (hr : requestSize ctx.config.maxAllocationBytes kind count = .ok size) :
    (place (.fresh kind count) size).Ends ctx (Placed ctx kind count)
      (fun why => ctx.collect .arenaExhausted = .error why) := by
  rw [place, ends_bind]
  apply ends_mono (placeYoung_ends ctx kind count size hr ctx (.inl rfl) _) _ (fun _ h => h)
  intro r c hplaced
  rcases hplaced with ⟨rfl, rfl⟩ | ⟨h, rfl, hp⟩
  · simp only [After]
    rw [ends_bind]
    by_cases hmay : c.inhibitDepth = 0 ∧ size ≤ c.heap.arena.capacity
    · unfold Ends
      rw [run_mayCollectFor, decide_eq_true hmay]
      exact retry_ends c kind count size hr _ (fun _ h => h)
    · unfold Ends
      rw [run_mayCollectFor, decide_eq_false hmay]
      exact placeOld_ends c kind count size hr c (.inl rfl) fun why => c.collect .arenaExhausted = .error why
  · exact hp

end Placing

/-- What an allocation comes to: a request that is refused changes nothing, any other is served. -/
def Allocated (ctx : Context) (kind : PayloadKind) (count : Nat) (r : Except RuntimeError Handle)
    (c : Context) : Prop :=
  (∃ e, r = .error e ∧ c = ctx ∧ requestSize ctx.config.maxAllocationBytes kind count = .error e) ∨
    ∃ h c₁, r = .ok h ∧ ctx.Yielded c₁ ∧ c₁.Served kind count h c

theorem allocate_ends (ctx : Context) (kind : PayloadKind) (count : Nat) :
    (allocate kind count).Ends ctx (Allocated ctx kind count)
      (fun why => ctx.collect .arenaExhausted = .error why) := by
  rw [allocate, ends_bind]
  unfold Ends
  rw [run_read]
  cases hr : requestSize ctx.config.maxAllocationBytes kind count with
  | error e => exact .inl ⟨e, rfl, rfl, hr⟩
  | ok size =>
    simp only [After]
    rw [ends_bind]
    apply ends_mono (place_ends ctx kind count size hr) _ (fun _ h => h)
    intro r c hplaced
    obtain ⟨h, c₁, rfl, hy, hs⟩ := hplaced
    exact .inr ⟨h, c₁, rfl, hy, hs⟩

/-- On a well-formed heap the operation is a sequence of elementary changes with at most `n`
collections among them, and a fault of it is a mistake of the program. -/
def Traced (n : Nat) (m : Mutator α) : Prop :=
  ∀ ctx, ctx.heap.WellFormed →
    m.Ends ctx (fun _ c => ∃ k, k ≤ n ∧ Moves k ctx c) (fun why => ¬ why.Internal)

section Traced

variable {m : Mutator α} {k : Nat}

theorem Traced.mono (hm : m.Traced n) (hnk : n ≤ k) : m.Traced k := by
  intro ctx hw
  apply ends_mono (hm ctx hw) _ (fun _ h => h)
  intro r c htraced
  obtain ⟨j, hj, hmoves⟩ := htraced
  exact ⟨j, Nat.le_trans hj hnk, hmoves⟩

theorem Traced.bind {f : α → Mutator β} (hm : m.Traced n) (hf : ∀ a, (f a).Traced k) :
    (m >>= f).Traced (n + k) := by
  intro ctx hw
  rw [ends_bind]
  apply ends_mono (hm ctx hw) _ (fun _ h => h)
  intro r c htraced
  obtain ⟨i, hi, hfirst⟩ := htraced
  cases r with
  | error e => exact ⟨i, by omega, hfirst⟩
  | ok a =>
    apply ends_mono (hf a c (hfirst.wellFormed hw)) _ (fun _ h => h)
    intro r c' htraced'
    obtain ⟨j, hj, hrest⟩ := htraced'
    exact ⟨i + j, by omega, hfirst.trans hrest⟩

/-- An operation of one elementary change. -/
theorem traced_of_move (h : ∀ ctx, m.Ends ctx (fun _ c => c = ctx ∨ Move 0 ctx c)
    (fun why => ¬ why.Internal)) : m.Traced 0 := by
  intro ctx _
  apply ends_mono (h ctx) _ (fun _ h => h)
  intro r c hstep
  rcases hstep with rfl | hmove
  · exact ⟨0, Nat.le_refl 0, .refl c⟩
  · exact ⟨0, Nat.le_refl 0, hmove.once⟩

theorem traced_read (ask : Context → Except RuntimeError α) : (read ask).Traced 0 :=
  traced_of_move fun _ => .inl rfl

theorem traced_ofExcept (r : Except RuntimeError α) : (ofExcept r).Traced 0 :=
  traced_of_move fun _ => .inl rfl

theorem traced_pure (a : α) : (pure a : Mutator α).Traced 0 := traced_ofExcept (.ok a)

theorem Traced.map (hm : m.Traced n) (f : α → β) : (f <$> m).Traced n := by
  rw [← bind_pure_comp]
  exact hm.bind fun a => traced_pure (f a)

theorem traced_onStack (f : ValueStack → Except RuntimeError (α × ValueStack))
    (hf : ∀ s a s', f s = .ok (a, s') → ∃ new, s.Turn new s') : (onStack f).Traced 0 := by
  apply traced_of_move
  intro ctx
  unfold Ends
  rw [run_onStack]
  cases hs : f ctx.stack with
  | error e => exact .inl rfl
  | ok p =>
    obtain ⟨new, hturn⟩ := hf _ _ _ hs
    exact .inr (.stack ctx new p.2 hturn)

theorem traced_updateStack (f : ValueStack → Except RuntimeError ValueStack)
    (hf : ∀ s s', f s = .ok s' → ∃ new, s.Turn new s') : (updateStack f).Traced 0 := by
  apply traced_onStack
  intro s a s' hs
  cases hfs : f s with
  | error e => simp [hfs, Except.map] at hs
  | ok s₁ =>
    simp only [hfs, Except.map, Except.ok.injEq, Prod.mk.injEq] at hs
    obtain rfl := hs.2
    exact hf s s₁ hfs

theorem popFrame_error (s : ValueStack) (frame : Frame) (why : Fault)
    (h : s.popFrame frame = .error why) : why = .framesOutOfOrder := by
  unfold ValueStack.popFrame at h
  split at h
  · exact (Except.error.inj h).symm
  · simp at h

theorem traced_popFrame (frame : Frame) : (popFrame frame).Traced 0 := by
  apply traced_of_move
  intro ctx
  unfold Ends
  rw [run_popFrame]
  cases hp : ctx.stack.popFrame frame with
  | error why =>
    obtain rfl := popFrame_error _ _ _ hp
    exact id
  | ok s => exact .inr (.stack ctx [] s (ValueStack.turn_popFrame _ _ _ hp))

theorem Traced.scratch (hm : m.Traced n) : (scratch m).Traced n := by
  intro ctx hw
  unfold Ends
  rw [run_scratch]
  have hframe : Moves 0 ctx { ctx with stack := ctx.stack.pushFrame.2 } :=
    (Move.stack ctx [] _ (ValueStack.turn_pushFrame ctx.stack)).once
  have hrun := hm { ctx with stack := ctx.stack.pushFrame.2 } hw
  cases ho : m.run.run { ctx with stack := ctx.stack.pushFrame.2 } with
  | error why => exact ends_of_error hrun ho
  | ok p =>
    obtain ⟨r, c⟩ := p
    obtain ⟨j, hj, hmoves⟩ := ends_of_ok hrun ho
    simp only
    cases hp : c.stack.popFrame ctx.stack.pushFrame.1 with
    | error why =>
      obtain rfl := popFrame_error _ _ _ hp
      exact id
    | ok s =>
      have hlast : Moves 0 c { c with stack := s } :=
        (Move.stack c [] s (ValueStack.turn_popFrame _ _ _ hp)).once
      refine ⟨j, hj, ?_⟩
      simpa using (hframe.trans hmoves).trans hlast

end Traced

theorem traced_modifyRoots (f : RootRegistry → RootRegistry) :
    (modify fun ctx => { ctx with roots := f ctx.roots } : Mutator Unit).Traced 0 :=
  traced_of_move fun ctx => .inr (.roots ctx (f ctx.roots))

theorem traced_registerRoot (node : Node) : (registerRoot node).Traced 0 :=
  traced_of_move fun ctx => .inr (.roots ctx (ctx.roots.register node).2)

theorem traced_unregisterRoot (id : RootId) : (unregisterRoot id).Traced 0 := by
  refine Traced.bind (n := 0) (k := 0) (traced_read _) ?_
  intro found
  obtain ⟨node, roots⟩ := found
  exact (traced_modifyRoots fun _ => roots).bind fun _ => traced_pure node

theorem traced_setRoot (id : RootId) (node : Node) : (setRoot id node).Traced 0 :=
  (traced_read _).bind fun roots => traced_modifyRoots fun _ => roots

theorem traced_modifyObjects (h : Handle) (f : Array Node → Array Node)
    (hf : ∀ nodes, (f nodes).size = nodes.size) : (modifyObjects h f).Traced 0 := by
  apply traced_of_move
  intro ctx
  unfold Ends
  rw [run_modifyObjects, Heap.modifyObjects]
  cases ho : ctx.heap.objects h with
  | error e => exact .inl rfl
  | ok nodes => exact .inr (.write ctx h _ (.objects (f nodes)) (Heap.objects_eq_ok.mp ho) rfl (hf nodes))

theorem collect_fault (ctx : Context) (hw : ctx.heap.WellFormed) (trigger : Trigger) (why : Fault)
    (hc : ctx.collect trigger = .error why) : ¬ why.Internal := by
  rcases ctx.collect_cases hw trigger with ⟨x, hfault, _⟩ | ⟨_, _, _, _, _, _, hok⟩
  · rw [hfault] at hc
    obtain rfl := Except.error.inj hc
    exact id
  · rw [hok] at hc
    simp at hc

theorem traced_collectWith (trigger : Trigger) : (collectWith trigger).Traced 1 := by
  intro ctx hw
  unfold Ends
  rw [run_collectWith]
  cases hc : ctx.collect trigger with
  | error why => exact collect_fault ctx hw trigger why hc
  | ok p => exact ⟨1, Nat.le_refl 1, (Move.collect ctx trigger p.1 p.2 hc).once⟩

theorem traced_checkpoint : checkpoint.Traced 1 := by
  intro ctx hw
  rw [checkpoint, ends_bind]
  by_cases hif : ctx.inhibitDepth = 0 ∧ ctx.config.condition ctx.collectInfo
  · show Ends (if _ then _ else _) ctx _ _
    rw [if_pos hif]
    exact (traced_collectWith .checkpoint).bind (fun _ => traced_pure _) ctx hw
  · show Ends (if _ then _ else _) ctx _ _
    rw [if_neg hif]
    exact (traced_pure _).mono (Nat.zero_le 1) ctx hw

theorem moves_of_yielded {c c₁ : Context} (hy : c.Yielded c₁) : ∃ k, k ≤ 1 ∧ Moves k c c₁ := by
  rcases hy with rfl | ⟨record, hc⟩
  · exact ⟨0, Nat.zero_le 1, .refl c₁⟩
  · exact ⟨1, Nat.le_refl 1, (Move.collect c .arenaExhausted record c₁ hc).once⟩

/-- An allocation followed by work that relies on what was allocated. -/
theorem traced_allocate_bind (kind : PayloadKind) (count : Nat) (f : Handle → Mutator β)
    (hf : ∀ h ctx, ctx.heap.WellFormed → ctx.heap.payload? h = some (.fresh kind count) →
      (f h).Ends ctx (fun _ c => ∃ k, k ≤ n ∧ Moves k ctx c) (fun why => ¬ why.Internal)) :
    (allocate kind count >>= f).Traced (1 + n) := by
  intro ctx hw
  rw [ends_bind]
  apply ends_mono (allocate_ends ctx kind count) _ (fun why => collect_fault ctx hw _ why)
  intro r c hallocated
  rcases hallocated with ⟨e, rfl, rfl, _⟩ | ⟨h, c₁, rfl, hy, hs⟩
  · exact ⟨0, Nat.zero_le _, .refl c⟩
  · obtain ⟨k, hk, hyield⟩ := moves_of_yielded hy
    have hw₁ := hyield.wellFormed hw
    have hserved : Moves k ctx c := by simpa using hyield.trans (Move.serve _ _ _ _ _ hs).once
    apply ends_mono (hf h c (hserved.wellFormed hw) (by simp [hs.payload? hw₁])) _ (fun _ h => h)
    intro r c' htraced
    obtain ⟨j, hj, hrest⟩ := htraced
    exact ⟨k + j, by omega, hserved.trans hrest⟩

theorem traced_allocate (kind : PayloadKind) (count : Nat) : (allocate kind count).Traced 1 := by
  have h := traced_allocate_bind kind count (fun h => pure h) fun h ctx hw _ => traced_pure h ctx hw
  rwa [bind_pure] at h

theorem traced_newString (text : String) : (newString text).Traced 1 := by
  refine traced_allocate_bind (n := 0) .bytes (Utf8.encode text).size _ ?_
  intro h ctx hw hfresh
  rw [ends_bind]
  unfold Ends
  rw [run_modifyBytes, Heap.modifyBytes, Heap.bytes_eq_ok.mpr hfresh]
  have hmove := Move.write ctx h _ (.bytes (Utf8.encode text)) hfresh rfl (by simp [Payload.fresh, Payload.count])
  exact ⟨0, Nat.le_refl 0, hmove.once⟩

theorem traced_toText (node : Node) : (toText node).Traced 1 := by
  have hother : ∀ node, (read (·.heap.render node) >>= newString).Traced 1 := fun node =>
    (traced_read _).bind fun text => traced_newString text
  cases node with
  | string length handle => exact (traced_pure _).mono (Nat.zero_le 1)
  | undefined => exact hother _
  | pointer target => exact hother _
  | scalar value => exact hother _
  | closure flavour code captures => exact hother _
  | cell cell => exact hother _

theorem traced_makeCaptures (slots : List Nat) : (makeCaptures slots).Traced 1 := by
  refine Traced.bind (n := 0) (k := 1) (traced_read _) ?_
  intro values
  refine traced_allocate_bind (n := 0) .objects (values.length + 1) _ ?_
  intro h ctx hw hfresh
  rw [ends_bind]
  unfold Ends
  rw [run_modifyObjects, Heap.modifyObjects, Heap.objects_eq_ok.mpr hfresh]
  have hmove := Move.write ctx h _ (.objects (.ofCount values.length :: values).toArray) hfresh rfl
    (by simp [Payload.fresh, Payload.count])
  exact ⟨0, Nat.le_refl 0, hmove.once⟩

theorem traced_readChain (ask : Heap → ChainReader α) (good : α → Prop)
    (hask : ∀ heap, Heap.Walked good (fun _ => True) (ask heap).run) : (readChain ask).Traced 0 := by
  apply traced_of_move
  intro ctx
  unfold Ends
  rw [run_readChain]
  have h := hask ctx.heap
  cases ho : (ask ctx.heap).run with
  | ok r => exact .inl rfl
  | error why =>
    rw [ho] at h
    obtain rfl : why = .endlessChain := h
    exact id

theorem traced_walkList (visit : Heap → Handle → Cell → Except RuntimeError α) (list : Node) :
    (readChain fun heap => heap.walkList (visit heap) list).Traced 0 :=
  traced_readChain _ _ fun heap => heap.walkList_walked (visit heap) (fun _ => True) (fun _ => True) list
    (fun _ _ => trivial) fun h _ => heap.walk_plain (visit heap) _ h

theorem traced_listLength (list : Node) : (readChain (·.listLength list)).Traced 0 :=
  traced_readChain _ (fun _ => True) fun heap =>
    (heap.walkList_walked _ (fun _ => True) (fun _ => True) list (fun _ _ => trivial) fun h _ =>
      heap.walk_plain _ _ h).map _ fun _ _ => trivial

theorem traced_lastCell (first : Handle) : (readChain (·.lastCell first)).Traced 0 :=
  traced_readChain _ (fun _ => True) fun heap =>
    heap.lastCell_walked _ _ first (heap.walk_plain _ _ first)

theorem traced_push (node : Node) : (push node).Traced 0 :=
  traced_updateStack _ fun s s' h => ⟨[node], ValueStack.turn_push s s' node h⟩

theorem traced_pushFrame : pushFrame.Traced 0 := by
  apply traced_onStack
  intro s a s' h
  obtain rfl : s.pushFrame.2 = s' := congrArg Prod.snd (Except.ok.inj h)
  exact ⟨[], ValueStack.turn_pushFrame s⟩

theorem traced_getObject (h : Handle) (index : Nat) : (getObject h index).Traced 0 := by
  refine Traced.bind (n := 0) (k := 0) (traced_read _) fun nodes => ?_
  cases nodes[index]? <;> exact traced_pure _

theorem traced_getBytes (h : Handle) (start length : Option Nat) :
    (getBytes h start length).Traced 0 := by
  refine Traced.bind (n := 0) (k := 0) (traced_read _) fun data => ?_
  cases slice? data (start.getD 0) length <;> exact traced_pure _

theorem traced_setObject (h : Handle) (index : Nat) (node : Node) :
    (setObject h index node).Traced 0 := by
  refine Traced.bind (n := 0) (k := 0) (traced_read _) fun nodes => ?_
  by_cases hi : index < nodes.size
  · rw [if_pos hi]
    exact (traced_modifyObjects h _ fun nodes => by simp).bind fun _ => traced_pure _
  · rw [if_neg hi]
    exact traced_pure _

theorem size_overwrite (data patch : Array UInt8) (start : Nat) (h : start + patch.size ≤ data.size) :
    (overwrite data start patch).size = data.size := by
  simp only [overwrite, Array.size_append, Array.size_extract]
  omega

/-- Bytes are overwritten within their allocation, which keeps its length. -/
theorem traced_setBytes (h : Handle) (start : Nat) (patch : Array UInt8) :
    (setBytes h start patch).Traced 0 := by
  apply traced_of_move
  intro ctx
  rw [setBytes, ends_bind]
  unfold Ends
  rw [bytes, run_read]
  cases hb : ctx.heap.bytes h with
  | error e => exact .inl rfl
  | ok data =>
    show Ends (if _ then _ else _) ctx _ _
    by_cases hle : start + patch.size ≤ data.size
    · rw [if_pos hle, ends_bind]
      unfold Ends
      rw [run_modifyBytes, Heap.modifyBytes, hb]
      exact .inr (.write ctx h _ _ (Heap.bytes_eq_ok.mp hb) rfl (size_overwrite data patch start hle))
    · rw [if_neg hle]
      exact .inl rfl

theorem traced_writeFirst (h : Handle) (node : Node) : (writeFirst h node).Traced 0 :=
  traced_modifyObjects h _ fun nodes => by simp

theorem traced_allocateBox (value : Node) : (allocateBox value).Traced 1 := by
  apply Traced.scratch
  refine Traced.bind (n := 0) (k := 1) (traced_push value) fun _ => ?_
  refine Traced.bind (n := 1) (k := 0) (traced_allocate .objects 1) fun target => ?_
  exact (traced_writeFirst target value).bind fun _ => traced_pure target

theorem traced_makeHead (value : Node) : (makeHead value).Traced 1 := by
  have hboxed : ∀ value, (do
      let box ← allocateBox value
      push (.ref box)
      return Head.boxed box : Mutator Head).Traced 1 := fun value =>
    (traced_allocateBox value).bind fun box => (traced_push (.ref box)).bind fun _ => traced_pure _
  cases value with
  | scalar value => exact (traced_pure _).mono (Nat.zero_le 1)
  | undefined | pointer | string | closure | cell => exact hboxed _

theorem traced_linkLast (first link : Handle) : (linkLast first link).Traced 0 :=
  (traced_lastCell first).bind fun last => traced_modifyObjects last _ fun nodes => by simp

/-- Appending allocates twice: a box for the value, then the cell. -/
theorem traced_append (list value : Node) : (append list value).Traced 2 := by
  refine Traced.bind (n := 0) (k := 2) (traced_read _) fun first => Traced.scratch ?_
  refine Traced.bind (n := 0) (k := 2) (traced_push list) fun _ => ?_
  refine Traced.bind (n := 0) (k := 2) (traced_push value) fun _ => ?_
  refine Traced.bind (n := 1) (k := 1) (traced_makeHead value) fun head => ?_
  refine Traced.bind (n := 1) (k := 0) (traced_allocate .objects 1) fun link => ?_
  refine Traced.bind (n := 0) (k := 0) (traced_writeFirst link _) fun _ => ?_
  cases first with
  | none => exact traced_pure _
  | some p => exact (traced_linkLast p.1 link).bind fun _ => traced_pure list

end Mutator

open Mutator in
/-- Every operation is a sequence of elementary changes with at most two collections among them. -/
theorem Action.traced (action : Action Operands.resolved) : action.run.Traced 2 := by
  have hsilent : ∀ {m : Mutator Unit} {n : Nat}, m.Traced n → (silently m).Traced n := fun hm =>
    hm.bind fun _ => traced_pure _
  have hget : ∀ f : Context → Answer, (ask f).Traced 0 := fun f =>
    traced_of_move fun _ => .inl rfl
  cases action with
  | push node => exact (hsilent (traced_push node)).mono (by omega)
  | pop =>
    apply Traced.mono (n := 0) _ (by omega)
    exact (traced_onStack _ fun s a s' h => ⟨[], ValueStack.turn_pop s s' a h⟩).map _
  | writeLocal index node =>
    apply Traced.mono (n := 0) _ (by omega)
    exact hsilent (traced_updateStack _ fun s s' h =>
      ⟨[node], ValueStack.turn_writeLocal s s' index node h⟩)
  | reserve count =>
    apply Traced.mono (n := 0) _ (by omega)
    exact hsilent (traced_updateStack _ fun s s' h => ⟨[], ValueStack.turn_reserve s s' count h⟩)
  | drop count =>
    apply Traced.mono (n := 0) _ (by omega)
    exact hsilent (traced_updateStack _ fun s s' h => ⟨[], ValueStack.turn_drop s s' count h⟩)
  | pushFrame => exact (traced_pushFrame.map _).mono (by omega)
  | popFrame frame => exact (hsilent (traced_popFrame frame)).mono (by omega)
  | allocateBytes count | allocateObjects count =>
    exact ((traced_allocate _ count).map _).mono (by omega)
  | peek | readLocal | objects | getRoot | capture | captureCount | stringBytes | stringText
  | describe | unbox | car | cdr => exact ((traced_read _).map _).mono (by omega)
  | getObject h index => exact (traced_getObject h index).mono (by omega)
  | setObject h index node => exact (traced_setObject h index node).mono (by omega)
  | bytes h start length => exact (traced_getBytes h start length).mono (by omega)
  | setBytes h start data => exact (traced_setBytes h start data).mono (by omega)
  | collect => exact ((traced_collectWith .explicit).map _).mono (by omega)
  | checkpoint => exact (traced_checkpoint.map _).mono (by omega)
  | lastCollection | collectInfo | totals | config | arena | allocation =>
    exact (hget _).mono (by omega)
  | registerRoot node => exact ((traced_registerRoot node).map _).mono (by omega)
  | unregisterRoot id => exact ((traced_unregisterRoot id).map _).mono (by omega)
  | setRoot id node => exact (hsilent (traced_setRoot id node)).mono (by omega)
  | makeCaptures slots => exact ((traced_makeCaptures slots).map _).mono (by omega)
  | makeClosure flavour code slots =>
    exact (((traced_makeCaptures slots).bind fun h =>
      traced_pure (Node.closure flavour code h)).map _).mono (by omega)
  | value | inspect | same | isA | emptyList => exact (traced_pure _).mono (by omega)
  | newString text times => exact ((traced_newString _).map _).mono (by omega)
  | toText node => exact ((traced_toText node).map _).mono (by omega)
  | boxValue node =>
    exact (((traced_allocateBox node).bind fun h => traced_pure (Node.ref h)).map _).mono (by omega)
  | append list item => exact (traced_append list item).map _
  | listElements list => exact ((traced_walkList _ list).map _).mono (by omega)
  | listLength list => exact ((traced_listLength list).map _).mono (by omega)

end GenerationalHeap
