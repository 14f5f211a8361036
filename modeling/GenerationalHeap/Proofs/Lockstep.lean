import GenerationalHeap.Proofs.Tracing
import GenerationalHeap.Proofs.Counterparts

namespace GenerationalHeap

/-- The handles were issued by allocations of the same number, in lists that stand latest first. -/
def Twin (issued issued' : List Handle) (h h' : Handle) : Prop :=
  ∃ k : Nat, issued.reverse[k]? = some h ∧ issued'.reverse[k]? = some h'

theorem oneToOne_twin {issued issued' : List Handle} (hn : issued.Nodup) (hn' : issued'.Nodup) :
    OneToOne (Twin issued issued') := by
  have hinj : ∀ {l : List Handle}, l.Nodup → ∀ {i j : Nat} {h : Handle},
      l.reverse[i]? = some h → l.reverse[j]? = some h → i = j := by
    intro l hl i j h hi hj
    obtain ⟨hi', hi⟩ := List.getElem?_eq_some_iff.mp hi
    obtain ⟨hj', hj⟩ := List.getElem?_eq_some_iff.mp hj
    exact (List.Nodup.getElem_inj_iff (List.nodup_reverse.mpr hl)).mp (hi.trans hj.symm)
  constructor
  · intro a b b' hpair hpair₁
    obtain ⟨k, ha, hb⟩ := hpair
    obtain ⟨k', ha', hb'⟩ := hpair₁
    obtain rfl := hinj hn ha ha'
    exact Option.some.inj (hb.symm.trans hb')
  · intro a a' b hpair hpair₁
    obtain ⟨k, ha, hb⟩ := hpair
    obtain ⟨k', ha', hb'⟩ := hpair₁
    obtain rfl := hinj hn' hb hb'
    exact Option.some.inj (ha.symm.trans ha')

/-- The latest handles of lists that grow into the given ones are twins. -/
theorem twin_of_suffix {issued issued' l l' : List Handle} {h h' : Handle}
    (hs : (h :: l) <:+ issued) (hs' : (h' :: l') <:+ issued') (hlen : l.length = l'.length) :
    Twin issued issued' h h' := by
  have hlast : ∀ {l L : List Handle} {h : Handle}, (h :: l) <:+ L → L.reverse[l.length]? = some h := by
    intro l _ h hsuffix
    obtain ⟨t, rfl⟩ := hsuffix
    simp
  exact ⟨l.length, hlast hs, hlen ▸ hlast hs'⟩

/-- The contexts are the same to a program but for paired handles. -/
structure Linked (R : Handle → Handle → Prop) (c c' : Context) : Prop where
  left : c.heap.WellFormed
  right : c'.heap.WellFormed
  heap : HeapMatches R c.heap c'.heap
  stack : ValueStack.Matches R c.stack c'.stack
  roots : RootRegistry.Matches R c.roots c'.roots
  limit : c.config.maxAllocationBytes = c'.config.maxAllocationBytes
  issued : c.issued.length = c'.issued.length

theorem Payload.matches_fresh {R : Handle → Handle → Prop} (kind : PayloadKind) (count : Nat) :
    (Payload.fresh kind count).Matches R (.fresh kind count) := by
  cases kind with
  | objects => exact .objects (.replicate count .undefined)
  | bytes => exact .bytes _

/-- The second context has part of the contents of the first one, and all the rest of it. -/
structure Context.Shrinks (c d : Context) : Prop where
  wellFormed : c.heap.WellFormed → d.heap.WellFormed
  payload? : ∀ g p, d.heap.payload? g = some p → c.heap.payload? g = some p
  stack : d.stack = c.stack
  roots : d.roots = c.roots
  config : d.config = c.config
  issued : d.issued = c.issued

theorem Context.Shrinks.refl (c : Context) : c.Shrinks c :=
  ⟨id, fun _ _ h => h, rfl, rfl, rfl, rfl⟩

theorem Context.shrinks_collect {c d : Context} (hw : c.heap.WellFormed) (trigger : Trigger)
    (record : CollectionRecord) (hc : c.collect trigger = .ok (record, d)) : c.Shrinks d := by
  obtain ⟨hstack, hroots, _, hconfig, hissued⟩ := collect_frame trigger record hc
  refine ⟨(Move.collect c trigger record d hc).wellFormed, ?_, hstack, hroots, hconfig, hissued⟩
  intro g p hp
  exact ((collect_payload? hw trigger record hc g p).mp hp).2

theorem Context.shrinks_yielded {c d : Context} (hw : c.heap.WellFormed) (hy : c.Yielded d) :
    c.Shrinks d := by
  rcases hy with rfl | ⟨record, hc⟩
  · exact .refl d
  · exact shrinks_collect hw _ record hc

namespace Linked

variable {R : Handle → Handle → Prop} {c c' d d' : Context}

/-- Contents that are taken away on either side are not compared any more. -/
theorem shrink (h : Linked R c c') (hd : c.Shrinks d) (hd' : c'.Shrinks d') : Linked R d d' where
  left := hd.wellFormed h.left
  right := hd'.wellFormed h.right
  heap := fun g g' p p' hg hp hp' => h.heap g g' p p' hg (hd.payload? g p hp) (hd'.payload? g' p' hp')
  stack := by
    rw [hd.stack, hd'.stack]
    exact h.stack
  roots := by
    rw [hd.roots, hd'.roots]
    exact h.roots
  limit := by
    rw [hd.config, hd'.config]
    exact h.limit
  issued := by
    rw [hd.issued, hd'.issued]
    exact h.issued

/-- New blocks under paired handles. -/
theorem served (hR : OneToOne R) (h : Linked R c c') {kind : PayloadKind} {count : Nat} {x x' : Handle}
    (hs : c.Served kind count x d) (hs' : c'.Served kind count x' d') (hpair : R x x') :
    Linked R d d' := by
  obtain ⟨hstack, hroots, _, hconfig, hissued⟩ := hs.frame
  obtain ⟨hstack', hroots', _, hconfig', hissued'⟩ := hs'.frame
  refine ⟨hs.wellFormed h.left, hs'.wellFormed h.right, ?_, ?_, ?_, ?_, ?_⟩
  · intro g g' p p' hg hp hp'
    rw [hs.payload? h.left] at hp
    rw [hs'.payload? h.right] at hp'
    by_cases hgx : g = x
    · rw [if_pos hgx] at hp
      rw [if_pos ((hR.eq_iff hg hpair).mp hgx)] at hp'
      obtain rfl := Option.some.inj hp
      obtain rfl := Option.some.inj hp'
      exact Payload.matches_fresh kind count
    · rw [if_neg hgx] at hp
      rw [if_neg (mt (hR.eq_iff hg hpair).mpr hgx)] at hp'
      exact h.heap g g' p p' hg hp hp'
  · rw [hstack, hstack']
    exact h.stack
  · rw [hroots, hroots']
    exact h.roots
  · rw [hconfig, hconfig']
    exact h.limit
  · rw [hissued, hissued', List.length_cons, List.length_cons, h.issued]

theorem setStack (h : Linked R c c') {s s' : ValueStack} (hs : s.Matches R s') :
    Linked R { c with stack := s } { c' with stack := s' } :=
  ⟨h.left, h.right, h.heap, hs, h.roots, h.limit, h.issued⟩

theorem setRoots (h : Linked R c c') {r r' : RootRegistry} (hr : r.Matches R r') :
    Linked R { c with roots := r } { c' with roots := r' } :=
  ⟨h.left, h.right, h.heap, h.stack, hr, h.limit, h.issued⟩

/-- Corresponding writes under paired handles. -/
theorem setPayload (hR : OneToOne R) (h : Linked R c c') {x x' : Handle} (hpair : R x x')
    {p p' q q' : Payload} (hp : c.heap.payload? x = some p) (hp' : c'.heap.payload? x' = some p')
    (hk : q.kind = p.kind) (hk' : q'.kind = p'.kind) (hc : q.count = p.count) (hc' : q'.count = p'.count)
    (hq : q.Matches R q') :
    Linked R { c with heap := c.heap.setPayload x.index q } { c' with heap := c'.heap.setPayload x'.index q' } := by
  refine ⟨(Move.write c x p q hp hk hc).wellFormed h.left,
    (Move.write c' x' p' q' hp' hk' hc').wellFormed h.right, ?_, h.stack, h.roots, h.limit, h.issued⟩
  intro g g' a a' hg ha ha'
  simp only [Heap.payload?_setPayload hp, Heap.payload?_setPayload hp'] at ha ha'
  by_cases hgx : g = x
  · rw [if_pos hgx] at ha
    rw [if_pos ((hR.eq_iff hg hpair).mp hgx)] at ha'
    obtain rfl := Option.some.inj ha
    obtain rfl := Option.some.inj ha'
    exact hq
  · rw [if_neg hgx] at ha
    rw [if_neg (mt (hR.eq_iff hg hpair).mpr hgx)] at ha'
    exact h.heap g g' a a' hg ha ha'

end Linked

namespace Mutator

variable {α β γ δ : Type}

/-- The operation adds to the handles issued and takes none away. -/
class Grows (m : Mutator α) : Prop where
  suffix : ∀ {ctx r c}, m.run.run ctx = .ok (r, c) → ctx.issued <:+ c.issued

section Grows

variable (m : Mutator α)

instance (f : α → Mutator β) [Grows m] [∀ a, Grows (f a)] : Grows (m >>= f) where
  suffix := by
    intro ctx r c h
    rw [run_bind] at h
    cases hm : m.run.run ctx with
    | error why => simp [hm] at h
    | ok p =>
      obtain ⟨x, d⟩ := p
      have hfirst : ctx.issued <:+ d.issued := Grows.suffix hm
      cases x with
      | error e =>
        simp only [hm, Except.ok.injEq, Prod.mk.injEq] at h
        exact h.2 ▸ hfirst
      | ok a =>
        simp only [hm] at h
        exact hfirst.trans (Grows.suffix h)

/-- An operation that does not touch the handles issued. -/
theorem grows_of_eq (h : ∀ ctx, m.Ends ctx (fun _ c => c.issued = ctx.issued) fun _ => True) :
    Grows m where
  suffix := by
    intro ctx r c hrun
    rw [ends_of_ok (h ctx) hrun]

instance (a : α) : Grows (pure a : Mutator α) := grows_of_eq _ fun _ => rfl

instance (p : Prop) [Decidable p] (m' : Mutator α) [Grows m] [Grows m'] : Grows (if p then m else m') := by
  split <;> infer_instance

instance (f : ValueStack → Except RuntimeError (α × ValueStack)) : Grows (onStack f) := by
  apply grows_of_eq
  intro ctx
  unfold Ends
  rw [run_onStack]
  cases f ctx.stack <;> rfl

instance (node : Node) : Grows (push node) := by
  unfold push updateStack
  infer_instance

instance (h : Handle) (f : Array Node → Array Node) : Grows (modifyObjects h f) := by
  apply grows_of_eq
  intro ctx
  unfold Ends
  rw [run_modifyObjects]
  cases ctx.heap.modifyObjects h f <;> rfl

instance (h : Handle) (f : Array UInt8 → Array UInt8) : Grows (modifyBytes h f) := by
  apply grows_of_eq
  intro ctx
  unfold Ends
  rw [run_modifyBytes]
  cases ctx.heap.modifyBytes h f <;> rfl

instance (ask : Heap → ChainReader α) : Grows (readChain ask) := by
  apply grows_of_eq
  intro ctx
  unfold Ends
  rw [run_readChain]
  cases (ask ctx.heap).run <;> trivial

instance [Grows m] : Grows (scratch m) where
  suffix := by
    intro ctx r c h
    rw [run_scratch] at h
    cases hm : m.run.run { ctx with stack := ctx.stack.pushFrame.2 } with
    | error why => simp [hm] at h
    | ok p =>
      have hs := Grows.suffix hm
      simp only [hm] at h
      cases hp : p.2.stack.popFrame ctx.stack.pushFrame.1 with
      | error why => simp [hp] at h
      | ok s =>
        simp only [hp, Except.ok.injEq, Prod.mk.injEq] at h
        rw [← h.2]
        exact hs

instance (kind : PayloadKind) (count : Nat) : Grows (allocate kind count) where
  suffix := by
    intro ctx r c h
    rcases ends_of_ok (allocate_ends ctx kind count) h with ⟨_, _, rfl, _⟩ | ⟨x, c₁, _, hy, hs⟩
    · exact List.suffix_rfl
    · rw [hs.issued_eq]
      rcases hy with rfl | ⟨record, hc⟩
      · exact List.suffix_cons x _
      · rw [Context.collect_issued hc]
        exact List.suffix_cons x _

instance (count : Nat) : Grows (allocateObjects count) := by
  unfold allocateObjects
  infer_instance

instance (count : Nat) : Grows (allocateBytes count) := by
  unfold allocateBytes
  infer_instance

instance (h : Handle) (node : Node) : Grows (writeFirst h node) := by
  unfold writeFirst
  infer_instance

instance (text : String) : Grows (newString text) := by
  unfold newString
  infer_instance

instance (value : Node) : Grows (allocateBox value) := by
  unfold allocateBox
  infer_instance

instance (value : Node) : Grows (makeHead value) := by
  unfold makeHead
  split <;> infer_instance

instance (first link : Handle) : Grows (linkLast first link) := by
  unfold linkLast
  infer_instance

instance (list : Node) (first : Option (Handle × Cell)) (link : Handle) :
    Grows (attach list first link) := by
  unfold attach
  split <;> infer_instance

end Grows

variable {L L' : List Handle} {c c' : Context}

/-- Run from the two contexts, the operations leave linked contexts and give the same results but for
twin handles, if both end, what they issue is part of the given lists, and neither complains about a
handle that stands for nothing. -/
def Coupled (L L' : List Handle) (c c' : Context) (m : Mutator α) (m' : Mutator β)
    (P : α → β → Context → Context → Prop) : Prop :=
  ∀ ⦃r d r' d'⦄, m.run.run c = .ok (r, d) → m'.run.run c' = .ok (r', d') →
    d.issued <:+ L → d'.issued <:+ L' → Clean r → Clean r' →
    Linked (Twin L L') d d' ∧ ResultMatches (Twin L L') (fun a b => P a b d d') r r'

section Coupled

variable {m : Mutator α} {m' : Mutator β} {P : α → β → Context → Context → Prop}
  {Q : γ → δ → Context → Context → Prop}

theorem Coupled.bind {f : α → Mutator γ} {f' : β → Mutator δ} [∀ a, Grows (f a)] [∀ b, Grows (f' b)]
    (hm : Coupled L L' c c' m m' P)
    (hf : ∀ a b d d', Linked (Twin L L') d d' → P a b d d' → Coupled L L' d d' (f a) (f' b) Q) :
    Coupled L L' c c' (m >>= f) (m' >>= f') Q := by
  intro r e r' e' hrun hrun' hs hs' hc hc'
  rw [run_bind] at hrun hrun'
  cases hfirst : m.run.run c with
  | error why => simp [hfirst] at hrun
  | ok p =>
    cases hfirst' : m'.run.run c' with
    | error why => simp [hfirst'] at hrun'
    | ok p' =>
      obtain ⟨x, d⟩ := p
      obtain ⟨x', d'⟩ := p'
      cases x with
      | error ε =>
        simp only [hfirst, Except.ok.injEq, Prod.mk.injEq] at hrun
        obtain ⟨rfl, rfl⟩ := hrun
        cases x' with
        | error ε' =>
          simp only [hfirst', Except.ok.injEq, Prod.mk.injEq] at hrun'
          obtain ⟨rfl, rfl⟩ := hrun'
          exact hm hfirst hfirst' hs hs' hc hc'
        | ok b =>
          simp only [hfirst'] at hrun'
          exact (hm hfirst hfirst' hs ((Grows.suffix hrun').trans hs') hc trivial).2.elim
      | ok a =>
        simp only [hfirst] at hrun
        have hsuffix := (Grows.suffix hrun).trans hs
        cases x' with
        | error ε' =>
          simp only [hfirst', Except.ok.injEq, Prod.mk.injEq] at hrun'
          obtain ⟨rfl, rfl⟩ := hrun'
          exact (hm hfirst hfirst' hsuffix hs' trivial hc').2.elim
        | ok b =>
          simp only [hfirst'] at hrun'
          obtain ⟨hlinked, hP⟩ := hm hfirst hfirst' hsuffix ((Grows.suffix hrun').trans hs') trivial trivial
          exact hf a b d d' hlinked hP hrun hrun' hs hs' hc hc'

theorem coupled_ofExcept (h : Linked (Twin L L') c c') {r : Except RuntimeError α}
    {r' : Except RuntimeError β} {P : α → β → Prop} (hr : Agree (Twin L L') P r r') :
    Coupled L L' c c' (ofExcept r) (ofExcept r') fun a b d d' =>
      P a b ∧ (d = c ∧ d' = c') ∧ r = .ok a ∧ r' = .ok b := by
  intro _ _ _ _ hrun hrun' _ _ hc hc'
  obtain ⟨rfl, rfl⟩ := Prod.mk.inj (Except.ok.inj hrun)
  obtain ⟨rfl, rfl⟩ := Prod.mk.inj (Except.ok.inj hrun')
  refine ⟨h, ?_⟩
  have hmatch := hr hc hc'
  cases r with
  | error e =>
    cases r' with
    | error e' => exact hmatch
    | ok b => exact hmatch.elim
  | ok a =>
    cases r' with
    | error e' => exact hmatch.elim
    | ok b => exact ⟨hmatch, ⟨rfl, rfl⟩, rfl, rfl⟩

theorem coupled_read (h : Linked (Twin L L') c c') (ask : Context → Except RuntimeError α)
    (ask' : Context → Except RuntimeError β) {P : α → β → Prop}
    (hr : Agree (Twin L L') P (ask c) (ask' c')) :
    Coupled L L' c c' (read ask) (read ask') fun a b d d' =>
      P a b ∧ (d = c ∧ d' = c') ∧ ask c = .ok a ∧ ask' c' = .ok b :=
  coupled_ofExcept h hr

theorem coupled_pure (h : Linked (Twin L L') c c') {a : α} {b : β} (hab : P a b c c') :
    Coupled L L' c c' (pure a) (pure b) P := by
  intro _ _ _ _ hrun hrun' _ _ _ _
  obtain ⟨rfl, rfl⟩ := Prod.mk.inj (Except.ok.inj hrun)
  obtain ⟨rfl, rfl⟩ := Prod.mk.inj (Except.ok.inj hrun')
  exact ⟨h, hab⟩

theorem Coupled.mono {Q : α → β → Context → Context → Prop} (hm : Coupled L L' c c' m m' P)
    (hPQ : ∀ a b d d', P a b d d' → Q a b d d') : Coupled L L' c c' m m' Q := by
  intro r d r' d' hrun hrun' hs hs' hc hc'
  obtain ⟨hl, hr⟩ := hm hrun hrun' hs hs' hc hc'
  refine ⟨hl, ?_⟩
  cases r <;> cases r' <;> first | exact hr.elim | exact hr | exact hPQ _ _ _ _ hr

theorem Coupled.map {Q : γ → δ → Prop} (hm : Coupled L L' c c' m m' P) (f : α → γ) (f' : β → δ)
    (hf : ∀ a b d d', P a b d d' → Q (f a) (f' b)) :
    Coupled L L' c c' (f <$> m) (f' <$> m') fun a b _ _ => Q a b := by
  rw [← bind_pure_comp, ← bind_pure_comp]
  exact hm.bind fun a b d d' hl hP => coupled_pure hl (hf a b d d' hP)

end Coupled

/-- Operations that put a question and, unless it fails, change the context according to the answer. -/
theorem coupled_of_question {m : Mutator α} {m' : Mutator β} {P : α → β → Prop} {I : γ → δ → Prop}
    (h : Linked (Twin L L') c c') (q : Except RuntimeError γ) (q' : Except RuntimeError δ)
    (next : γ → α × Context) (next' : δ → β × Context)
    (hm : m.run.run c = match q with
      | .ok x => .ok (.ok (next x).1, (next x).2)
      | .error e => .ok (.error e, c))
    (hm' : m'.run.run c' = match q' with
      | .ok x => .ok (.ok (next' x).1, (next' x).2)
      | .error e => .ok (.error e, c'))
    (hq : Agree (Twin L L') I q q')
    (hnext : ∀ x y, q = .ok x → q' = .ok y → I x y →
      Linked (Twin L L') (next x).2 (next' y).2 ∧ P (next x).1 (next' y).1) :
    Coupled L L' c c' m m' fun a b _ _ => P a b := by
  intro r d r' d' hrun hrun' _ _ hc hc'
  rw [hm] at hrun
  rw [hm'] at hrun'
  cases q with
  | error e =>
    obtain ⟨rfl, rfl⟩ := Prod.mk.inj (Except.ok.inj hrun)
    cases q' with
    | error e' =>
      obtain ⟨rfl, rfl⟩ := Prod.mk.inj (Except.ok.inj hrun')
      exact ⟨h, hq hc hc'⟩
    | ok y => exact (hq hc trivial).elim
  | ok x =>
    obtain ⟨rfl, rfl⟩ := Prod.mk.inj (Except.ok.inj hrun)
    cases q' with
    | error e' =>
      obtain ⟨rfl, rfl⟩ := Prod.mk.inj (Except.ok.inj hrun')
      exact (hq trivial hc').elim
    | ok y =>
      obtain ⟨rfl, rfl⟩ := Prod.mk.inj (Except.ok.inj hrun')
      exact hnext x y rfl rfl (hq trivial trivial)

theorem coupled_onStack (h : Linked (Twin L L') c c')
    (f : ValueStack → Except RuntimeError (α × ValueStack))
    (f' : ValueStack → Except RuntimeError (β × ValueStack)) {P : α → β → Prop}
    (hf : Agree (Twin L L') (fun p q => P p.1 q.1 ∧ p.2.Matches (Twin L L') q.2) (f c.stack) (f' c'.stack)) :
    Coupled L L' c c' (onStack f) (onStack f') fun a b _ _ => P a b := by
  refine coupled_of_question h (f c.stack) (f' c'.stack) (fun p => (p.1, { c with stack := p.2 }))
    (fun p => (p.1, { c' with stack := p.2 })) ?_ ?_ hf ?_
  · rw [run_onStack]
    cases f c.stack <;> rfl
  · rw [run_onStack]
    cases f' c'.stack <;> rfl
  · intro p q _ _ hpq
    exact ⟨h.setStack hpq.2, hpq.1⟩

theorem coupled_updateStack (h : Linked (Twin L L') c c')
    (f f' : ValueStack → Except RuntimeError ValueStack)
    (hf : Agree (Twin L L') (ValueStack.Matches (Twin L L')) (f c.stack) (f' c'.stack)) :
    Coupled L L' c c' (updateStack f) (updateStack f') fun _ _ _ _ => True :=
  coupled_onStack h _ _ (P := fun _ _ => True) (hf.map _ _ fun _ _ hs => ⟨trivial, hs⟩)

theorem coupled_push (h : Linked (Twin L L') c c') {a b : Node} (hab : a.Matches (Twin L L') b) :
    Coupled L L' c c' (push a) (push b) fun _ _ _ _ => True :=
  coupled_updateStack h _ _ (h.stack.push hab)

theorem coupled_popFrame (h : Linked (Twin L L') c c') (frame : Frame) :
    Coupled L L' c c' (popFrame frame) (popFrame frame) fun _ _ _ _ => True := by
  intro r d r' d' hrun hrun' _ _ _ _
  rw [run_popFrame] at hrun hrun'
  cases hp : c.stack.popFrame frame with
  | error why => simp [hp] at hrun
  | ok s =>
    cases hp' : c'.stack.popFrame frame with
    | error why => simp [hp'] at hrun'
    | ok s' =>
      simp only [hp, hp', Except.ok.injEq, Prod.mk.injEq] at hrun hrun'
      obtain ⟨rfl, rfl⟩ := hrun
      obtain ⟨rfl, rfl⟩ := hrun'
      exact ⟨h.setStack (h.stack.popFrame hp hp'), trivial⟩

theorem coupled_scratch {m : Mutator α} {m' : Mutator β} {P : α → β → Prop}
    (h : Linked (Twin L L') c c')
    (hm : ∀ s s', s.Matches (Twin L L') s' → Coupled L L' { c with stack := s } { c' with stack := s' }
      m m' fun a b _ _ => P a b) :
    Coupled L L' c c' (scratch m) (scratch m') fun a b _ _ => P a b := by
  intro r d r' d' hrun hrun' hs hs' hc hc'
  obtain ⟨hframe, hstack⟩ := h.stack.pushFrame
  rw [run_scratch] at hrun hrun'
  rw [← hframe] at hrun'
  cases hr : m.run.run { c with stack := c.stack.pushFrame.2 } with
  | error why => simp [hr] at hrun
  | ok p =>
    cases hr' : m'.run.run { c' with stack := c'.stack.pushFrame.2 } with
    | error why => simp [hr'] at hrun'
    | ok p' =>
      simp only [hr] at hrun
      simp only [hr'] at hrun'
      cases hp : p.2.stack.popFrame c.stack.pushFrame.1 with
      | error why => simp [hp] at hrun
      | ok s =>
        cases hp' : p'.2.stack.popFrame c.stack.pushFrame.1 with
        | error why => simp [hp'] at hrun'
        | ok s' =>
          simp only [hp, hp', Except.ok.injEq, Prod.mk.injEq] at hrun hrun'
          obtain ⟨rfl, rfl⟩ := hrun
          obtain ⟨rfl, rfl⟩ := hrun'
          obtain ⟨hl, hmatch⟩ := hm _ _ hstack hr hr' hs hs' hc hc'
          exact ⟨hl.setStack (hl.stack.popFrame hp hp'), hmatch⟩

theorem requestSize_handle? (limit : Nat) (kind : PayloadKind) (count : Nat) (e : RuntimeError)
    (hr : requestSize limit kind count = .error e) : e.handle? = none := by
  obtain ⟨_, rfl⟩ := requestSize_eq_error hr
  rfl

/-- Either side may collect first; both issue the handle of the same number. -/
theorem coupled_allocate (hR : OneToOne (Twin L L')) (h : Linked (Twin L L') c c')
    (kind : PayloadKind) (count : Nat) :
    Coupled L L' c c' (allocate kind count) (allocate kind count) fun x x' d d' =>
      Twin L L' x x' ∧ d.heap.payload? x = some (.fresh kind count) ∧
        d'.heap.payload? x' = some (.fresh kind count) := by
  intro r d r' d' hrun hrun' hs hs' _ _
  have hrefused : ∀ {c c₁ d : Context} {x : Handle} {e : RuntimeError}, c.heap.WellFormed →
      requestSize c.config.maxAllocationBytes kind count = .error e → c.Yielded c₁ →
      c₁.Served kind count x d → False := by
    intro c c₁ d x e hw hr hy hserved
    obtain ⟨size, hsize⟩ := hserved.requestSize_eq_ok
    rw [(Context.shrinks_yielded hw hy).config, hr] at hsize
    simp at hsize
  rcases ends_of_ok (allocate_ends c kind count) hrun with
    ⟨e, rfl, rfl, hr⟩ | ⟨x, c₁, rfl, hy, hserved⟩
  · rcases ends_of_ok (allocate_ends c' kind count) hrun' with
      ⟨e', rfl, rfl, hr'⟩ | ⟨x', c₁', rfl, hy', hserved'⟩
    · rw [← h.limit, hr] at hr'
      obtain rfl := Except.error.inj hr'
      exact ⟨h, .plain _ (requestSize_handle? _ _ _ _ hr)⟩
    · rw [h.limit] at hr
      exact (hrefused h.right hr hy' hserved').elim
  · rcases ends_of_ok (allocate_ends c' kind count) hrun' with
      ⟨e', rfl, rfl, hr'⟩ | ⟨x', c₁', rfl, hy', hserved'⟩
    · rw [← h.limit] at hr'
      exact (hrefused h.left hr' hy hserved).elim
    · have hl := h.shrink (Context.shrinks_yielded h.left hy) (Context.shrinks_yielded h.right hy')
      have htwin : Twin L L' x x' := by
        rw [hserved.issued_eq] at hs
        rw [hserved'.issued_eq] at hs'
        exact twin_of_suffix hs hs' hl.issued
      refine ⟨hl.served hR hserved hserved' htwin, htwin, ?_, ?_⟩
      · simp [hserved.payload? hl.left]
      · simp [hserved'.payload? hl.right]

theorem coupled_modifyObjects (hR : OneToOne (Twin L L')) (h : Linked (Twin L L') c c')
    {x x' : Handle} (htwin : Twin L L' x x') (f f' : Array Node → Array Node)
    (hf : ∀ nodes nodes', c.heap.payload? x = some (.objects nodes) →
      c'.heap.payload? x' = some (.objects nodes') → Pointwise (Node.Matches (Twin L L')) nodes nodes' →
      (f nodes).size = nodes.size ∧ (f' nodes').size = nodes'.size ∧
        Pointwise (Node.Matches (Twin L L')) (f nodes) (f' nodes')) :
    Coupled L L' c c' (modifyObjects x f) (modifyObjects x' f') fun _ _ _ _ => True := by
  refine coupled_of_question h _ _
    (fun nodes => ((), { c with heap := c.heap.setPayload x.index (.objects (f nodes)) }))
    (fun nodes => ((), { c' with heap := c'.heap.setPayload x'.index (.objects (f' nodes)) }))
    ?_ ?_ (h.heap.objects htwin) ?_
  · rw [run_modifyObjects, Heap.modifyObjects]
    cases c.heap.objects x <;> rfl
  · rw [run_modifyObjects, Heap.modifyObjects]
    cases c'.heap.objects x' <;> rfl
  · intro nodes nodes' ho ho' hnodes
    have hp := Heap.objects_eq_ok.mp ho
    have hp' := Heap.objects_eq_ok.mp ho'
    obtain ⟨hsize, hsize', hnew⟩ := hf nodes nodes' hp hp' hnodes
    exact ⟨h.setPayload hR htwin hp hp' rfl rfl hsize hsize' (.objects hnew), trivial⟩

theorem coupled_modifyBytes (hR : OneToOne (Twin L L')) (h : Linked (Twin L L') c c')
    {x x' : Handle} (htwin : Twin L L' x x') (f : Array UInt8 → Array UInt8)
    (hf : ∀ data, c.heap.payload? x = some (.bytes data) → (f data).size = data.size) :
    Coupled L L' c c' (modifyBytes x f) (modifyBytes x' f) fun _ _ _ _ => True := by
  refine coupled_of_question h _ _
    (fun data => ((), { c with heap := c.heap.setPayload x.index (.bytes (f data)) }))
    (fun data => ((), { c' with heap := c'.heap.setPayload x'.index (.bytes (f data)) }))
    ?_ ?_ (h.heap.bytes htwin) ?_
  · rw [run_modifyBytes, Heap.modifyBytes]
    cases c.heap.bytes x <;> rfl
  · rw [run_modifyBytes, Heap.modifyBytes]
    cases c'.heap.bytes x' <;> rfl
  · intro data _ ho ho' he
    subst he
    have hp := Heap.bytes_eq_ok.mp ho
    have hsize := hf data hp
    exact ⟨h.setPayload hR htwin hp (Heap.bytes_eq_ok.mp ho') rfl rfl hsize hsize (.bytes _), trivial⟩

theorem coupled_readChain (h : Linked (Twin L L') c c') (ask : Heap → ChainReader α)
    (ask' : Heap → ChainReader β) {P : α → β → Prop}
    (hask : ∀ {r r'}, (ask c.heap).run = .ok r → (ask' c'.heap).run = .ok r' → Agree (Twin L L') P r r') :
    Coupled L L' c c' (readChain ask) (readChain ask') fun a b _ _ => P a b := by
  intro r d r' d' hrun hrun' hs hs' hc hc'
  rw [run_readChain] at hrun hrun'
  cases hr : (ask c.heap).run with
  | error why => simp [hr] at hrun
  | ok q =>
    cases hr' : (ask' c'.heap).run with
    | error why => simp [hr'] at hrun'
    | ok q' =>
      simp only [hr] at hrun
      simp only [hr'] at hrun'
      have hread := (coupled_ofExcept h (hask hr hr')).mono fun _ _ _ _ hab => hab.1
      exact hread hrun hrun' hs hs' hc hc'

end Mutator

end GenerationalHeap
