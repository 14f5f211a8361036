import GenerationalHeap.Proofs.History
import GenerationalHeap.Proofs.Inhibition
import GenerationalHeap.Proofs.Appending

namespace GenerationalHeap

namespace Context

/-- How an operation that started at `a` and has made at most `n` collections stands at `c`. The roots are
those it was given. What it met and is still there has its contents, and what this refers to is there
as well. -/
structure Spares (a : Context) (n : Nat) (c : Context) : Prop where
  heap : c.heap.WellFormed
  roots : c.roots = a.roots
  captures : c.captures = a.captures
  inhibitDepth : c.inhibitDepth = a.inhibitDepth
  aged : SlotTable.Aged n a.heap.slots c.heap.slots
  kept : ∀ h p, a.heap.payload? h = some p → c.heap.slots.versionOf h.index = h.version →
    c.heap.payload? h = some p
  closed : ∀ h p, a.heap.payload? h = some p → c.heap.Live h → ∀ g ∈ p.references, a.heap.Live g →
    c.heap.Live g

variable {a c c' : Context} {n k : Nat} {h : Handle} {kind : PayloadKind} {count : Nat} {p q : Payload}

theorem spares_refl (hw : a.heap.WellFormed) : a.Spares 0 a where
  heap := hw
  roots := rfl
  captures := rfl
  inhibitDepth := rfl
  aged := SlotTable.aged_of_eq fun _ => rfl
  kept _ _ hp _ := hp
  closed _ _ _ _ _ _ hg := hg

theorem Spares.mono (hs : a.Spares n c) (hnk : n ≤ k) : a.Spares k c :=
  { hs with aged := hs.aged.mono hnk }

theorem Spares.withStack (hs : a.Spares n c) (s : ValueStack) : a.Spares n { c with stack := s } :=
  ⟨hs.heap, hs.roots, hs.captures, hs.inhibitDepth, hs.aged, hs.kept, hs.closed⟩

theorem Spares.payload? (hs : a.Spares n c) (hp : a.heap.payload? h = some p) (hl : c.heap.Live h) :
    c.heap.payload? h = some p := by
  obtain ⟨q, hq⟩ := Heap.live_iff.mp hl
  exact hs.kept h p hp (Heap.versionOf_of_payload? hq)

/-- The version of a slot tells whether it has been freed, as so few collections do not take a version
full circle. -/
theorem Spares.collected (hs : a.Spares n c) (hn : n + 1 < 2 ^ 31) {trigger : Trigger}
    {record : CollectionRecord} (hc : c.collect trigger = .ok (record, c')) : a.Spares (n + 1) c' := by
  have hmove := Move.collect c trigger record c' hc
  have haged := hmove.aged hs.heap
  obtain ⟨_, hroots, hcaptures, _, _⟩ := collect_frame trigger record hc
  have hpayload := collect_payload? hs.heap trigger record hc
  refine ⟨hmove.wellFormed hs.heap, hroots.trans hs.roots, hcaptures.trans hs.captures,
    (collect_inhibitDepth hc).trans hs.inhibitDepth, hs.aged.trans haged, ?_, ?_⟩
  · intro g held hheld hv
    have hstart := Heap.versionOf_of_payload? hheld
    -- The version is the same at both ends, so it was the same before this collection.
    have hbetween := (hs.aged g.index).between (haged g.index) hn (by omega)
    exact collect_keeps_version hs.heap hc (hs.kept g held hheld (by omega)) hv
  · intro g held hheld hl target htarget _
    obtain ⟨left, hleft⟩ := Heap.live_iff.mp hl
    obtain ⟨hreached, hbefore⟩ := (hpayload g left).mp hleft
    have hsame := hs.payload? hheld (Heap.live_of_payload? hbefore)
    obtain ⟨b, hb, rfl⟩ := Heap.payload?_eq_some.mp hsame
    have hedge := SlotTable.Reaches.edge hreached hb htarget
    obtain ⟨_, _, _, hphases, _⟩ := collect_phases hs.heap hc
    obtain ⟨p, hp⟩ := Heap.live_iff.mp (hphases.live_of_reaches hedge)
    exact Heap.live_of_payload? ((hpayload target p).mpr ⟨hedge, hp⟩)

theorem Spares.yielded (hs : a.Spares n c) (hn : n + 1 < 2 ^ 31) (hy : c.Yielded c') :
    a.Spares (n + 1) c' ∧ c'.stack = c.stack ∧
      ∀ g p, c.IsRoot g → c.heap.payload? g = some p → c'.heap.payload? g = some p := by
  rcases hy with rfl | ⟨record, hc⟩
  · exact ⟨hs.mono (Nat.le_succ n), rfl, fun _ _ _ hp => hp⟩
  · refine ⟨hs.collected hn hc, (collect_frame _ record hc).1, ?_⟩
    intro g p hg hp
    have hroot := (c.reaches_rootHandles_iff g).mpr (.root hg)
    exact (collect_payload? hs.heap _ record hc g p).mpr ⟨hroot, hp⟩

/-- The handle of a new allocation stood for nothing at the start. -/
theorem Spares.served (hs : a.Spares n c) (hserved : c.Served kind count h c') :
    a.Spares n c' ∧ ¬ a.heap.Live h := by
  obtain ⟨_, _, _, hi⟩ := hserved.inserted hs.heap
  have hpayload := hserved.payload? hs.heap
  have hnew : ¬ a.heap.Live h := by
    intro hl
    obtain ⟨p, hp⟩ := Heap.live_iff.mp hl
    have hkept := hs.kept h p hp hi.version_eq
    rw [hserved.vacant hs.heap] at hkept
    simp at hkept
  have hother : ∀ g, a.heap.Live g → g ≠ h := by
    rintro g hg rfl
    exact hnew hg
  have hdepth : c'.inhibitDepth = c.inhibitDepth := by cases hserved <;> rfl
  obtain ⟨_, hroots, hcaptures, _, _⟩ := hserved.frame
  refine ⟨⟨hserved.wellFormed hs.heap, hroots.trans hs.roots, hcaptures.trans hs.captures,
    hdepth.trans hs.inhibitDepth, ?_, ?_, ?_⟩, hnew⟩
  · intro i
    rw [hi.versionOf]
    exact hs.aged i
  · intro g held hheld hv
    rw [hi.versionOf] at hv
    rw [hpayload, if_neg (hother g (Heap.live_of_payload? hheld))]
    exact hs.kept g held hheld hv
  · intro g held hheld hl target htarget hold
    rw [Heap.live_iff, hpayload, if_neg (hother g (Heap.live_of_payload? hheld)), ← Heap.live_iff] at hl
    rw [Heap.live_iff, hpayload, if_neg (hother target hold), ← Heap.live_iff]
    exact hs.closed g held hheld hl target htarget hold

theorem Spares.write (hs : a.Spares n c) (hp : c.heap.payload? h = some p) (hk : q.kind = p.kind)
    (hcount : q.count = p.count) (hnew : ¬ a.heap.Live h) :
    a.Spares n { c with heap := c.heap.setPayload h.index q } := by
  have hmove := Move.write c h p q hp hk hcount
  have hversion : ∀ i, (c.heap.setPayload h.index q).slots.versionOf i = c.heap.slots.versionOf i := by
    intro i
    simp [SlotTable.versionOf, Heap.setPayload]
  have hother : ∀ g, a.heap.Live g → (c.heap.setPayload h.index q).payload? g = c.heap.payload? g := by
    intro g hg
    rw [Heap.payload?_setPayload hp, if_neg]
    rintro rfl
    exact hnew hg
  refine ⟨hmove.wellFormed hs.heap, hs.roots, hs.captures, hs.inhibitDepth, ?_, ?_, ?_⟩
  · intro i
    rw [hversion]
    exact hs.aged i
  · intro g held hheld hv
    rw [hversion] at hv
    rw [hother g (Heap.live_of_payload? hheld)]
    exact hs.kept g held hheld hv
  · intro g held hheld hl target htarget hold
    rw [Heap.live_iff, hother g (Heap.live_of_payload? hheld), ← Heap.live_iff] at hl
    rw [Heap.live_iff, hother target hold, ← Heap.live_iff]
    exact hs.closed g held hheld hl target htarget hold

section Lists

variable {list : Node} {cells cells' : List (Handle × Cell)}

theorem Spares.readCell (hs : a.Spares n c) {cell : Cell} (hr : a.heap.readCell h = .ok cell)
    (hl : c.heap.Live h) : c.heap.readCell h = .ok cell :=
  Heap.readCell_kept hr fun _ hp => hs.payload? hp hl

/-- A list that is still there is still the same. -/
theorem Spares.links (hs : a.Spares n c) (hl : a.heap.Links list cells) (hb : c.heap.Backs list) :
    c.heap.Links list cells := by
  induction hl with
  | nil => exact .nil
  | @cons h cell cells hread hrest ih =>
    have hlive : c.heap.Live h := hb h (by simp [Node.references])
    refine .cons (hs.readCell hread hlive) (ih ?_)
    intro g hg
    -- The next cell was there at the start, and a cell that is still there refers to it.
    obtain ⟨p, hp, hrefs⟩ := Heap.references_readCell hread
    exact hs.closed h p hp hlive g (hrefs g (Heap.references_next cell hg)) (hrest.backs g hg)

theorem Spares.links_eq (hs : a.Spares n c) (hl : a.heap.Links list cells)
    (hl' : c.heap.Links list cells') : cells' = cells :=
  (hs.links hl hl'.backs).unique hl'

end Lists

end Context

/-- How the new cell at `link` is put behind the cells of a list: it stands alone if there are none, else
the last of them is relinked and nothing else is written. -/
inductive Context.Attached (d : Context) (link : Handle) : (list result : Node) → Context → Prop
  | alone : Attached d link .emptyList (.ref link) d
  | behind {list : Node} {init : List (Handle × Cell)} {last : Handle} {cell : Cell} {p : Payload} :
      d.heap.Links list (init ++ [(last, cell)]) → d.heap.payload? last = some p →
      Attached d link list list { d with heap := d.heap.setPayload last.index (p.relinked link) }

theorem Context.Attached.withStack {d c : Context} {link : Handle} {list result : Node}
    (h : d.Attached link list result c) (s : ValueStack) :
    ({ d with stack := s } : Context).Attached link list result { c with stack := s } := by
  cases h with
  | alone => exact .alone
  | behind hl hp => exact .behind hl hp

/-- An operation that started at `a` is about to link a new cell: its head stands for the value, and
neither the cell nor its box was there at the start. -/
structure Context.CellMade (a : Context) (value : Node) (link : Handle) (head : Head) (d : Context) :
    Prop extends a.Spares 2 d where
  new : ¬ a.heap.Live link
  cell : d.heap.payload? link = some (.objects #[.cell ⟨head, none⟩])
  head_value : d.heap.headValue head = .ok value
  box_new : ∀ g ∈ head.references, ¬ a.heap.Live g

namespace Mutator

variable {α : Type} {a c : Context} {n : Nat} {done : Except RuntimeError α → Context → Prop}

theorem allocate_spares (kind : PayloadKind) (count : Nat) (hs : a.Spares n c) (hn : n + 1 < 2 ^ 31) :
    (allocate kind count).Leaves c fun r c' => (∃ e, r = .error e ∧ c' = c) ∨
      ∃ h, r = .ok h ∧ a.Spares (n + 1) c' ∧ ¬ a.heap.Live h ∧ c'.stack = c.stack ∧
        c'.heap.payload? h = some (.fresh kind count) ∧
        ∀ g p, c.IsRoot g → c.heap.payload? g = some p → g ≠ h ∧ c'.heap.payload? g = some p := by
  intro r c' hrun
  rcases ends_of_ok (allocate_ends c kind count) hrun with ⟨e, rfl, rfl, _⟩ | ⟨h, c₀, rfl, hy, hserved⟩
  · exact .inl ⟨e, rfl, rfl⟩
  · obtain ⟨hs₀, hstack₀, hrooted⟩ := hs.yielded hn hy
    obtain ⟨hs', hnew⟩ := hs₀.served hserved
    have hpayload := hserved.payload? hs₀.heap
    refine .inr ⟨h, rfl, hs', hnew, hserved.frame.1.trans hstack₀, by simp [hpayload], ?_⟩
    intro g p hg hp
    have hp₀ := hrooted g p hg hp
    have hne : g ≠ h := by
      rintro rfl
      simp [hserved.vacant hs₀.heap] at hp₀
    exact ⟨hne, by rw [hpayload, if_neg hne, hp₀]⟩

/-- A new allocation is made and given its contents before anything else happens. -/
theorem leaves_build {kind : PayloadKind} {count : Nat} (contents : Payload)
    {write : Handle → Mutator Unit} {rest : Handle → Mutator α} (hs : a.Spares n c) (hn : n + 1 < 2 ^ 31)
    (hkind : contents.kind = kind) (hcount : contents.count = count)
    (hwrite : ∀ h c', c'.heap.payload? h = some (.fresh kind count) → (write h).run.run c' =
      .ok (.ok (), { c' with heap := c'.heap.setPayload h.index contents }))
    (herr : ∀ e, done (.error e) c)
    (hrest : ∀ h c', a.Spares (n + 1) c' → ¬ a.heap.Live h → c'.stack = c.stack →
      c'.heap.payload? h = some contents →
      (∀ g p, c.IsRoot g → c.heap.payload? g = some p → c'.heap.payload? g = some p) →
      (rest h).Leaves c' done) :
    (allocate kind count >>= fun h => write h >>= fun _ => rest h).Leaves c done := by
  refine (allocate_spares kind count hs hn).bind_of_unchanged herr ?_
  intro h c₁ hallocated
  obtain ⟨hs₁, hnew, hstack, hp, hrooted⟩ := hallocated
  have hfilled := hs₁.write hp (hkind.trans (Payload.kind_fresh kind count).symm)
    (hcount.trans (Payload.count_fresh kind count).symm) hnew
  have hpayload := Heap.payload?_setPayload hp contents
  intro r c₂ hlast
  rw [run_bind, hwrite h c₁ hp] at hlast
  refine hrest h _ hfilled hnew hstack ?_ ?_ r c₂ hlast
  · rw [hpayload, if_pos rfl]
  · intro g p hg hgp
    obtain ⟨hne, hkept⟩ := hrooted g p hg hgp
    rw [hpayload, if_neg hne]
    exact hkept

/-- The frame of the operation ends with it, so a failure leaves nothing behind. -/
theorem allocateBox_spares (value : Node) (hs : a.Spares n c) (hn : n + 1 < 2 ^ 31) (ht : c.stack.Tidy) :
    (allocateBox value).Leaves c fun r c' => (∃ e, r = .error e ∧ c' = c) ∨
      ∃ box, r = .ok box ∧ a.Spares (n + 1) c' ∧ ¬ a.heap.Live box ∧ c'.stack = c.stack ∧
        c'.heap.payload? box = some (.objects #[value]) := by
  have hframe := ValueStack.supports_pushFrame ht
  refine leaves_scratch ht (leaves_push_bind value (fun e => ⟨hframe, .inl ⟨e, rfl, rfl⟩⟩) ?_)
  intro s hpush
  have hsupports := hframe.push hpush
  refine leaves_build (.objects #[value]) (hs.withStack s) hn rfl rfl (run_writeFirst_one value) ?_ ?_
  · exact fun e => ⟨hsupports, .inl ⟨e, rfl, rfl⟩⟩
  · intro box c₁ hs₁ hnew hstack hp _
    refine leaves_pure box ⟨hstack ▸ hsupports, .inr ⟨box, rfl, ?_, hnew, rfl, hp⟩⟩
    exact hs₁.withStack c.stack

/-- What making the head of a new cell leaves: the head stands for the value, and its box is rooted and was
not there at the start. -/
def HeadSpared (a : Context) (n : Nat) (c : Context) (value : Node) (r : Except RuntimeError Head)
    (c' : Context) : Prop :=
  a.Spares n c' ∧ (∀ t : ValueStack, t.Supports c.stack → t.Supports c'.stack) ∧
    ∀ head, r = .ok head → c'.heap.headValue head = .ok value ∧
      ∀ g ∈ head.references, c'.IsRoot g ∧ ¬ a.heap.Live g

theorem boxHead_spares (value : Node) (hs : a.Spares n c) (hn : n + 1 < 2 ^ 31) (ht : c.stack.Tidy) :
    (do
      let box ← allocateBox value
      push (.ref box)
      return Head.boxed box : Mutator Head).Leaves c (HeadSpared a (n + 1) c value) := by
  refine (allocateBox_spares value hs hn ht).bind_of_unchanged ?_ ?_
  · exact fun e => ⟨hs.mono (Nat.le_succ n), fun _ h => h, fun head hh => by simp at hh⟩
  intro box c₁ hallocated
  obtain ⟨hs₁, hnew, hstack, hp⟩ := hallocated
  refine leaves_push_bind (.ref box) ?_ ?_
  · exact fun e => ⟨hs₁, fun t h => hstack ▸ h, fun head hh => by simp at hh⟩
  intro s hpush
  have hsupports : ∀ t : ValueStack, t.Supports c.stack → t.Supports s := by
    intro t ht
    rw [← hstack] at ht
    exact ht.push hpush
  refine leaves_pure _ ⟨hs₁.withStack s, hsupports, ?_⟩
  intro head hh
  obtain rfl := Except.ok.inj hh
  refine ⟨Heap.headValue_boxed hp, ?_⟩
  intro g hg
  obtain rfl : g = box := by simpa [Head.references] using hg
  exact ⟨(Context.isRoot_push hpush g).mpr (.inr (by simp [Node.ref, Node.references])), hnew⟩

theorem makeHead_spares (value : Node) (hs : a.Spares n c) (hn : n + 1 < 2 ^ 31) (ht : c.stack.Tidy) :
    (makeHead value).Leaves c (HeadSpared a (n + 1) c value) := by
  cases value with
  | scalar value =>
    refine leaves_pure _ ⟨hs.mono (Nat.le_succ n), fun _ h => h, ?_⟩
    intro head hh
    obtain rfl := Except.ok.inj hh
    exact ⟨rfl, by simp [Head.references]⟩
  | undefined | pointer | string | closure | cell => exact boxHead_spares _ hs hn ht

/-- A walk along a chain that finds no end is an error, and nothing has been written; one that ends
has passed the cells of a list, and the last one is relinked. -/
theorem linkLast_relinks (first link : Handle) :
    (linkLast first link).Leaves c fun r c' => (∃ e, r = .error e ∧ c' = c) ∨
      ∃ x, r = .ok x ∧ ∃ init last cell p, c.heap.Links (.ref first) (init ++ [(last, cell)]) ∧
        c.heap.payload? last = some p ∧
        c' = { c with heap := c.heap.setPayload last.index (p.relinked link) } := by
  intro r c' hrun
  cases hlast : (c.heap.lastCell first).run with
  | error why =>
    rw [linkLast, run_bind, run_readChain, hlast] at hrun
    simp at hrun
  | ok found =>
    cases found with
    | error e =>
      rw [linkLast, run_bind, run_readChain, hlast] at hrun
      obtain ⟨rfl, rfl⟩ := Prod.mk.inj (Except.ok.inj hrun)
      exact .inl ⟨e, rfl, rfl⟩
    | ok found =>
      obtain ⟨walked, hwalk, hfound⟩ := Heap.chain_map_eq_ok hlast
      cases walked with
      | error e => simp [Except.map] at hfound
      | ok visited =>
        obtain ⟨cells, hl, _⟩ := Heap.walk_eq_ok hwalk
        rcases List.eq_nil_or_concat' cells with rfl | ⟨init, ⟨last, cell⟩, rfl⟩
        · cases hl
        have hm : (last, cell) ∈ init ++ [(last, cell)] := by simp
        obtain ⟨nodes, hp, _⟩ := Heap.readCell_eq_ok_iff.mp (hl.readCell hm)
        rw [run_linkLast hl hp] at hrun
        obtain ⟨rfl, rfl⟩ := Prod.mk.inj (Except.ok.inj hrun)
        exact .inr ⟨(), rfl, init, last, cell, _, hl, hp, rfl⟩

theorem attach_attaches {heap : Heap} {list : Node} {first : Option (Handle × Cell)}
    (hf : heap.firstCell list = .ok first) (link : Handle) :
    (attach list first link).Leaves c fun r c' => (∃ e, r = .error e ∧ c' = c) ∨
      ∃ l, r = .ok l ∧ c.Attached link list l c' := by
  cases first with
  | none =>
    obtain rfl := Heap.firstCell_eq_none hf
    exact leaves_pure _ (.inr ⟨_, rfl, .alone⟩)
  | some p =>
    obtain ⟨first, cell⟩ := p
    obtain ⟨rfl, _⟩ := Heap.firstCell_eq_some hf
    refine (linkLast_relinks first link).bind_of_unchanged (fun e => .inl ⟨e, rfl, rfl⟩) ?_
    intro _ c₁ hlinked
    obtain ⟨init, last, cell, p, hl, hp, rfl⟩ := hlinked
    exact leaves_pure _ (.inr ⟨_, rfl, .behind hl hp⟩)

/-- Whatever goes wrong on the way, nothing is linked before the last step, and with that an append has
succeeded. -/
theorem append_attaches (list value : Node) (hw : a.heap.WellFormed) (ht : a.stack.Tidy) :
    (append list value).Leaves a fun r c => (∃ e, r = .error e ∧ a.Spares 2 c ∧ c.stack = a.stack) ∨
      ∃ l link head d, r = .ok l ∧ a.CellMade value link head d ∧ d.stack = a.stack ∧
        d.Attached link list l c := by
  have hs := Context.spares_refl hw
  have hframe := ValueStack.supports_pushFrame ht
  have hstart := hs.mono (show 0 ≤ 2 by omega)
  refine leaves_read_bind (fun e => .inl ⟨e, rfl, hstart, rfl⟩) ?_
  intro first hfirst
  refine leaves_scratch ht (leaves_push_bind list (fun e => ⟨hframe, .inl ⟨e, rfl, hstart, rfl⟩⟩) ?_)
  intro s₁ hpush₁
  have hsup₁ := hframe.push hpush₁
  refine leaves_push_bind value (fun e => ⟨hsup₁, .inl ⟨e, rfl, hstart, rfl⟩⟩) ?_
  intro s₂ hpush₂
  have hsup₂ := hsup₁.push hpush₂
  refine (makeHead_spares value (hs.withStack s₂) (by omega) hsup₂.tidy).bind ?_ ?_
  · intro e c₃ hfailed
    obtain ⟨hs₃, hsup₃, _⟩ := hfailed
    exact ⟨hsup₃ _ hsup₂, .inl ⟨e, rfl, (hs₃.withStack _).mono (by omega), rfl⟩⟩
  intro head c₃ hmade
  obtain ⟨hs₃, hsup₃, hhead⟩ := hmade
  obtain ⟨hvalue, hbox⟩ := hhead head rfl
  -- The cell is filled before the list is walked, so an error on the way finds nothing linked.
  refine leaves_build (.objects #[.cell ⟨head, none⟩]) hs₃ (by omega) rfl rfl (run_writeFirst_one _) ?_ ?_
  · exact fun e => ⟨hsup₃ _ hsup₂, .inl ⟨e, rfl, (hs₃.withStack _).mono (by omega), rfl⟩⟩
  intro link c₄ hs₄ hnew hstack₄ hcell hrooted
  have hvalue₄ : c₄.heap.headValue head = .ok value :=
    Heap.headValue_kept hvalue fun g hg p => hrooted g p (hbox g hg).1
  have hsup₄ : a.stack.Supports c₄.stack := hstack₄ ▸ hsup₃ _ hsup₂
  refine (attach_attaches hfirst link).mono ?_
  intro r c₅ hended
  rcases hended with ⟨e, rfl, rfl⟩ | ⟨l, rfl, hattached⟩
  · exact ⟨hsup₄, .inl ⟨e, rfl, hs₄.withStack _, rfl⟩⟩
  · have hsup₅ : a.stack.Supports c₅.stack := by cases hattached <;> exact hsup₄
    have hmade : a.CellMade value link head { c₄ with stack := a.stack } :=
      ⟨hs₄.withStack _, hnew, hcell, hvalue₄, fun g hg => (hbox g hg).2⟩
    exact ⟨hsup₅, .inr ⟨l, link, head, _, rfl, hmade, rfl, hattached.withStack a.stack⟩⟩

end Mutator

end GenerationalHeap
