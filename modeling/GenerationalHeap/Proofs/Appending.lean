import GenerationalHeap.Proofs.Effects
import GenerationalHeap.Proofs.Links
import GenerationalHeap.Proofs.Whole

namespace GenerationalHeap

/-- Contents whose first slot, if it is a cell, leads to another cell. -/
def Payload.relinked (link : Handle) : Payload → Payload
  | .objects nodes => .objects (nodes.modify 0 (·.withNext (some link)))
  | .bytes data => .bytes data

namespace Heap

variable {heap heap' : Heap} {h link : Handle} {cell : Cell} {head : Head} {list value : Node}
  {cells : List (Handle × Cell)} {held : Handle → Prop}

theorem readCell_relinked (hr : heap.readCell h = .ok cell)
    (hk : ∀ p, heap.payload? h = some p → heap'.payload? h = some (p.relinked link)) :
    heap'.readCell h = .ok { cell with next := some link } := by
  obtain ⟨nodes, hp, hn⟩ := readCell_eq_ok_iff.mp hr
  refine readCell_eq_ok_iff.mpr ⟨_, hk _ hp, ?_⟩
  rw [Array.getElem?_modify, if_pos rfl, hn]
  rfl

/-- How a heap comes from another when a value is appended to the list with these cells. The new cell
stands at `link`, the last cell of the list leads to it, and all else that was held is as it was. -/
structure Extended (heap : Heap) (held : Handle → Prop) (cells : List (Handle × Cell)) (value : Node)
    (link : Handle) (head : Head) (heap' : Heap) : Prop where
  head_value : heap'.headValue head = .ok value
  new : heap'.readCell link = .ok ⟨head, none⟩
  last : ∀ last ∈ cells.getLast?, ∀ p, heap.payload? last.1 = some p →
    heap'.payload? last.1 = some (p.relinked link)
  kept : ∀ h p, held h → (∀ last ∈ cells.getLast?, h ≠ last.1) → heap.payload? h = some p →
    heap'.payload? h = some p

/-- The pointer to a list with one more cell: the same, unless there was none before. -/
def extendedList (list : Node) (link : Handle) : Node :=
  if list = .emptyList then .ref link else list

/-- The list has the cells it had, the last of them relinked, and the new one. -/
theorem Extended.links (he : heap.Extended held cells value link head heap')
    (hl : heap.Links list cells) (hheld : ∀ link ∈ cells, held link.1) :
    ∃ cells', heap'.Links (extendedList list link) cells' ∧
      cells'.map (·.2.head) = cells.map (·.2.head) ++ [head] := by
  have hnew : heap'.Links (.ref link) [(link, ⟨head, none⟩)] := .cons he.new .nil
  rcases List.eq_nil_or_concat' cells with rfl | ⟨init, ⟨last, cell⟩, rfl⟩
  · rw [extendedList, if_pos (hl.eq_nil_iff.mp rfl)]
    exact ⟨_, hnew, rfl⟩
  · rw [extendedList, if_neg fun hempty => by simpa using hl.eq_nil_iff.mpr hempty]
    have hm : (last, cell) ∈ init ++ [(last, cell)] := by simp
    have hlast : heap'.readCell last = .ok { cell with next := some link } :=
      readCell_relinked (hl.readCell hm) (he.last (last, cell) (by simp))
    have hinit : ∀ link ∈ init, heap'.readCell link.1 = .ok link.2 := by
      intro g hg
      have hmem : g ∈ init ++ [(last, cell)] := List.mem_append_left _ hg
      refine readCell_kept (hl.readCell hmem) fun p => he.kept _ p (hheld g hmem) ?_
      intro x hfinal
      obtain rfl : (last, cell) = x := by simpa using hfinal
      exact hl.ne_last hg
    exact ⟨_, hl.relink hinit hlast hnew, by simp⟩

/-- The heads stand for what they stood for, unless the last cell is itself the box of an element. -/
theorem Extended.elements (he : heap.Extended held cells value link head heap') {elements : List Node}
    (hv : List.Forall₂ (fun head value => heap.headValue head = .ok value) (cells.map (·.2.head)) elements)
    (hheld : ∀ link ∈ cells, ∀ g ∈ link.2.head.references, held g)
    (hapart : ∀ last ∈ cells.getLast?, ∀ link ∈ cells, link.2.head ≠ .boxed last.1) :
    List.Forall₂ (fun head value => heap'.headValue head = .ok value)
      (cells.map (·.2.head) ++ [head]) (elements ++ [value]) := by
  refine List.rel_append ?_ (.cons he.head_value .nil)
  rw [List.forall₂_map_left_iff] at hv ⊢
  have hmem : ∀ link ∈ cells, link ∈ cells := fun _ hm => hm
  refine ((List.forall₂_and_left _ _).mpr ⟨hmem, hv⟩).imp fun link v hboth => ?_
  obtain ⟨hm, hvalue⟩ := hboth
  refine headValue_kept hvalue fun g hg p => he.kept g p (hheld link hm g hg) ?_
  rintro last hlast rfl
  apply hapart last hlast link hm
  cases hhead : link.2.head with
  | scalar value => simp [hhead, Head.references] at hg
  | boxed box => simp_all [Head.references]

end Heap

namespace Context

variable {c : Context} {e : RuntimeError}

/-- Why an operation may fail that takes so many slots of the stack and allocations of one slot. -/
def Short (c : Context) (slots : Nat) (e : RuntimeError) : Prop :=
  e = .stackOverflow c.stack.capacity ∧ c.stack.capacity < c.stack.top + slots ∨
    e = .allocationTooLarge nodeBytes c.config.maxAllocationBytes ∧
      c.config.maxAllocationBytes < nodeBytes

theorem short_of_full (hfull : c.stack.capacity ≤ c.stack.top) :
    c.Short 1 (.stackOverflow c.stack.capacity) :=
  .inl ⟨rfl, Nat.lt_succ_of_le hfull⟩

theorem Short.of_stack {c' : Context} {n k : Nat} (hs : c'.Short n e) (hconfig : c'.config = c.config)
    (hcapacity : c'.stack.capacity = c.stack.capacity) (htop : c'.stack.top + n ≤ c.stack.top + k) :
    c.Short k e := by
  rcases hs with ⟨rfl, hlt⟩ | ⟨rfl, hlt⟩
  · exact .inl ⟨by rw [hcapacity], by omega⟩
  · exact .inr ⟨by rw [hconfig], by rwa [hconfig] at hlt⟩

end Context

namespace Mutator

variable {c : Context}

/-- The value is on the stack while its box is allocated. -/
theorem allocateBox_returns (value : Node) (hw : c.Whole) (hroot : ∀ g ∈ value.references, c.IsRoot g) :
    (allocateBox value).Returns c fun r c' => c'.stack = c.stack ∧
      ((∃ e, r = .error e ∧ c.Short 1 e) ∨ ∃ box, r = .ok box ∧ c.Carries c' ∧ c'.Whole ∧
        c'.heap.payload? box = some (.objects #[value]) ∧ ¬ c.heap.slots.Reaches c.IsRoot box) := by
  have hframe := ValueStack.supports_pushFrame hw.tidy
  refine returns_scratch hw.tidy (returns_push value ?_ ?_)
  · intro hfull
    exact ⟨hframe, rfl, .inl ⟨_, rfl, Context.short_of_full hfull⟩⟩
  intro s hs
  have hsup := hframe.push hs
  have hext : c.stack.Extends s := by
    have hpushed := (ValueStack.push_extends hs).1
    exact ⟨hpushed.top_le, hpushed.slot_eq⟩
  have hws : ({ c with stack := s } : Context).Whole := by
    refine hw.withStack hsup.tidy fun g hg => ?_
    rw [Context.isRoot_push hs, Context.isRoot_pushFrame] at hg
    exact hg.elim id (hroot g)
  refine returns_allocate_fill hws value ?_ ?_
  · intro hlt
    exact ⟨hsup, rfl, .inl ⟨_, rfl, .inr ⟨rfl, hlt⟩⟩⟩
  · intro box c' hcarries hw' hstack hp hapart
    have hpushed := Context.carries_withStack hext
    have hback : ({ c' with stack := c.stack } : Context).Whole :=
      hw'.withStack hw.tidy fun g hg => hg.mono (hstack ▸ hext) rfl rfl
    refine returns_pure box ⟨hstack ▸ hsup, rfl, .inr ⟨box, rfl, ?_, hback, hp, ?_⟩⟩
    · exact (hpushed.trans hcarries).restore
    · exact fun hr => hapart (hpushed.reaches hr)

/-- What making a head comes to: the operation is short of something, or the head stands for the value
and its box is new and rooted. -/
def HeadMade (c : Context) (value : Node) (r : Except RuntimeError Head) (c' : Context) : Prop :=
  (∀ t : ValueStack, t.Supports c.stack → t.Supports c'.stack) ∧
    ((∃ e, r = .error e ∧ c.Short 1 e) ∨ ∃ head, r = .ok head ∧ c.Carries c' ∧ c'.Whole ∧
      c'.heap.headValue head = .ok value ∧
      ∀ g ∈ head.references, c'.IsRoot g ∧ ¬ c.heap.slots.Reaches c.IsRoot g)

theorem boxHead_returns (value : Node) (hw : c.Whole) (hroot : ∀ g ∈ value.references, c.IsRoot g) :
    (do
      let box ← allocateBox value
      push (.ref box)
      return Head.boxed box : Mutator Head).Returns c (HeadMade c value) := by
  refine (allocateBox_returns value hw hroot).bind ?_ ?_
  · intro e c₁ hfailed
    obtain ⟨hstack, ⟨_, he, hshort⟩ | ⟨_, he, _⟩⟩ := hfailed
    · obtain rfl := Except.error.inj he
      exact ⟨fun t ht => hstack ▸ ht, .inl ⟨e, rfl, hshort⟩⟩
    · simp at he
  intro box c₁ hallocated
  obtain ⟨hstack, ⟨_, he, _⟩ | ⟨_, hbox, hcarries, hw₁, hp, hapart⟩⟩ := hallocated
  · simp at he
  obtain rfl := Except.ok.inj hbox
  refine returns_push (.ref box) ?_ ?_
  · intro hfull
    rw [hstack] at hfull ⊢
    exact ⟨fun t ht => hstack ▸ ht, .inl ⟨_, rfl, Context.short_of_full hfull⟩⟩
  · intro s hs
    have hrefs : ∀ g ∈ (Payload.objects #[value]).references, c₁.IsRoot g := by
      intro g hg
      exact hcarries.isRoot (hroot g (by simpa [Payload.references] using hg))
    have hpushed := Context.carries_withStack (ValueStack.push_extends hs).1
    refine returns_pure _ ⟨fun t ht => (hstack ▸ ht : t.Supports c₁.stack).push hs,
      .inr ⟨_, rfl, hcarries.trans hpushed, hw₁.push_ref hp hrefs hs, Heap.headValue_boxed hp, ?_⟩⟩
    intro g hg
    obtain rfl : g = box := by simpa [Head.references] using hg
    exact ⟨(Context.isRoot_push hs g).mpr (.inr (by simp [Node.ref, Node.references])), hapart⟩

theorem makeHead_returns (value : Node) (hw : c.Whole) (hroot : ∀ g ∈ value.references, c.IsRoot g) :
    (makeHead value).Returns c (HeadMade c value) := by
  cases value with
  | scalar value =>
    refine returns_pure _ ⟨fun _ ht => ht, .inr ⟨_, rfl, ?_, hw, rfl, by simp [Head.references]⟩⟩
    exact Context.carries_withStack (.refl _)
  | undefined | pointer | string | closure | cell => exact boxHead_returns _ hw hroot

variable {list : Node} {cells : List (Handle × Cell)}

theorem run_linkLast {first last : Handle} {cell : Cell} {init : List (Handle × Cell)} {p : Payload}
    (hl : c.heap.Links (.ref first) (init ++ [(last, cell)])) (hp : c.heap.payload? last = some p)
    (link : Handle) : (linkLast first link).run.run c =
      .ok (.ok (), { c with heap := c.heap.setPayload last.index (p.relinked link) }) := by
  have hm : (last, cell) ∈ init ++ [(last, cell)] := by simp
  obtain ⟨nodes, hnodes, _⟩ := Heap.readCell_eq_ok_iff.mp (hl.readCell hm)
  obtain rfl := Option.some.inj (hnodes.symm.trans hp)
  rw [linkLast, run_bind, run_readChain, hl.lastCell_eq]
  simp only [run_modifyObjects, Heap.modifyObjects, Heap.objects_eq_ok.mpr hp, Except.map]
  rfl

/-- The last cell of the list is relinked, if there is one, and nothing else is written. -/
theorem attach_returns (hl : c.heap.Links list cells) (link : Handle) :
    (attach list cells.head? link).Returns c fun r c' =>
      r = .ok (Heap.extendedList list link) ∧ c'.stack = c.stack ∧
      (∀ g, (∀ last ∈ cells.getLast?, g ≠ last.1) → c'.heap.payload? g = c.heap.payload? g) ∧
      ∀ last ∈ cells.getLast?, ∀ p, c.heap.payload? last.1 = some p →
        c'.heap.payload? last.1 = some (p.relinked link) := by
  cases hl with
  | nil => exact returns_pure _ ⟨rfl, rfl, fun _ _ => rfl, by simp⟩
  | @cons first cell₀ rest hread hrest =>
    have hlinks := Heap.Links.cons hread hrest
    obtain ⟨init, ⟨last, cell⟩, hcells⟩ : ∃ init last, (first, cell₀) :: rest = init ++ [last] := by
      simpa using List.eq_nil_or_concat' ((first, cell₀) :: rest)
    rw [hcells] at hlinks
    have hlast : ((first, cell₀) :: rest).getLast? = some (last, cell) := by simp [hcells]
    have hm : (last, cell) ∈ init ++ [(last, cell)] := by simp
    obtain ⟨nodes, hp, _⟩ := Heap.readCell_eq_ok_iff.mp (hlinks.readCell hm)
    have hrun : (attach (.ref first) (some (first, cell₀)) link).run.run c = .ok (.ok (.ref first),
        { c with heap := c.heap.setPayload last.index ((Payload.objects nodes).relinked link) }) := by
      rw [attach, run_bind, run_linkLast hlinks hp]
      rfl
    refine ⟨_, _, hrun, rfl, rfl, ?_, ?_⟩
    · intro g hg
      have hne : g ≠ last := hg _ hlast
      simp only [Heap.payload?_setPayload hp, if_neg hne]
    · intro x hother p hp'
      obtain rfl := Option.some.inj (hlast.symm.trans hother)
      obtain rfl := Option.some.inj (hp.symm.trans hp')
      simp only [Heap.payload?_setPayload hp, if_true]

/-- The new cell is linked when its head stands for the value: the list then has one more cell, and all
else that the roots reached at the start is as it was. -/
theorem attach_extends {c₁ c₂ : Context} {value : Node} {head : Head} {link : Handle}
    (hl : c.heap.Links list cells) (hlist : ∀ g ∈ list.references, c.IsRoot g) (hcarries₁ : c.Carries c₁)
    (hvalue : c₁.heap.headValue head = .ok value)
    (hbox : ∀ g ∈ head.references, c₁.IsRoot g ∧ ¬ c.heap.slots.Reaches c.IsRoot g)
    (hcarries₂ : c₁.Carries c₂) (hp : c₂.heap.payload? link = some (.objects #[.cell ⟨head, none⟩]))
    (hapart : ¬ c₁.heap.slots.Reaches c₁.IsRoot link) :
    (attach list cells.head? link).Returns c₂ fun r c₃ =>
      r = .ok (Heap.extendedList list link) ∧ c₃.stack = c₂.stack ∧
      c.heap.Extended (c.heap.slots.Reaches c.IsRoot) cells value link head c₃.heap := by
  have hkept := (hcarries₁.trans hcarries₂).kept
  have hreached : ∀ x ∈ cells, c.heap.slots.Reaches c.IsRoot x.1 := fun x hm =>
    (hl.reaches (fun g hg => .root (hlist g hg)) hm).1
  have hlast : ∀ last ∈ cells.getLast?, c.heap.slots.Reaches c.IsRoot last.1 := fun last hm =>
    hreached last (List.mem_of_getLast? hm)
  have hl₂ : c₂.heap.Links list cells := hl.transport fun x hm =>
    Heap.readCell_kept (hl.readCell hm) fun p => hkept x.1 p (hreached x hm)
  obtain ⟨r, c₃, hrun, hr, hstack, hsame, hrelinked⟩ := attach_returns hl₂ link
  refine ⟨r, c₃, hrun, hr, hstack, ?_, ?_, ?_, ?_⟩
  · refine Heap.headValue_kept hvalue fun g hg p hp => ?_
    obtain ⟨hrooted, hnew⟩ := hbox g hg
    rw [hsame g fun last hm he => hnew (he ▸ hlast last hm)]
    exact hcarries₂.kept g p (.root hrooted) hp
  · refine Heap.readCell_eq_ok_iff.mpr ⟨#[.cell ⟨head, none⟩], ?_, rfl⟩
    rw [hsame link fun last hm he => hapart (he ▸ hcarries₁.reaches (hlast last hm))]
    exact hp
  · intro last hm p hp
    exact hrelinked last hm p (hkept last.1 p (hlast last hm) hp)
  · intro g p hheld hne hp
    rw [hsame g hne]
    exact hkept g p hheld hp

/-- An append ends. It is short of something, or its list has one more cell, and all else that it could
reach is as it was. -/
theorem append_returns {value : Node} (hw : c.heap.WellFormed) (ht : c.stack.Tidy)
    (hl : c.heap.Links list cells)
    (hlive : ∀ h, c.heap.slots.Reaches (c.Holds (list.references ++ value.references)) h → c.heap.Live h) :
    (append list value).Returns c fun r c' => (∃ e, r = .error e ∧ c.Short 3 e) ∨
      ∃ link head, r = .ok (Heap.extendedList list link) ∧
        c.heap.Extended (c.heap.slots.Reaches (c.Holds (list.references ++ value.references)))
          cells value link head c'.heap := by
  have hframe := ValueStack.supports_pushFrame ht
  refine returns_read hl.firstCell_eq (returns_scratch ht (returns_push list ?_ ?_))
  · intro hfull
    refine ⟨hframe, .inl ⟨_, rfl, (Context.short_of_full hfull).of_stack rfl rfl ?_⟩⟩
    exact Nat.add_le_add_left (by omega) c.stack.top
  intro s₁ hs₁
  have hsup₁ := hframe.push hs₁
  have htop₁ : s₁.top = c.stack.top + 1 := (ValueStack.push_eq_ok hs₁).1
  refine returns_push value ?_ ?_
  · intro hfull
    refine ⟨hsup₁, .inl ⟨_, rfl, (Context.short_of_full hfull).of_stack rfl hsup₁.capacity_eq ?_⟩⟩
    simp only [htop₁]
    omega
  intro s₂ hs₂
  have hsup₂ := hsup₁.push hs₂
  have htop₂ : s₂.top = c.stack.top + 2 := (ValueStack.push_eq_ok hs₂).1.trans (by rw [htop₁])
  -- With list and value on the stack, the roots are what the operation has in hand.
  have hroot : ({ c with stack := s₂ } : Context).IsRoot =
      c.Holds (list.references ++ value.references) := by
    funext g
    rw [Context.isRoot_push hs₂, Context.isRoot_push hs₁, Context.isRoot_pushFrame]
    simp [Context.Holds, or_assoc]
  have hw₂ : ({ c with stack := s₂ } : Context).Whole := ⟨hw, hsup₂.tidy, by rwa [hroot]⟩
  have hoperands : ∀ g ∈ list.references ++ value.references,
      ({ c with stack := s₂ } : Context).IsRoot g := by
    intro g hg
    rw [hroot]
    exact .inr hg
  rw [← hroot]
  refine (makeHead_returns value hw₂ fun g hg => hoperands g (List.mem_append_right _ hg)).bind ?_ ?_
  · intro e c₃ hfailed
    obtain ⟨hsup₃, ⟨_, he, hshort⟩ | ⟨_, he, _⟩⟩ := hfailed
    · obtain rfl := Except.error.inj he
      refine ⟨hsup₃ _ hsup₂, .inl ⟨e, rfl, hshort.of_stack rfl hsup₂.capacity_eq ?_⟩⟩
      simp only [htop₂]
      omega
    · simp at he
  intro head c₃ hmade
  obtain ⟨hsup₃, ⟨_, he, _⟩ | ⟨_, hh, hcarries₃, hw₃, hvalue, hbox⟩⟩ := hmade
  · simp at he
  obtain rfl := Except.ok.inj hh
  refine returns_allocate_fill hw₃ (.cell ⟨head, none⟩) ?_ ?_
  · intro hlt
    rw [hcarries₃.config] at hlt ⊢
    exact ⟨hsup₃ _ hsup₂, .inl ⟨_, rfl, .inr ⟨rfl, hlt⟩⟩⟩
  intro link c₄ hcarries₄ _ hstack₄ hp hapart
  obtain ⟨r, c₅, hrun, hr, hstack₅, hextended⟩ := attach_extends (c := { c with stack := s₂ }) hl
    (fun g hg => hoperands g (List.mem_append_left _ hg)) hcarries₃ hvalue hbox hcarries₄ hp hapart
  have hsup₅ : c.stack.Supports c₅.stack := by
    rw [hstack₅, hstack₄]
    exact hsup₃ _ hsup₂
  exact ⟨r, c₅, hrun, hsup₅, .inr ⟨link, head, hr, hextended⟩⟩

end Mutator

/-- Appending adds one element at the end, whatever collections run meanwhile and whether or not the
caller rooted the list or the value. The list is the empty one or ends, and its last cell is not itself
the box of an element. Nothing but a full stack or the limit on allocations makes the operation fail,
and three free slots and a limit of one value rule that out. -/
theorem append_adds_last {config : Config} {ctx : Context} (hr : Reachable config ctx)
    (list value : Node) {elements : List Node}
    (helements : (ctx.heap.listElements list).run = .ok (.ok elements))
    (hapart : ∀ cells, ctx.heap.Links list cells → ∀ last ∈ cells.getLast?,
      ∀ link ∈ cells, link.2.head ≠ .boxed last.1)
    (hlive : ∀ h, ctx.heap.slots.Reaches (ctx.Holds (list.references ++ value.references)) h →
      ctx.heap.Live h) :
    ∃ r c, (Mutator.append list value).run.run ctx = .ok (r, c) ∧
      ((∃ capacity, r = .error (.stackOverflow capacity)) ∨
        (∃ requested limit, r = .error (.allocationTooLarge requested limit)) ∨
        ∃ l, r = .ok l ∧ (c.heap.listElements l).run = .ok (.ok (elements ++ [value])) ∧
          (c.heap.listLength l).run = .ok (.ok (elements.length + 1)) ∧
          (list ≠ .emptyList → l = list)) ∧
      (ctx.stack.top + 3 ≤ ctx.stack.capacity → 24 ≤ ctx.config.maxAllocationBytes →
        ∃ l, r = .ok l) := by
  obtain ⟨cells, hl, hvalues⟩ := Heap.listElements_eq_ok_iff.mp helements
  obtain ⟨r, c, hrun, hdone⟩ := Mutator.append_returns hr.wellFormed hr.tidy hl hlive
  refine ⟨r, c, hrun, ?_⟩
  rcases hdone with ⟨e, rfl, hshort⟩ | ⟨link, head, rfl, hextended⟩
  · rcases hshort with ⟨rfl, hlt⟩ | ⟨rfl, hlt⟩
    · refine ⟨.inl ⟨_, rfl⟩, fun hroom _ => ?_⟩
      omega
    · refine ⟨.inr (.inl ⟨_, _, rfl⟩), fun _ hlimit => ?_⟩
      rw [nodeBytes] at hlt
      omega
  · have hstart : ∀ g ∈ list.references,
        ctx.heap.slots.Reaches (ctx.Holds (list.references ++ value.references)) g :=
      fun g hg => .root (.inr (List.mem_append_left _ hg))
    obtain ⟨cells', hl', hheads⟩ := hextended.links hl fun _ hm => (hl.reaches hstart hm).1
    have hvalues' := hextended.elements hvalues (fun _ hm => (hl.reaches hstart hm).2) (hapart cells hl)
    rw [← hheads] at hvalues'
    have hlength : cells'.length = elements.length + 1 := by simpa using hvalues'.length_eq
    refine ⟨.inr (.inr ⟨_, rfl, Heap.listElements_eq_ok_iff.mpr ⟨cells', hl', hvalues'⟩, ?_, ?_⟩),
      fun _ _ => ⟨_, rfl⟩⟩
    · rw [hl'.listLength_eq, hlength]
    · exact fun hne => if_neg hne

/-- With just enough room, a list of which nothing else knows is appended to itself. The arena is full, so
both allocations collect. -/
theorem append_adds_last_itself :
    ∃ ctx list c, Reachable { arenaBytes := 64, stackSlots := 3, maxAllocationBytes := 24 } ctx ∧
      list = .ref ⟨0, 1⟩ ∧ ctx.rootHandles = [] ∧
      (ctx.heap.listElements list).run = .ok (.ok [.integer 1]) ∧
      (Mutator.append list list).run.run ctx = .ok (.ok list, c) ∧
      c.totals.collections = ctx.totals.collections + 2 ∧
      (c.heap.listElements list).run = .ok (.ok [.integer 1, list]) := by
  have hstart : Reachable { arenaBytes := 64, stackSlots := 3, maxAllocationBytes := 24 } _ := .start rfl
  have hr := hstart.after [.act (.append Node.emptyList (Node.integer 1))]
  generalize hctx : Context.after _ _ = ctx at hr
  have hroots : ctx.rootHandles = [] := by
    rw [← hctx]
    cbv
  have helements : (ctx.heap.listElements (.ref ⟨0, 1⟩)).run = .ok (.ok [.integer 1]) := by
    rw [← hctx]
    cbv
  have hpayload : ctx.heap.payload? ⟨0, 1⟩ = some (.objects #[.cell ⟨.scalar (.integer 1), none⟩]) := by
    rw [← hctx]
    cbv
  have hcount : ((Mutator.append (.ref ⟨0, 1⟩) (.ref ⟨0, 1⟩)).run.run ctx).toOption.map
      (·.2.totals.collections) = some (ctx.totals.collections + 2) := by
    rw [← hctx]
    cbv
  have hroom : ctx.stack.top + 3 ≤ ctx.stack.capacity ∧ 24 ≤ ctx.config.maxAllocationBytes := by
    rw [← hctx]
    cbv
  have hl : ctx.heap.Links (.ref ⟨0, 1⟩) [(⟨0, 1⟩, ⟨.scalar (.integer 1), none⟩)] :=
    .cons (Heap.readCell_eq_ok_iff.mpr ⟨_, hpayload, rfl⟩) .nil
  have hreached : ∀ h, ctx.heap.slots.Reaches (ctx.Holds [⟨0, 1⟩, ⟨0, 1⟩]) h → h = ⟨0, 1⟩ := by
    intro h hh
    induction hh with
    | root hheld =>
      rcases hheld with hheld | hheld
      · rw [← ctx.mem_rootHandles, hroots] at hheld
        simp at hheld
      · simpa using hheld
    | edge _ hb hg ih =>
      subst ih
      obtain ⟨b, hb', he⟩ := Heap.payload?_eq_some.mp hpayload
      obtain rfl := Option.some.inj (hb.symm.trans hb')
      simp [he, Payload.references, Node.references, Head.references] at hg
  obtain ⟨r, c, hrun, hcases, hok⟩ := append_adds_last hr (.ref ⟨0, 1⟩) (.ref ⟨0, 1⟩) helements
    (by
      intro cells hcells last hlast link hlink
      obtain rfl := hl.unique hcells
      obtain rfl : link = _ := by simpa using hlink
      simp)
    (by
      intro h hh
      obtain rfl := hreached h hh
      exact Heap.live_of_payload? hpayload)
  obtain ⟨l, rfl⟩ := hok hroom.1 hroom.2
  rcases hcases with ⟨_, he⟩ | ⟨_, _, he⟩ | ⟨_, he, hafter, _, hsame⟩
  · simp at he
  · simp at he
  obtain rfl := Except.ok.inj he
  obtain rfl := hsame (by simp [Node.ref, Node.emptyList])
  rw [hrun] at hcount
  exact ⟨ctx, _, c, hr, rfl, hroots, helements, hrun, Option.some.inj hcount, hafter⟩

end GenerationalHeap
