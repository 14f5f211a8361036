import GenerationalHeap.Proofs.Spared

namespace GenerationalHeap

namespace Heap

variable {heap heap' : Heap} {list : Node} {init cells : List (Handle × Cell)} {last link : Handle}
  {cell : Cell} {head : Head}

/-- How a heap comes from another when the cell at `last` is linked to a new one at `link`. -/
structure Relinks (heap : Heap) (last link : Handle) (head : Head) (heap' : Heap) : Prop where
  relinked : ∀ p, heap.payload? last = some p → heap'.payload? last = some (p.relinked link)
  others : ∀ g, g ≠ last → heap'.payload? g = heap.payload? g
  new : heap'.readCell link = .ok ⟨head, none⟩

theorem Relinks.live_iff (hr : heap.Relinks last link head heap') (hlast : heap.Live last) (g : Handle) :
    heap'.Live g ↔ heap.Live g := by
  by_cases hg : g = last
  · subst hg
    obtain ⟨p, hp⟩ := Heap.live_iff.mp hlast
    exact ⟨fun _ => hlast, fun _ => live_of_payload? (hr.relinked p hp)⟩
  · rw [Heap.live_iff, hr.others g hg, ← Heap.live_iff]

theorem Relinks.readCell (hr : heap.Relinks last link head heap') {g : Handle} (hg : g ≠ last)
    (hread : heap.readCell g = .ok cell) : heap'.readCell g = .ok cell :=
  readCell_kept hread fun _ hp => (hr.others g hg).trans hp

/-- A list that does not pass the cell stays as it is. -/
theorem Relinks.links_apart (hr : heap.Relinks last link head heap') (hl : heap.Links list cells)
    (hapart : last ∉ cells.map Prod.fst) : heap'.Links list cells := by
  apply hl.transport
  intro x hmem
  apply hr.readCell _ (hl.readCell hmem)
  rintro rfl
  exact hapart (List.mem_map_of_mem hmem)

/-- A list that ends in the cell goes on with the new one. -/
theorem Relinks.links_ending (hr : heap.Relinks last link head heap')
    (hl : heap.Links list (init ++ [(last, cell)])) :
    heap'.Links list (init ++ [(last, { cell with next := some link }), (link, ⟨head, none⟩)]) := by
  apply hl.relink
  · intro x hmem
    exact hr.readCell (hl.ne_last hmem) (hl.readCell (List.mem_append_left _ hmem))
  · have hmem : (last, cell) ∈ init ++ [(last, cell)] := by simp
    exact readCell_relinked (hl.readCell hmem) hr.relinked
  · exact .cons hr.new .nil

end Heap

/-- Linking the new cell behind the end of a list writes to one allocation that was there at the start. -/
theorem Context.CellMade.relinks {a d : Context} {value list : Node} {link : Handle} {head : Head}
    {init : List (Handle × Cell)} {last : Handle} {cell : Cell} {p : Payload}
    (hm : a.CellMade value link head d) (hl : a.heap.Links list (init ++ [(last, cell)]))
    (hp : d.heap.payload? last = some p) :
    d.heap.Relinks last link head (d.heap.setPayload last.index (p.relinked link)) ∧
      (d.heap.setPayload last.index (p.relinked link)).headValue head = .ok value := by
  have hpayload := Heap.payload?_setPayload hp (p.relinked link)
  have hmem : (last, cell) ∈ init ++ [(last, cell)] := by simp
  have hlast : a.heap.Live last := hl.live hmem
  have hothers : ∀ g, g ≠ last →
      (d.heap.setPayload last.index (p.relinked link)).payload? g = d.heap.payload? g := by
    intro g hg
    rw [hpayload, if_neg hg]
  have hlink : link ≠ last := by
    rintro rfl
    exact hm.new hlast
  refine ⟨⟨?_, hothers, ?_⟩, ?_⟩
  · intro q hq
    obtain rfl := Option.some.inj (hp.symm.trans hq)
    rw [hpayload, if_pos rfl]
  · exact Heap.readCell_eq_ok_iff.mpr ⟨_, (hothers link hlink).trans hm.cell, rfl⟩
  · apply Heap.headValue_kept hm.head_value
    intro g hg q hq
    rw [hothers g]
    · exact hq
    · rintro rfl
      exact hm.box_new g hg hlast

theorem Mutator.append_keeps_held {ctx : Context} (list value : Node) (hw : ctx.heap.WellFormed)
    (ht : ctx.stack.Tidy) : (append list value).Leaves ctx fun _ c =>
      ∀ h, ctx.heap.slots.Reaches (ctx.Holds (list.references ++ value.references)) h →
        ctx.heap.Live h → c.heap.Live h := by
  intro r c hrun h hreached hl
  have hroot : ∀ g, ctx.Holds (list.references ++ value.references) g →
      ctx.IsRoot g ∨ g ∈ list.references ∨ g ∈ value.references := by
    simp [Context.Holds]
  have hsurvives := (append_survives list value hw ht hroot r c hrun).2.2
  obtain ⟨p, hp⟩ := Heap.live_iff.mp hl
  obtain ⟨q, hq, _⟩ := hsurvives.kept h p hp (.inr hreached)
  exact Heap.live_of_payload? hq

/-- An append to a list with cells touches the last of them and nothing else. What was there and is still
there has its contents, but for the link of that cell, and stack and roots are as they were. So every list
that ended in the cell goes on with the new one, whether or not it is part of the list appended to, and
every list that did not is as it was. What the roots and the two operands reached is still there. -/
theorem append_touches_last {config : Config} {ctx : Context} (hr : Reachable config ctx)
    {list value l : Node} {init : List (Handle × Cell)} {last : Handle} {cell : Cell} {c : Context}
    (hl : ctx.heap.Links list (init ++ [(last, cell)]))
    (hrun : (Mutator.append list value).run.run ctx = .ok (.ok l, c)) :
    ∃ link head, l = list ∧ ¬ ctx.heap.Live link ∧ c.heap.readCell link = .ok ⟨head, none⟩ ∧
      c.heap.headValue head = .ok value ∧
      (∀ h p q, h ≠ last → ctx.heap.payload? h = some p → c.heap.payload? h = some q → q = p) ∧
      cell.next = none ∧
      (∃ nodes nodes', ctx.heap.payload? last = some (.objects nodes) ∧
        c.heap.payload? last = some (.objects nodes') ∧ nodes'.size = nodes.size ∧
        nodes[0]? = some (.cell cell) ∧ nodes'[0]? = some (.cell { cell with next := some link }) ∧
        ∀ i, i ≠ 0 → nodes'[i]? = nodes[i]?) ∧
      c.roots = ctx.roots ∧ c.captures = ctx.captures ∧ c.stack = ctx.stack ∧
      (∀ h, ctx.heap.slots.Reaches (ctx.Holds (list.references ++ value.references)) h →
        ctx.heap.Live h → c.heap.Live h) ∧
      ∀ other cells, ctx.heap.Links other cells → c.heap.Backs other →
        (∀ before, cells = before ++ [(last, cell)] → c.heap.Links other
          (before ++ [(last, { cell with next := some link }), (link, ⟨head, none⟩)])) ∧
        (last ∉ cells.map Prod.fst → c.heap.Links other cells) := by
  have hmem : (last, cell) ∈ init ++ [(last, cell)] := by simp
  obtain ⟨nodes, hnodes, hfirst⟩ := Heap.readCell_eq_ok_iff.mp (hl.readCell hmem)
  have hheld := Mutator.append_keeps_held list value hr.wellFormed hr.tidy _ _ hrun
  rcases Mutator.append_attaches list value hr.wellFormed hr.tidy _ _ hrun with
    ⟨_, he, _⟩ | ⟨_, link, head, d, hok, hmade, hstack, hattached⟩
  · simp at he
  obtain rfl := Except.ok.inj hok
  cases hattached with
  | alone => simpa using hl.eq_nil_iff.mpr rfl
  | @behind _ init' last' cell' p hl' hp =>
    obtain ⟨rfl, hlast⟩ := List.append_inj' (hmade.links_eq hl hl') rfl
    obtain ⟨rfl, rfl⟩ : last' = last ∧ cell' = cell := by simpa using hlast
    obtain ⟨hrelinks, hvalue⟩ := hmade.relinks hl hp
    have hlink := hrelinks.relinked _ (hmade.payload? hnodes (Heap.live_of_payload? hp))
    refine ⟨link, head, rfl, hmade.new, hrelinks.new, hvalue, ?_, hl.last_next, ?_, hmade.roots,
      hmade.captures, hstack, hheld, ?_⟩
    · intro h p q hne hp hq
      rw [hrelinks.others h hne] at hq
      have hkept := hmade.payload? hp (Heap.live_of_payload? hq)
      exact Option.some.inj (hq.symm.trans hkept)
    · refine ⟨nodes, _, hnodes, hlink, by simp, hfirst, ?_, ?_⟩
      · rw [Array.getElem?_modify, if_pos rfl, hfirst]
        rfl
      · intro i hi
        rw [Array.getElem?_modify, if_neg (Ne.symm hi)]
    · intro other cells hother hbacks
      have hbefore : d.heap.Backs other := fun g hg =>
        (hrelinks.live_iff (Heap.live_of_payload? hp) g).mp (hbacks g hg)
      have hlinks := hmade.links hother hbefore
      constructor
      · rintro before rfl
        exact hrelinks.links_ending hlinks
      · intro hapart
        exact hrelinks.links_apart hlinks hapart

/-- A second head leads to the last cell of this list, and a list of its own stands beside. The arena is
full, so the append collects and moves them all. -/
theorem append_touches_last_second_head :
    ∃ ctx c link head, Reachable { arenaBytes := 256, stackSlots := 4 } ctx ∧
      ctx.heap.Links (.ref ⟨0, 1⟩) [(⟨0, 1⟩, ⟨.scalar (.integer 1), some ⟨1, 1⟩⟩),
        (⟨1, 1⟩, ⟨.scalar (.integer 2), none⟩)] ∧
      ctx.heap.Links (.ref ⟨2, 1⟩) [(⟨2, 1⟩, ⟨.scalar (.integer 7), some ⟨1, 1⟩⟩),
        (⟨1, 1⟩, ⟨.scalar (.integer 2), none⟩)] ∧
      ctx.heap.Links (.ref ⟨3, 1⟩) [(⟨3, 1⟩, ⟨.scalar (.integer 9), none⟩)] ∧
      (Mutator.append (.ref ⟨0, 1⟩) (.integer 3)).run.run ctx = .ok (.ok (.ref ⟨0, 1⟩), c) ∧
      c.totals.collections = ctx.totals.collections + 1 ∧
      c.heap.Links (.ref ⟨2, 1⟩) [(⟨2, 1⟩, ⟨.scalar (.integer 7), some ⟨1, 1⟩⟩),
        (⟨1, 1⟩, ⟨.scalar (.integer 2), some link⟩), (link, ⟨head, none⟩)] ∧
      c.heap.Links (.ref ⟨3, 1⟩) [(⟨3, 1⟩, ⟨.scalar (.integer 9), none⟩)] := by
  have hstart : Reachable { arenaBytes := 256, stackSlots := 4 } _ := .start rfl
  have hr := hstart.after [.act (.append Node.emptyList (Node.integer 1)),
    .act (.append (Node.ref ⟨0, 1⟩) (Node.integer 2)), .act (.allocateObjects (1 : Nat)),
    .act (.setObject (⟨2, 1⟩ : Handle) (0 : Nat) (Node.cell ⟨.scalar (.integer 7), some ⟨1, 1⟩⟩)),
    .act (.push (Node.ref ⟨2, 1⟩)), .act (.append Node.emptyList (Node.integer 9)),
    .act (.push (Node.ref ⟨3, 1⟩))]
  generalize hctx : Context.after _ _ = ctx at hr
  have hcells : decide (ctx.heap.readCell ⟨0, 1⟩ = .ok ⟨.scalar (.integer 1), some ⟨1, 1⟩⟩ ∧
      ctx.heap.readCell ⟨1, 1⟩ = .ok ⟨.scalar (.integer 2), none⟩ ∧
      ctx.heap.readCell ⟨2, 1⟩ = .ok ⟨.scalar (.integer 7), some ⟨1, 1⟩⟩ ∧
      ctx.heap.readCell ⟨3, 1⟩ = .ok ⟨.scalar (.integer 9), none⟩) = true := by
    rw [← hctx]
    cbv
  obtain ⟨hfirst, hlast, hsecond, hapart⟩ := of_decide_eq_true hcells
  have hcheck : ((Mutator.append (.ref ⟨0, 1⟩) (.integer 3)).run.run ctx).toOption.any (fun p =>
      p.1 = .ok (.ref ⟨0, 1⟩) ∧ p.2.totals.collections = ctx.totals.collections + 1 ∧
        p.2.heap.contains ⟨2, 1⟩ ∧ p.2.heap.contains ⟨3, 1⟩) = true := by
    rw [← hctx]
    cbv
  obtain ⟨⟨r, c⟩, hrun, hcheck⟩ := exists_ok_of_any hcheck
  obtain ⟨rfl, hcollections, hsecondLive, hapartLive⟩ := of_decide_eq_true hcheck
  have hl : ctx.heap.Links (.ref ⟨0, 1⟩) ([(⟨0, 1⟩, ⟨.scalar (.integer 1), some ⟨1, 1⟩⟩)] ++
      [(⟨1, 1⟩, ⟨.scalar (.integer 2), none⟩)]) := .cons hfirst (.cons hlast .nil)
  have hsecondLinks := Heap.Links.cons hsecond (.cons hlast .nil)
  have hapartLinks := Heap.Links.cons hapart .nil
  obtain ⟨link, head, _, _, _, _, _, _, _, _, _, _, _, hothers⟩ := append_touches_last hr hl hrun
  obtain ⟨hextended, _⟩ := hothers _ _ hsecondLinks (Heap.backs_ref.mpr hsecondLive)
  obtain ⟨_, hsame⟩ := hothers _ _ hapartLinks (Heap.backs_ref.mpr hapartLive)
  exact ⟨ctx, c, link, head, hr, hl, hsecondLinks, hapartLinks, hrun, hcollections,
    hextended [(⟨2, 1⟩, ⟨.scalar (.integer 7), some ⟨1, 1⟩⟩)] rfl, hsame (by decide)⟩

end GenerationalHeap
