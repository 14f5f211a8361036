import GenerationalHeap.Operation.Lists

namespace GenerationalHeap.Heap

variable {α β : Type}

theorem chain_bind (m : ChainReader α) (f : α → ChainReader β) :
    (m >>= f).run = match m.run with
      | .ok (.ok a) => (f a).run
      | .ok (.error e) => .ok (.error e)
      | .error why => .error why := by
  rw [ExceptT.run_bind]
  cases m.run with
  | error why => rfl
  | ok r => cases r <;> rfl

/-- The result of a chain read of which something is computed. -/
theorem chain_map_eq_ok {m : ChainReader α} {f : α → β} {r : Except RuntimeError β}
    (h : (m >>= fun a => pure (f a)).run = .ok r) : ∃ r₀, m.run = .ok r₀ ∧ r = r₀.map f := by
  rw [chain_bind] at h
  cases hm : m.run with
  | error why => simp [hm] at h
  | ok r₀ =>
    rw [hm] at h
    refine ⟨r₀, rfl, ?_⟩
    cases r₀ <;> exact (Except.ok.inj h).symm

theorem chain_map_of_ok {m : ChainReader α} (f : α → β) {a : α} (h : m.run = .ok (.ok a)) :
    (m >>= fun a => pure (f a)).run = .ok (.ok (f a)) := by
  rw [chain_bind, h]
  rfl

variable (heap : Heap) (visit : Handle → Cell → Except RuntimeError α)

/-- One link of a walk: the cell is read, then visited, then its link is followed. -/
theorem walk_succ (steps : Nat) (h : Handle) :
    (heap.walk visit (steps + 1) h).run =
      match heap.readCell h with
      | .error e => .ok (.error e)
      | .ok cell =>
        match visit h cell with
        | .error e => .ok (.error e)
        | .ok a =>
          match cell.next with
          | none => .ok (.ok [a])
          | some next =>
            match (heap.walk visit steps next).run with
            | .ok (.ok rest) => .ok (.ok (a :: rest))
            | .ok (.error e) => .ok (.error e)
            | .error why => .error why := by
  have hlift : ∀ {γ : Type} (r : Except RuntimeError γ), (walk.liftExcept r).run = .ok r :=
    fun _ => rfl
  rw [walk, chain_bind, hlift]
  cases heap.readCell h with
  | error e => rfl
  | ok cell =>
    simp only
    rw [chain_bind, hlift]
    cases visit h cell with
    | error e => rfl
    | ok a =>
      simp only
      cases cell.next with
      | none => rfl
      | some next =>
        simp only
        rw [chain_bind]
        cases (heap.walk visit steps next).run with
        | error why => rfl
        | ok r => cases r <;> rfl

/-- The result of a walk that ends, in terms of the result of the walk from the next cell. -/
theorem walk_succ_eq_ok {steps : Nat} {h : Handle} {r : Except RuntimeError (List α)}
    (hr : (heap.walk visit (steps + 1) h).run = .ok r) :
    ∃ rest : Handle → Except RuntimeError (List α),
      (∀ cell a next, heap.readCell h = .ok cell → visit h cell = .ok a → cell.next = some next →
        (heap.walk visit steps next).run = .ok (rest next)) ∧
      r = (do
        let cell ← heap.readCell h
        let a ← visit h cell
        match cell.next with
        | none => .ok [a]
        | some next => (rest next).map (a :: ·)) := by
  rw [walk_succ] at hr
  cases hc : heap.readCell h with
  | error e =>
    simp only [hc, Except.ok.injEq] at hr
    exact ⟨fun _ => .ok [], by simp, hr.symm⟩
  | ok cell =>
    cases hv : visit h cell with
    | error e =>
      simp only [hc, hv, Except.ok.injEq] at hr
      refine ⟨fun _ => .ok [], ?_, by rw [← hr]; simp [bind, Except.bind, hv]⟩
      intro c a next hc' hv' _
      obtain rfl := Except.ok.inj hc'
      simp [hv] at hv'
    | ok a =>
      cases hn : cell.next with
      | none =>
        simp only [hc, hv, hn, Except.ok.injEq] at hr
        refine ⟨fun _ => .ok [], ?_, by rw [← hr]; simp [bind, Except.bind, hv, hn]⟩
        intro c a next hc' _ hn'
        obtain rfl := Except.ok.inj hc'
        simp [hn] at hn'
      | some next =>
        cases hw : (heap.walk visit steps next).run with
        | error why => simp [hc, hv, hn, hw] at hr
        | ok tail =>
          refine ⟨fun _ => tail, ?_, ?_⟩
          · intro c a next' hc' _ hn'
            obtain rfl := Except.ok.inj hc'
            obtain rfl := Option.some.inj (hn.symm.trans hn')
            exact hw
          · cases tail <;> simp_all [bind, Except.bind, Except.map]

/-- What a walk comes to: all visits have what is asked of them, or the walk meets an error or finds
no end. -/
def Walked (good : α → Prop) (bad : RuntimeError → Prop) :
    Except Fault (Except RuntimeError α) → Prop
  | .ok (.ok a) => good a
  | .ok (.error e) => bad e
  | .error why => why = .endlessChain

/-- A property of handles that every link hands on holds along a walk. -/
theorem walk_walked (P : Handle → Prop) (good : α → Prop) (bad : RuntimeError → Prop)
    (hread : ∀ h e, P h → heap.readCell h = .error e → bad e)
    (hvisit : ∀ h cell e, P h → heap.readCell h = .ok cell → visit h cell = .error e → bad e)
    (hgood : ∀ h cell a, P h → heap.readCell h = .ok cell → visit h cell = .ok a → good a)
    (hnext : ∀ h cell next, P h → heap.readCell h = .ok cell → cell.next = some next → P next)
    (steps : Nat) (h : Handle) (hh : P h) :
    Walked (fun l => l ≠ [] ∧ ∀ a ∈ l, good a) bad (heap.walk visit steps h).run := by
  induction steps generalizing h with
  | zero => exact rfl
  | succ steps ih =>
    rw [walk_succ]
    cases hc : heap.readCell h with
    | error e => exact hread h e hh hc
    | ok cell =>
      cases hv : visit h cell with
      | error e =>
        simp only [hv]
        exact hvisit h cell e hh hc hv
      | ok a =>
        have ha := hgood h cell a hh hc hv
        cases hn : cell.next with
        | none =>
          simp only [hv, hn]
          exact ⟨by simp, by simpa using ha⟩
        | some next =>
          simp only [hv, hn]
          have hrest := ih next (hnext h cell next hh hc hn)
          revert hrest
          cases (heap.walk visit steps next).run with
          | error why => exact id
          | ok r =>
            cases r with
            | error e => exact id
            | ok rest =>
              intro hrest
              exact ⟨by simp, by simpa using ⟨ha, hrest.2⟩⟩

theorem Walked.map {good : α → Prop} {good' : β → Prop} {bad : RuntimeError → Prop}
    {m : ChainReader α} (hm : Walked good bad m.run) (g : α → β) (hg : ∀ a, good a → good' (g a)) :
    Walked good' bad (m >>= fun a => pure (g a)).run := by
  rw [chain_bind]
  revert hm
  cases m.run with
  | error why => exact id
  | ok r =>
    cases r with
    | error e => exact id
    | ok a => exact hg a

section Lists

variable (P : Handle → Prop) (bad : RuntimeError → Prop)

/-- A list whose cells have what is asked of them is read to its end, or has none. -/
theorem walkList_walked (good : α → Prop) (list : Node)
    (hkind : ∀ kind, list.kind = kind → bad (.typeMismatch .list kind))
    (hwalk : ∀ h, list = .ref h →
      Walked (fun l => l ≠ [] ∧ ∀ a ∈ l, good a) bad (heap.walk visit heap.chainBound h).run) :
    Walked (fun l => ∀ a ∈ l, good a) bad (heap.walkList visit list).run := by
  cases list with
  | pointer target =>
    cases target with
    | none => exact fun a ha => absurd ha List.not_mem_nil
    | some target =>
      have h := hwalk target rfl
      revert h
      show Walked _ _ _ → Walked _ _ (heap.walk visit heap.chainBound target).run
      cases (heap.walk visit heap.chainBound target).run with
      | error why => exact id
      | ok r =>
        cases r with
        | error e => exact id
        | ok l => exact fun h => h.2
  | undefined | scalar | string | closure | cell => exact hkind _ rfl

theorem lastCell_walked (h : Handle)
    (hwalk : Walked (fun l => l ≠ [] ∧ ∀ a ∈ l, P a) bad
      (heap.walk (fun h _ => .ok h) heap.chainBound h).run) :
    Walked P bad (heap.lastCell h).run := by
  apply hwalk.map
  intro l hvisited
  obtain ⟨hne, hall⟩ := hvisited
  rw [List.getLastD_eq_getLast?, List.getLast?_eq_some_getLast hne]
  exact hall _ (List.getLast_mem hne)

end Lists

theorem walk_plain (steps : Nat) (h : Handle) :
    Walked (fun l => l ≠ [] ∧ ∀ a ∈ l, True) (fun _ => True) (heap.walk visit steps h).run :=
  heap.walk_walked visit (fun _ => True) (fun _ => True) (fun _ => True)
    (fun _ _ _ _ => trivial) (fun _ _ _ _ _ _ => trivial) (fun _ _ _ _ _ _ => trivial)
    (fun _ _ _ _ _ _ => trivial) steps h trivial

end GenerationalHeap.Heap
