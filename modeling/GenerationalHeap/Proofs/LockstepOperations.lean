import GenerationalHeap.Proofs.Lockstep

namespace GenerationalHeap

variable {R : Handle → Handle → Prop}

theorem forall₂_getLastD {α β : Type} {P : α → β → Prop} {l : List α} {l' : List β} {a : α} {b : β}
    (hl : List.Forall₂ P l l') (hab : P a b) : P (l.getLastD a) (l'.getLastD b) := by
  induction hl generalizing a b with
  | nil => exact hab
  | cons hxy _ ih =>
    rw [List.getLastD_cons, List.getLastD_cons]
    exact ih hxy

theorem Node.Matches.withNext {a b : Node} (h : a.Matches R b) {next next' : Option Handle}
    (hn : Option.Rel R next next') : (a.withNext next).Matches R (b.withNext next') := by
  cases h with
  | cell hh _ => exact .cell hh hn
  | undefined => exact .undefined
  | pointer h => exact .pointer h
  | scalar value => exact .scalar value
  | string length h => exact .string length h
  | closure flavour code h => exact .closure flavour code h

theorem ValueStack.Matches.readLocals {s s' : ValueStack} (h : s.Matches R s') (slots : List Nat) :
    Agree R (List.Forall₂ (Node.Matches R)) (slots.mapM s.readLocal) (slots.mapM s'.readLocal) := by
  induction slots with
  | nil => exact agree_ok .nil
  | cons i slots ih =>
    rw [List.mapM_cons, List.mapM_cons]
    refine (h.readLocal i).bind fun node node' hnode => ?_
    refine ih.bind fun nodes nodes' hnodes => ?_
    exact agree_ok (.cons hnode hnodes)

theorem HeapMatches.listElements {heap heap' : Heap} (hm : HeapMatches R heap heap') {a b : Node}
    (hn : a.Matches R b) {r r' : Except RuntimeError (List Node)}
    (hr : (heap.listElements a).run = .ok r) (hr' : (heap'.listElements b).run = .ok r') :
    Agree R (List.Forall₂ (Node.Matches R)) r r' :=
  hm.walkList (fun _ _ _ _ _ hc => hm.cellValue hc) hn hr hr'

theorem HeapMatches.listLength {heap heap' : Heap} (hm : HeapMatches R heap heap') {a b : Node}
    (hn : a.Matches R b) {r r' : Except RuntimeError Nat}
    (hr : (heap.listLength a).run = .ok r) (hr' : (heap'.listLength b).run = .ok r') :
    Agree R (fun n n' => n = n') r r' := by
  obtain ⟨q, hq, rfl⟩ := Heap.chain_map_eq_ok hr
  obtain ⟨q', hq', rfl⟩ := Heap.chain_map_eq_ok hr'
  have hwalk := hm.walkList (P := fun _ _ => True) (fun _ _ _ _ _ _ => agree_ok trivial) hn hq hq'
  exact hwalk.map _ _ fun l l' hl => hl.length_eq

theorem HeapMatches.lastCell {heap heap' : Heap} (hm : HeapMatches R heap heap') {h h' : Handle}
    (hh : R h h') {r r' : Except RuntimeError Handle} (hr : (heap.lastCell h).run = .ok r)
    (hr' : (heap'.lastCell h').run = .ok r') : Agree R R r r' := by
  obtain ⟨q, hq, rfl⟩ := Heap.chain_map_eq_ok hr
  obtain ⟨q', hq', rfl⟩ := Heap.chain_map_eq_ok hr'
  have hwalk := hm.walk (P := R) (fun _ _ _ _ htwin _ => agree_ok htwin) _ _ hh hq hq'
  exact hwalk.map _ _ fun l l' hl => forall₂_getLastD hl hh

namespace Mutator

variable {L L' : List Handle} {c c' : Context} (hR : OneToOne (Twin L L'))
  (h : Linked (Twin L L') c c')

include h

theorem coupled_registerRoot {a b : Node} (hab : a.Matches (Twin L L') b) :
    Coupled L L' c c' (registerRoot a) (registerRoot b) fun id id' _ _ => id = id' := by
  obtain ⟨hid, hroots⟩ := h.roots.register hab
  exact coupled_of_question (I := fun _ _ => True) h (.ok ()) (.ok ())
    (fun _ => ((c.roots.register a).1, { c with roots := (c.roots.register a).2 }))
    (fun _ => ((c'.roots.register b).1, { c' with roots := (c'.roots.register b).2 })) rfl rfl
    (agree_ok trivial) fun _ _ _ _ _ => ⟨h.setRoots hroots, hid⟩

theorem coupled_unregisterRoot (id : RootId) :
    Coupled L L' c c' (unregisterRoot id) (unregisterRoot id) fun a b _ _ => a.Matches (Twin L L') b := by
  refine coupled_of_question h (c.roots.unregister id) (c'.roots.unregister id)
    (fun p => (p.1, { c with roots := p.2 })) (fun p => (p.1, { c' with roots := p.2 })) ?_ ?_
    (h.roots.unregister id) fun p q _ _ hpq => ⟨h.setRoots hpq.2, hpq.1⟩
  · rw [unregisterRoot, run_bind, run_read]
    cases c.roots.unregister id <;> rfl
  · rw [unregisterRoot, run_bind, run_read]
    cases c'.roots.unregister id <;> rfl

theorem coupled_setRoot (id : RootId) {a b : Node} (hab : a.Matches (Twin L L') b) :
    Coupled L L' c c' (setRoot id a) (setRoot id b) fun _ _ _ _ => True := by
  refine coupled_of_question h (c.roots.set id a) (c'.roots.set id b)
    (fun roots => ((), { c with roots })) (fun roots => ((), { c' with roots })) ?_ ?_
    (h.roots.set id hab) fun p q _ _ hpq => ⟨h.setRoots hpq, trivial⟩
  · rw [setRoot, run_bind, run_read]
    cases c.roots.set id a <;> rfl
  · rw [setRoot, run_bind, run_read]
    cases c'.roots.set id b <;> rfl

theorem coupled_pushFrame :
    Coupled L L' c c' pushFrame pushFrame fun f f' _ _ => f = f' :=
  coupled_onStack h _ _ (agree_ok h.stack.pushFrame)

include hR

theorem coupled_writeFirst {x x' : Handle} (htwin : Twin L L' x x') {a b : Node}
    (hab : a.Matches (Twin L L') b) :
    Coupled L L' c c' (writeFirst x a) (writeFirst x' b) fun _ _ _ _ => True :=
  coupled_modifyObjects hR h htwin _ _ fun nodes nodes' _ _ hnodes =>
    ⟨by simp, by simp, hnodes.set 0 hab⟩

theorem coupled_newString (text : String) :
    Coupled L L' c c' (newString text) (newString text) fun a b _ _ => a.Matches (Twin L L') b := by
  refine (coupled_allocate hR h .bytes (Utf8.encode text).size).bind ?_
  intro x x' d d' hd hallocated
  obtain ⟨htwin, hp, _⟩ := hallocated
  refine (coupled_modifyBytes hR hd htwin _ ?_).bind fun _ _ e e' he _ => coupled_pure he (.string _ htwin)
  intro data hdata
  rw [hp] at hdata
  simp only [Payload.fresh, Option.some.injEq, Payload.bytes.injEq] at hdata
  rw [← hdata, Array.size_replicate]

theorem coupled_toText {a b : Node} (hab : a.Matches (Twin L L') b) :
    Coupled L L' c c' (toText a) (toText b) fun a b _ _ => a.Matches (Twin L L') b := by
  have hother : Coupled L L' c c' (read (·.heap.render a) >>= newString)
      (read (·.heap.render b) >>= newString) fun a b _ _ => a.Matches (Twin L L') b := by
    refine (coupled_read h _ _ (h.heap.render hab)).bind ?_
    intro text _ d d' hd hread
    obtain ⟨rfl, _⟩ := hread
    exact coupled_newString hR hd text
  cases hab with
  | string length hh => exact coupled_pure h (.string length hh)
  | undefined | pointer | scalar | closure | cell => exact hother

theorem coupled_makeCaptures (slots : List Nat) :
    Coupled L L' c c' (makeCaptures slots) (makeCaptures slots) fun x x' _ _ => Twin L L' x x' := by
  refine (coupled_read h _ _ (h.stack.readLocals slots)).bind ?_
  intro values values' d d' hd hread
  obtain ⟨hvalues, _⟩ := hread
  rw [← hvalues.length_eq]
  refine (coupled_allocate hR hd .objects (values.length + 1)).bind ?_
  intro x x' e e' he hallocated
  obtain ⟨htwin, hp, hp'⟩ := hallocated
  refine (coupled_modifyObjects hR he htwin _ _ ?_).bind fun _ _ f f' hf _ => coupled_pure hf htwin
  intro nodes nodes' hn hn' _
  rw [hp] at hn
  rw [hp'] at hn'
  simp only [Payload.fresh, Option.some.injEq, Payload.objects.injEq] at hn hn'
  refine ⟨by simp [← hn], by simp [← hn', hvalues.length_eq], ?_⟩
  exact .toArray (.cons (.scalar _) hvalues)

theorem coupled_allocateBox {a b : Node} (hab : a.Matches (Twin L L') b) :
    Coupled L L' c c' (allocateBox a) (allocateBox b) fun x x' _ _ => Twin L L' x x' := by
  refine coupled_scratch h fun s s' hs => ?_
  refine (coupled_push (h.setStack hs) hab).bind fun _ _ d d' hd _ => ?_
  refine (coupled_allocate hR hd .objects 1).bind ?_
  intro x x' e e' he hallocated
  obtain ⟨htwin, _⟩ := hallocated
  exact (coupled_writeFirst hR he htwin hab).bind fun _ _ f f' hf _ => coupled_pure hf htwin

theorem coupled_makeHead {a b : Node} (hab : a.Matches (Twin L L') b) :
    Coupled L L' c c' (makeHead a) (makeHead b) fun x x' _ _ => x.Matches (Twin L L') x' := by
  have hboxed : Coupled L L' c c' (do let box ← allocateBox a; push (.ref box); return Head.boxed box)
      (do let box ← allocateBox b; push (.ref box); return Head.boxed box)
      fun x x' _ _ => x.Matches (Twin L L') x' := by
    refine (coupled_allocateBox hR h hab).bind fun x x' d d' hd htwin => ?_
    exact (coupled_push hd (.pointer (.some htwin))).bind fun _ _ e e' he _ => coupled_pure he (.boxed htwin)
  cases hab with
  | scalar value => exact coupled_pure h (.scalar value)
  | undefined | pointer | string | closure | cell => exact hboxed

theorem coupled_linkLast {x x' y y' : Handle} (hfirst : Twin L L' x x') (hlink : Twin L L' y y') :
    Coupled L L' c c' (linkLast x y) (linkLast x' y') fun _ _ _ _ => True := by
  refine (coupled_readChain h _ _ (h.heap.lastCell hfirst)).bind fun last last' d d' hd hlast => ?_
  refine coupled_modifyObjects hR hd hlast _ _ fun nodes nodes' _ _ hnodes => ⟨by simp, by simp, ?_⟩
  exact hnodes.modify 0 fun a b hab => hab.withNext (.some hlink)

theorem coupled_append {list list' value value' : Node} (hlist : list.Matches (Twin L L') list')
    (hvalue : value.Matches (Twin L L') value') :
    Coupled L L' c c' (append list value) (append list' value')
      fun a b _ _ => a.Matches (Twin L L') b := by
  refine (coupled_read h _ _ (h.heap.firstCell hlist)).bind ?_
  intro first first' _ _ _ hread
  obtain ⟨hfirst, ⟨rfl, rfl⟩, _⟩ := hread
  refine coupled_scratch h fun s s' hs => ?_
  refine (coupled_push (h.setStack hs) hlist).bind fun _ _ c₁ c₁' h₁ _ => ?_
  refine (coupled_push h₁ hvalue).bind fun _ _ c₂ c₂' h₂ _ => ?_
  refine (coupled_makeHead hR h₂ hvalue).bind fun head head' c₃ c₃' h₃ hhead => ?_
  refine (coupled_allocate hR h₃ .objects 1).bind ?_
  intro link link' c₄ c₄' h₄ hallocated
  obtain ⟨hlink, _⟩ := hallocated
  refine (coupled_writeFirst hR h₄ hlink (.cell hhead .none)).bind fun _ _ c₅ c₅' h₅ _ => ?_
  cases hfirst with
  | none => exact coupled_pure h₅ (.pointer (.some hlink))
  | some hfirst =>
    refine (coupled_linkLast hR h₅ hfirst.1 hlink).bind fun _ _ c₆ c₆' h₆ _ => ?_
    exact coupled_pure h₆ hlist

end Mutator

end GenerationalHeap
