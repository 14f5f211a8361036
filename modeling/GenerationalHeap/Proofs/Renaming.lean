import Mathlib.Data.List.Forall2
import GenerationalHeap.Proofs.Backing

namespace GenerationalHeap

/-- The relation pairs every handle with at most one other, in both directions. -/
structure OneToOne (R : Handle → Handle → Prop) : Prop where
  right : ∀ {a b b'}, R a b → R a b' → b = b'
  left : ∀ {a a' b}, R a b → R a' b → a = a'

theorem OneToOne.eq_iff {R : Handle → Handle → Prop} (hR : OneToOne R) {a a' b b' : Handle}
    (h : R a b) (h' : R a' b') : a = a' ↔ b = b' := by
  constructor
  · intro he
    subst he
    exact hR.right h h'
  · intro he
    subst he
    exact hR.left h h'

/-- The arrays are of one length, and what stands in the same places is related. -/
def Pointwise {α β : Type} (P : α → β → Prop) (a : Array α) (b : Array β) : Prop :=
  ∀ i : Nat, Option.Rel P a[i]? b[i]?

namespace Pointwise

variable {α β : Type} {P : α → β → Prop} {a : Array α} {b : Array β}

theorem lt_iff (h : Pointwise P a b) (i : Nat) : i < a.size ↔ i < b.size := by
  have hi := h i
  by_cases ha : i < a.size <;> by_cases hb : i < b.size
  · simp [ha, hb]
  · rw [Array.getElem?_eq_getElem ha, Array.getElem?_eq_none (by omega)] at hi
    cases hi
  · rw [Array.getElem?_eq_none (by omega), Array.getElem?_eq_getElem hb] at hi
    cases hi
  · simp [ha, hb]

theorem size_eq (h : Pointwise P a b) : a.size = b.size := by
  have h₁ := h.lt_iff a.size
  have h₂ := h.lt_iff b.size
  omega

theorem set (h : Pointwise P a b) (i : Nat) {x : α} {y : β} (hxy : P x y) :
    Pointwise P (a.setIfInBounds i x) (b.setIfInBounds i y) := by
  intro j
  rw [Array.getElem?_setIfInBounds, Array.getElem?_setIfInBounds]
  by_cases hij : i = j
  · by_cases hi : i < a.size
    · have hb := (h.lt_iff i).mp hi
      simpa [hij, hij ▸ hi, hij ▸ hb] using hxy
    · have hb := mt (h.lt_iff i).mpr hi
      simp [hij, hij ▸ hi, hij ▸ hb]
  · simpa [hij] using h j

theorem modify (h : Pointwise P a b) (i : Nat) {f : α → α} {g : β → β}
    (hfg : ∀ x y, P x y → P (f x) (g y)) : Pointwise P (a.modify i f) (b.modify i g) := by
  intro j
  rw [Array.getElem?_modify, Array.getElem?_modify]
  by_cases hij : i = j
  · simp only [hij, if_true]
    have hj := h j
    revert hj
    cases a[j]? <;> cases b[j]? <;> intro hj <;> cases hj
    · exact .none
    · exact .some (hfg _ _ ‹_›)
  · simpa [hij] using h j

theorem push (h : Pointwise P a b) {x : α} {y : β} (hxy : P x y) :
    Pointwise P (a.push x) (b.push y) := by
  intro i
  rw [Array.getElem?_push, Array.getElem?_push, h.size_eq]
  by_cases hi : i = b.size
  · simpa [hi] using hxy
  · simpa [hi] using h i

theorem replicate (n : Nat) {x : α} {y : β} (hxy : P x y) :
    Pointwise P (Array.replicate n x) (Array.replicate n y) := by
  intro i
  rw [Array.getElem?_replicate, Array.getElem?_replicate]
  by_cases hi : i < n <;> simp [hi, hxy]

theorem toArray {l : List α} {l' : List β} (h : List.Forall₂ P l l') :
    Pointwise P l.toArray l'.toArray := by
  intro i
  rw [List.getElem?_toArray, List.getElem?_toArray]
  induction h generalizing i with
  | nil => exact .none
  | cons hxy _ ih =>
    cases i with
    | zero => exact .some hxy
    | succ i => simpa using ih i

theorem forall₂ (h : Pointwise P a b) : List.Forall₂ P a.toList b.toList := by
  rw [List.forall₂_iff_get]
  refine ⟨by simpa using h.size_eq, fun i ha hb => ?_⟩
  have hi := h i
  simp only [Array.length_toList] at ha hb
  rw [Array.getElem?_eq_getElem ha, Array.getElem?_eq_getElem hb] at hi
  cases hi with
  | some h => simpa using h

end Pointwise

section Values

variable (R : Handle → Handle → Prop)

inductive Head.Matches : Head → Head → Prop
  | boxed {a b : Handle} : R a b → Matches (.boxed a) (.boxed b)
  | scalar (value : Scalar) : Matches (.scalar value) (.scalar value)

/-- The values are the same but for paired handles. -/
inductive Node.Matches : Node → Node → Prop
  | undefined : Matches .undefined .undefined
  | pointer {a b : Option Handle} : Option.Rel R a b → Matches (.pointer a) (.pointer b)
  | scalar (value : Scalar) : Matches (.scalar value) (.scalar value)
  | string (length : Nat) {a b : Handle} : R a b → Matches (.string length a) (.string length b)
  | closure (flavour : Flavour) (code : Nat) {a b : Handle} :
      R a b → Matches (.closure flavour code a) (.closure flavour code b)
  | cell {head head' : Head} {next next' : Option Handle} :
      head.Matches R head' → Option.Rel R next next' → Matches (.cell ⟨head, next⟩) (.cell ⟨head', next'⟩)

/-- The contents are the same but for paired handles. -/
inductive Payload.Matches : Payload → Payload → Prop
  | objects {a b : Array Node} :
      Pointwise (Node.Matches R) a b → Matches (.objects a) (.objects b)
  | bytes (data : Array UInt8) : Matches (.bytes data) (.bytes data)

/-- The handle an error speaks of. -/
def RuntimeError.handle? : RuntimeError → Option Handle
  | .danglingHandle h | .wrongPayload h _ _ | .shortBuffer h => some h
  | _ => none

/-- The errors are the same but for paired handles. -/
inductive RuntimeError.Matches : RuntimeError → RuntimeError → Prop
  | plain (e : RuntimeError) : e.handle? = none → Matches e e
  | danglingHandle {a b : Handle} : R a b → Matches (.danglingHandle a) (.danglingHandle b)
  | wrongPayload {a b : Handle} (expected found : PayloadKind) :
      R a b → Matches (.wrongPayload a expected found) (.wrongPayload b expected found)
  | shortBuffer {a b : Handle} : R a b → Matches (.shortBuffer a) (.shortBuffer b)

end Values

variable {R : Handle → Handle → Prop} {α β γ δ : Type}

theorem Node.Matches.kind_eq {a b : Node} (h : a.Matches R b) : a.kind = b.kind := by
  cases h with
  | cell hh _ => cases hh <;> rfl
  | _ => rfl

theorem Node.Matches.next {a b : Cell} (h : Node.Matches R (.cell a) (.cell b)) :
    Option.Rel R a.next b.next := by
  cases h with
  | cell _ hn => exact hn

theorem forall₂_toList {a b : Option Handle} (h : Option.Rel R a b) :
    List.Forall₂ R a.toList b.toList := by
  cases h with
  | none => exact .nil
  | some h => exact .cons h .nil

theorem Head.Matches.references {a b : Head} (h : a.Matches R b) :
    List.Forall₂ R a.references b.references := by
  cases h with
  | boxed h => exact .cons h .nil
  | scalar => exact .nil

theorem Node.Matches.references {a b : Node} (h : a.Matches R b) :
    List.Forall₂ R a.references b.references := by
  cases h with
  | undefined | scalar => exact .nil
  | pointer h => exact forall₂_toList h
  | string _ h | closure _ _ h => exact .cons h .nil
  | cell hh hn => exact List.rel_append hh.references (forall₂_toList hn)

section Equality

variable (hR : OneToOne R)

include hR

theorem option_eq_iff {a a' b b' : Option Handle} (ha : Option.Rel R a a') (hb : Option.Rel R b b') :
    a = b ↔ a' = b' := by
  cases ha with
  | none => cases hb <;> simp
  | some ha =>
    cases hb with
    | none => simp
    | some hb => simpa using hR.eq_iff ha hb

theorem Head.Matches.same_eq {a a' b b' : Head} (ha : a.Matches R a') (hb : b.Matches R b') :
    a.same b = a'.same b' := by
  cases ha with
  | boxed ha =>
    cases hb with
    | boxed hb => simp [Head.same, hR.eq_iff ha hb]
    | scalar => rfl
  | scalar value => cases hb <;> rfl

/-- Programs see no difference between values and their counterparts. -/
theorem Node.Matches.same_eq {a a' b b' : Node} (ha : a.Matches R a') (hb : b.Matches R b') :
    a.same b = a'.same b' := by
  cases ha with
  | undefined => cases hb <;> rfl
  | scalar value => cases hb <;> rfl
  | pointer ha =>
    cases hb with
    | pointer hb => simp [Node.same, option_eq_iff hR ha hb]
    | _ => rfl
  | string length ha =>
    cases hb with
    | string length' hb => simp [Node.same, hR.eq_iff ha hb]
    | _ => rfl
  | closure flavour code ha =>
    cases hb with
    | closure flavour' code' hb => simp [Node.same, hR.eq_iff ha hb]
    | _ => rfl
  | cell hh hn =>
    cases hb with
    | cell hh' hn' =>
      simp only [Node.same]
      rw [hh.same_eq hR hh', beq_eq_beq.mpr (option_eq_iff hR hn hn')]
    | _ => rfl

end Equality

/-- The results are the same but for paired handles. -/
def ResultMatches (R : Handle → Handle → Prop) (P : α → β → Prop) :
    Except RuntimeError α → Except RuntimeError β → Prop
  | .ok a, .ok b => P a b
  | .error e, .error f => e.Matches R f
  | _, _ => False

/-- The results are the same but for paired handles, unless one of them speaks of a handle that
stands for nothing. -/
def Agree (R : Handle → Handle → Prop) (P : α → β → Prop) (r : Except RuntimeError α)
    (r' : Except RuntimeError β) : Prop :=
  Clean r → Clean r' → ResultMatches R P r r'

theorem agree_ok {P : α → β → Prop} {a : α} {b : β} (h : P a b) : Agree R P (.ok a) (.ok b) :=
  fun _ _ => h

theorem agree_error {P : α → β → Prop} {e f : RuntimeError} (h : e.Matches R f) :
    Agree R P (.error e) (.error f) :=
  fun _ _ => h

theorem Agree.bind_eq {P : α → β → Prop} {Q : γ → δ → Prop} {r : Except RuntimeError α}
    {r' : Except RuntimeError β} {f : α → Except RuntimeError γ} {f' : β → Except RuntimeError δ}
    (hr : Agree R P r r') (hf : ∀ a b, r = .ok a → r' = .ok b → P a b → Agree R Q (f a) (f' b)) :
    Agree R Q (r >>= f) (r' >>= f') := by
  intro hc hc'
  cases r with
  | error e =>
    cases r' with
    | error e' => exact hr hc hc'
    | ok b => exact (hr hc trivial).elim
  | ok a =>
    cases r' with
    | error e' => exact (hr trivial hc').elim
    | ok b => exact hf a b rfl rfl (hr trivial trivial) hc hc'

theorem Agree.bind {P : α → β → Prop} {Q : γ → δ → Prop} {r : Except RuntimeError α}
    {r' : Except RuntimeError β} {f : α → Except RuntimeError γ} {f' : β → Except RuntimeError δ}
    (hr : Agree R P r r') (hf : ∀ a b, P a b → Agree R Q (f a) (f' b)) :
    Agree R Q (r >>= f) (r' >>= f') :=
  hr.bind_eq fun a b _ _ hab => hf a b hab

theorem Agree.map {P : α → β → Prop} {Q : γ → δ → Prop} {r : Except RuntimeError α}
    {r' : Except RuntimeError β} (hr : Agree R P r r') (f : α → γ) (f' : β → δ)
    (hf : ∀ a b, P a b → Q (f a) (f' b)) : Agree R Q (r.map f) (r'.map f') := by
  intro hc hc'
  have h := hr ((clean_map r f).mp hc) ((clean_map r' f').mp hc')
  cases r <;> cases r' <;> first | exact h.elim | exact h | exact hf _ _ h

/-- What paired handles stand for has the same contents but for paired handles. -/
def HeapMatches (R : Handle → Handle → Prop) (heap heap' : Heap) : Prop :=
  ∀ h h' p p', R h h' → heap.payload? h = some p → heap'.payload? h' = some p' → p.Matches R p'

namespace HeapMatches

variable {heap heap' : Heap} {h h' : Handle} (hm : HeapMatches R heap heap')

include hm

theorem objects (hh : R h h') :
    Agree R (Pointwise (Node.Matches R)) (heap.objects h) (heap'.objects h') := by
  intro hc hc'
  rw [Heap.objects_eq] at hc ⊢
  rw [Heap.objects_eq] at hc' ⊢
  cases hp : heap.payload? h with
  | none =>
    rw [hp] at hc
    exact (hc trivial).elim
  | some p =>
    cases hp' : heap'.payload? h' with
    | none =>
      rw [hp'] at hc'
      exact (hc' trivial).elim
    | some p' =>
      cases hm h h' p p' hh hp hp' with
      | objects hnodes => exact hnodes
      | bytes data => exact .wrongPayload _ _ hh

theorem bytes (hh : R h h') : Agree R (fun a b => a = b) (heap.bytes h) (heap'.bytes h') := by
  intro hc hc'
  rw [Heap.bytes_eq] at hc ⊢
  rw [Heap.bytes_eq] at hc' ⊢
  cases hp : heap.payload? h with
  | none =>
    rw [hp] at hc
    exact (hc trivial).elim
  | some p =>
    cases hp' : heap'.payload? h' with
    | none =>
      rw [hp'] at hc'
      exact (hc' trivial).elim
    | some p' =>
      cases hm h h' p p' hh hp hp' with
      | objects hnodes => exact .wrongPayload _ _ hh
      | bytes data => exact rfl

theorem stringBytes {a b : Node} (hn : a.Matches R b) :
    Agree R (fun a b => a = b) (heap.stringBytes a) (heap'.stringBytes b) := by
  cases hn with
  | string length hh =>
    refine (hm.bytes hh).bind ?_
    intro data _ he
    subst he
    by_cases hl : length ≤ data.size
    · simp only [hl, if_true]
      exact agree_ok rfl
    · simp only [hl, if_false]
      exact agree_error (.shortBuffer hh)
  | undefined | pointer | scalar | closure => exact agree_error (.plain _ rfl)
  | cell hh _ => cases hh <;> exact agree_error (.plain _ rfl)

theorem stringText {a b : Node} (hn : a.Matches R b) :
    Agree R (fun a b => a = b) (heap.stringText a) (heap'.stringText b) := by
  apply (hm.stringBytes hn).map
  intro data _ he
  subst he
  rfl

theorem render {a b : Node} (hn : a.Matches R b) :
    Agree R (fun a b => a = b) (heap.render a) (heap'.render b) := by
  cases hn with
  | string length hh => exact hm.stringText (.string length hh)
  | scalar value => exact agree_ok rfl
  | undefined | pointer | closure => exact agree_error (.plain _ rfl)
  | cell hh _ => cases hh <;> exact agree_error (.plain _ rfl)

theorem unbox {a b : Node} (hn : a.Matches R b) :
    Agree R (Node.Matches R) (heap.unbox a) (heap'.unbox b) := by
  cases hn with
  | pointer hh =>
    cases hh with
    | none => exact agree_error (.plain _ rfl)
    | some hh =>
      refine (hm.objects hh).bind fun nodes nodes' hnodes => ?_
      have h0 := hnodes 0
      revert h0
      cases nodes[0]? <;> cases nodes'[0]? <;> intro h0 <;> cases h0
      · exact agree_error (.plain _ rfl)
      · exact agree_ok ‹_›
  | undefined | scalar | string | closure => exact agree_error (.plain _ rfl)
  | cell hh _ => cases hh <;> exact agree_error (.plain _ rfl)

theorem readCell (hh : R h h') :
    Agree R (fun a b => Node.Matches R (.cell a) (.cell b)) (heap.readCell h) (heap'.readCell h') := by
  refine (hm.objects hh).bind fun nodes nodes' hnodes => ?_
  have h0 : Node.Matches R (nodes[0]?.getD .undefined) (nodes'[0]?.getD .undefined) := by
    have h0 := hnodes 0
    revert h0
    cases nodes[0]? <;> cases nodes'[0]? <;> intro h0 <;> cases h0
    · exact .undefined
    · exact ‹_›
  revert h0
  generalize nodes[0]?.getD .undefined = a, nodes'[0]?.getD .undefined = b
  intro h0
  cases h0 with
  | cell hh hn => exact agree_ok (.cell hh hn)
  | undefined | pointer | scalar | string | closure => exact agree_error (.plain _ rfl)

theorem firstCell {a b : Node} (hn : a.Matches R b) :
    Agree R (Option.Rel fun p q => R p.1 q.1 ∧ Node.Matches R (.cell p.2) (.cell q.2))
      (heap.firstCell a) (heap'.firstCell b) := by
  cases hn with
  | pointer hh =>
    cases hh with
    | none => exact agree_ok .none
    | some hh => exact (hm.readCell hh).map _ _ fun c d hcd => .some ⟨hh, hcd⟩
  | undefined | scalar | string | closure => exact agree_error (.plain _ rfl)
  | cell hh _ => cases hh <;> exact agree_error (.plain _ rfl)

theorem cellValue {a b : Cell} (hn : Node.Matches R (.cell a) (.cell b)) :
    Agree R (Node.Matches R) (heap.cellValue a) (heap'.cellValue b) := by
  cases hn with
  | cell hh _ =>
    cases hh with
    | boxed hh => exact hm.unbox (.pointer (.some hh))
    | scalar value => exact agree_ok (.scalar value)

theorem car {a b : Node} (hn : a.Matches R b) :
    Agree R (Node.Matches R) (heap.car a) (heap'.car b) := by
  refine (hm.firstCell hn).bind fun first first' hf => ?_
  cases hf with
  | none => exact agree_error (.plain _ rfl)
  | some hf => exact hm.cellValue hf.2

theorem cdr {a b : Node} (hn : a.Matches R b) :
    Agree R (Node.Matches R) (heap.cdr a) (heap'.cdr b) := by
  refine (hm.firstCell hn).bind fun first first' hf => ?_
  cases hf with
  | none => exact agree_error (.plain _ rfl)
  | some hf =>
    obtain ⟨_, hf⟩ := hf
    exact agree_ok (.pointer hf.next)

/-- Walks along corresponding chains agree, however many steps each was given, if both end. -/
theorem walk {P : α → β → Prop} {visit : Handle → Cell → Except RuntimeError α}
    {visit' : Handle → Cell → Except RuntimeError β}
    (hvisit : ∀ h h' c c', R h h' → Node.Matches R (.cell c) (.cell c') →
      Agree R P (visit h c) (visit' h' c'))
    (steps steps' : Nat) (hh : R h h') {r : Except RuntimeError (List α)}
    {r' : Except RuntimeError (List β)} (hr : (heap.walk visit steps h).run = .ok r)
    (hr' : (heap'.walk visit' steps' h').run = .ok r') : Agree R (List.Forall₂ P) r r' := by
  induction steps generalizing steps' h h' r r' with
  | zero => simp [Heap.walk, ExceptT.run, ExceptT.mk] at hr
  | succ steps ih =>
    cases steps' with
    | zero => simp [Heap.walk, ExceptT.run, ExceptT.mk] at hr'
    | succ steps' =>
      obtain ⟨rest, hrest, rfl⟩ := heap.walk_succ_eq_ok visit hr
      obtain ⟨rest', hrest', rfl⟩ := heap'.walk_succ_eq_ok visit' hr'
      refine (hm.readCell hh).bind_eq fun cell cell' hc hc' hcell => ?_
      refine (hvisit h h' cell cell' hh hcell).bind_eq fun a b ha hb hab => ?_
      have hnext := hcell.next
      revert hnext
      cases hn : cell.next <;> cases hn' : cell'.next <;> intro hnext <;> cases hnext
      · exact agree_ok (.cons hab .nil)
      · rename_i next next' hnext
        refine (ih steps' hnext (hrest cell a next hc ha hn) (hrest' cell' b next' hc' hb hn')).map _ _ ?_
        exact fun l l' hl => .cons hab hl

theorem walkList {P : α → β → Prop} {visit : Handle → Cell → Except RuntimeError α}
    {visit' : Handle → Cell → Except RuntimeError β}
    (hvisit : ∀ h h' c c', R h h' → Node.Matches R (.cell c) (.cell c') →
      Agree R P (visit h c) (visit' h' c'))
    {a b : Node} (hn : a.Matches R b) {r : Except RuntimeError (List α)}
    {r' : Except RuntimeError (List β)} (hr : (heap.walkList visit a).run = .ok r)
    (hr' : (heap'.walkList visit' b).run = .ok r') : Agree R (List.Forall₂ P) r r' := by
  cases hn with
  | pointer hh =>
    cases hh with
    | none =>
      obtain rfl : .ok [] = r := Except.ok.inj hr
      obtain rfl : .ok [] = r' := Except.ok.inj hr'
      exact agree_ok .nil
    | some hh => exact hm.walk hvisit _ _ hh hr hr'
  | undefined | scalar | string | closure =>
    obtain rfl := Except.ok.inj hr
    obtain rfl := Except.ok.inj hr'
    exact agree_error (.plain _ rfl)
  | cell hh _ =>
    obtain rfl := Except.ok.inj hr
    obtain rfl := Except.ok.inj hr'
    cases hh <;> exact agree_error (.plain _ rfl)

end HeapMatches

end GenerationalHeap
