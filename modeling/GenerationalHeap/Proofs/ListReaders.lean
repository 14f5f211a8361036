import Mathlib.Data.Set.Card
import GenerationalHeap.Proofs.Links
import GenerationalHeap.Proofs.Reachable

namespace GenerationalHeap.Heap

variable {α : Type} {heap : Heap} {list : Node} {h : Handle} {target : Option Handle}
  {cells : List (Handle × Cell)} {ending : Option RuntimeError} {e : RuntimeError}

/-- Where the cell of an allocation leads; an allocation without a cell leads nowhere. -/
def follow? (heap : Heap) (h : Handle) : Option Handle :=
  match heap.readCell h with
  | .ok cell => cell.next
  | .error _ => none

/-- The allocations that the links lead through from a first one on, at most `n` of them. -/
def trail (heap : Heap) : Nat → Option Handle → List Handle
  | 0, _ => []
  | _ + 1, none => []
  | n + 1, some h => h :: heap.trail n (heap.follow? h)

/-- The links of a list lead to no allocation twice. -/
def Loopless (heap : Heap) : Node → Prop
  | .pointer target => ∀ n, (heap.trail n target).Nodup
  | _ => True

/-- Why an allocation that a link leads to has no cell. -/
inductive BadLink (heap : Heap) (h : Handle) : RuntimeError → Prop
  | dangling : heap.payload? h = none → BadLink heap h (.danglingHandle h)
  | bytes {data : Array UInt8} : heap.payload? h = some (.bytes data) →
      BadLink heap h (.wrongPayload h .objects .bytes)
  | empty : heap.payload? h = some (.objects #[]) → BadLink heap h (.typeMismatch .listCell .undefined)
  | other {nodes : Array Node} {node : Node} : heap.payload? h = some (.objects nodes) →
      nodes[0]? = some node → node.isCell = false → BadLink heap h (.typeMismatch .listCell node.kind)

theorem readCell_eq_error_iff : heap.readCell h = .error e ↔ heap.BadLink h e := by
  constructor
  · intro hr
    rw [readCell, objects_eq] at hr
    cases hp : heap.payload? h with
    | none =>
      simp only [hp, bind, Except.bind, Except.error.injEq] at hr
      exact hr ▸ .dangling hp
    | some p =>
      cases p with
      | bytes data =>
        simp only [hp, bind, Except.bind, Except.error.injEq] at hr
        exact hr ▸ .bytes hp
      | objects nodes =>
        simp only [hp, bind, Except.bind] at hr
        cases hn : nodes[0]? with
        | none =>
          simp only [hn, Option.getD_none, Except.error.injEq] at hr
          have hempty : nodes = #[] := by simpa using hn
          exact hr ▸ .empty (hempty ▸ hp)
        | some node =>
          cases node with
          | cell c => simp [hn] at hr
          | undefined | pointer | scalar | string | closure =>
            simp only [hn, Option.getD_some, Except.error.injEq] at hr
            exact hr ▸ .other hp hn rfl
  · intro hb
    rw [readCell, objects_eq]
    cases hb with
    | dangling hp => simp [hp, bind, Except.bind]
    | bytes hp => simp [hp, bind, Except.bind]
    | empty hp => simp [hp, bind, Except.bind, Node.kind]
    | @other nodes node hp hn hcell =>
      cases node with
      | cell c => simp [Node.isCell] at hcell
      | undefined | pointer | scalar | string | closure => simp [hp, hn, bind, Except.bind]

/-- The cells of a list in order, up to its end or to the first link that leads to no cell. -/
inductive Course (heap : Heap) : Node → List (Handle × Cell) → Option RuntimeError → Prop
  | nil : Course heap (.pointer none) [] none
  | bad {h : Handle} {e : RuntimeError} : heap.BadLink h e → Course heap (.pointer (some h)) [] (some e)
  | cons {h : Handle} {cell : Cell} {cells : List (Handle × Cell)} {ending : Option RuntimeError} :
      heap.readCell h = .ok cell → Course heap (.pointer cell.next) cells ending →
      Course heap (.pointer (some h)) ((h, cell) :: cells) ending

section Bounds

theorem live_of_readCell {cell : Cell} (hr : heap.readCell h = .ok cell) : heap.Live h := by
  obtain ⟨nodes, hp, _⟩ := readCell_eq_ok_iff.mp hr
  exact live_of_payload? hp

/-- Different handles that stand for allocations are no more than there are live ones. -/
theorem length_le_live (hs : heap.slots.Sound) {handles : List Handle} (hnodup : handles.Nodup)
    (hlive : ∀ h ∈ handles, heap.Live h) : handles.length ≤ heap.slots.live := by
  have hsubset : (handles.toFinset : Set Handle) ⊆ {h | (heap.slots.resolve h).isSome} := by
    intro h hh
    exact hlive h (by simpa using hh)
  have hle := Set.encard_le_encard hsubset
  rw [hs.encard_resolve, Set.encard_coe_eq_coe_finsetCard, List.toFinset_card_of_nodup hnodup] at hle
  exact_mod_cast hle

/-- Links lead to an end or to a bad link, or on through as many allocations as one asks for. -/
theorem course_or_trail (heap : Heap) (n : Nat) (target : Option Handle) :
    (∃ cells ending, heap.Course (.pointer target) cells ending) ∨
      (heap.trail n target).length = n ∧ ∀ h ∈ heap.trail n target, heap.Live h := by
  induction n generalizing target with
  | zero => exact .inr ⟨rfl, by simp [trail]⟩
  | succ n ih =>
    cases target with
    | none => exact .inl ⟨_, _, .nil⟩
    | some h =>
      cases hr : heap.readCell h with
      | error e => exact .inl ⟨_, _, .bad (readCell_eq_error_iff.mp hr)⟩
      | ok cell =>
        rcases ih cell.next with ⟨cells, ending, hc⟩ | ⟨hlength, hlive⟩
        · exact .inl ⟨_, _, .cons hr hc⟩
        · refine .inr ⟨?_, ?_⟩
          · simp [trail, follow?, hr, hlength]
          · simpa [trail, follow?, hr] using ⟨live_of_readCell hr, hlive⟩

theorem Course.trail_eq (hc : heap.Course (.pointer target) cells ending) :
    heap.trail cells.length target = cells.map Prod.fst := by
  induction cells generalizing target with
  | nil => rfl
  | cons link cells ih =>
    cases hc with
    | cons hr hrest => simp [trail, follow?, hr, ih hrest]

theorem Course.live (hc : heap.Course list cells ending) {link : Handle × Cell} (hm : link ∈ cells) :
    heap.Live link.1 := by
  induction hc with
  | nil | bad => simp at hm
  | cons hr _ ih =>
    rcases List.mem_cons.mp hm with rfl | hm
    · exact live_of_readCell hr
    · exact ih hm

/-- A list whose links lead to no allocation twice comes to its end or to a bad link, and it has no more
cells than there are allocations. -/
theorem Loopless.course (hs : heap.slots.Sound) (hl : heap.Loopless (.pointer target)) :
    ∃ cells ending, heap.Course (.pointer target) cells ending ∧ cells.length ≤ heap.slots.live := by
  rcases heap.course_or_trail (heap.slots.live + 1) target with ⟨cells, ending, hc⟩ | ⟨hlength, hlive⟩
  · refine ⟨cells, ending, hc, ?_⟩
    have hnodup := hl cells.length
    rw [hc.trail_eq] at hnodup
    have hle := length_le_live hs hnodup fun h hh => by
      obtain ⟨link, hm, rfl⟩ := List.mem_map.mp hh
      exact hc.live hm
    simpa using hle
  · have hle := length_le_live hs (hl _) hlive
    omega

theorem trail_sublist {n : Nat} (hlt : (heap.trail n target).length < n) (m : Nat) :
    (heap.trail m target).Sublist (heap.trail n target) := by
  induction n generalizing target m with
  | zero => simp at hlt
  | succ n ih =>
    cases m with
    | zero => exact List.nil_sublist _
    | succ m =>
      cases target with
      | none => exact .slnil
      | some h => exact (ih (by simpa [trail] using hlt) m).cons_cons h

/-- A trail that ends before it is as long as it may be is the whole of it. -/
theorem loopless_of_trail {n : Nat} (hlt : (heap.trail n target).length < n)
    (hnodup : (heap.trail n target).Nodup) : heap.Loopless (.pointer target) :=
  fun m => hnodup.sublist (trail_sublist hlt m)

end Bounds

section Surveys

/-- The results of visiting cells in order: the first error counts, that of the ending comes last. -/
def survey (visit : Handle → Cell → Except RuntimeError α) (ending : Option RuntimeError) :
    List (Handle × Cell) → Except RuntimeError (List α)
  | [] => ending.elim (.ok []) .error
  | link :: cells => do
    let a ← visit link.1 link.2
    return a :: (← survey visit ending cells)

variable {visit : Handle → Cell → Except RuntimeError α}

theorem survey_cons_of_ok {link : Handle × Cell} {a : α} (ha : visit link.1 link.2 = .ok a) :
    survey visit ending (link :: cells) = (survey visit ending cells).map (a :: ·) := by
  rw [survey, ha]
  cases survey visit ending cells <;> rfl

theorem survey_cons_of_error {link : Handle × Cell} (he : visit link.1 link.2 = .error e) :
    survey visit ending (link :: cells) = .error e := by
  rw [survey, he]
  rfl

/-- Where all visits go well, a bad link decides. -/
theorem survey_eq_of_ok (hv : ∀ link ∈ cells, ∃ a, visit link.1 link.2 = .ok a) :
    survey visit (some e) cells = .error e := by
  induction cells with
  | nil => rfl
  | cons link cells ih =>
    obtain ⟨⟨a, ha⟩, hrest⟩ := List.forall_mem_cons.mp hv
    rw [survey_cons_of_ok ha, ih hrest]
    rfl

/-- The first visit that fails decides, whatever comes after it. -/
theorem survey_eq_of_error {before after : List (Handle × Cell)} {link : Handle × Cell}
    (hv : ∀ x ∈ before, ∃ a, visit x.1 x.2 = .ok a) (he : visit link.1 link.2 = .error e) :
    survey visit ending (before ++ link :: after) = .error e := by
  induction before with
  | nil => exact survey_cons_of_error he
  | cons x before ih =>
    obtain ⟨⟨a, ha⟩, hrest⟩ := List.forall_mem_cons.mp hv
    rw [List.cons_append, survey_cons_of_ok ha, ih hrest]
    rfl

theorem survey_ok (f : Handle → Cell → α) (ending : Option RuntimeError) (cells : List (Handle × Cell)) :
    survey (fun h cell => .ok (f h cell)) ending cells =
      ending.elim (.ok (cells.map fun link => f link.1 link.2)) .error := by
  induction cells with
  | nil => rfl
  | cons link cells ih =>
    rw [survey_cons_of_ok rfl, ih]
    cases ending <;> rfl

theorem Course.walk_eq (hc : heap.Course (.pointer (some h)) cells ending) {steps : Nat}
    (hsteps : cells.length < steps) :
    (heap.walk visit steps h).run = .ok (survey visit ending cells) := by
  induction cells generalizing h steps with
  | nil =>
    cases hc with
    | bad hb =>
      obtain ⟨steps, rfl⟩ : ∃ n, steps = n + 1 := ⟨steps - 1, by simp at hsteps; omega⟩
      rw [walk_succ, readCell_eq_error_iff.mpr hb]
      rfl
  | cons link cells ih =>
    cases hc with
    | @cons _ cell _ _ hr hrest =>
      obtain ⟨steps, rfl⟩ : ∃ n, steps = n + 1 := ⟨steps - 1, by simp at hsteps; omega⟩
      cases hv : visit h cell with
      | error e =>
        have hsurvey : survey visit ending ((h, cell) :: cells) = .error e := survey_cons_of_error hv
        simp only [walk_succ, hr, hv, hsurvey]
      | ok a =>
        have hsurvey : survey visit ending ((h, cell) :: cells) = (survey visit ending cells).map (a :: ·) :=
          survey_cons_of_ok hv
        simp only [walk_succ, hr, hv, hsurvey]
        cases hn : cell.next with
        | none =>
          rw [hn] at hrest
          cases hrest
          rfl
        | some next =>
          rw [hn] at hrest
          simp only [ih hrest (by simpa using hsteps)]
          cases survey visit ending cells <;> rfl

theorem Course.walkList_eq (visit : Handle → Cell → Except RuntimeError α)
    (hc : heap.Course list cells ending) (hle : cells.length ≤ heap.slots.slots.size) :
    (heap.walkList visit list).run = .ok (survey visit ending cells) := by
  have hbound : cells.length < heap.chainBound := Nat.lt_succ_of_le hle
  cases hc with
  | nil => rfl
  | bad hb => exact (Course.bad hb).walk_eq hbound
  | cons hr hrest => exact (Course.cons hr hrest).walk_eq hbound

theorem Course.listElements_eq (hc : heap.Course list cells ending)
    (hle : cells.length ≤ heap.slots.slots.size) :
    (heap.listElements list).run = .ok (survey (fun _ => heap.cellValue) ending cells) :=
  hc.walkList_eq _ hle

theorem Course.listLength_eq (hc : heap.Course list cells ending)
    (hle : cells.length ≤ heap.slots.slots.size) :
    (heap.listLength list).run = .ok (ending.elim (.ok cells.length) .error) := by
  have hwalk := hc.walkList_eq (fun _ _ => .ok ()) hle
  rw [survey_ok fun _ _ => ()] at hwalk
  rw [listLength, chain_bind, hwalk]
  cases ending with
  | none => simp [pure, ExceptT.pure, ExceptT.run, ExceptT.mk, Except.pure]
  | some e => rfl

end Surveys

section Readers

variable {cell : Cell}

/-- The list behind so many of its elements. -/
def cdrs (heap : Heap) : Nat → Node → Except RuntimeError Node
  | 0, list => .ok list
  | n + 1, list => heap.cdr list >>= heap.cdrs n

theorem car_of_readCell (hr : heap.readCell h = .ok cell) :
    heap.car (.pointer (some h)) = heap.cellValue cell := by
  simp [car, firstCell, hr, Except.map, bind, Except.bind]

theorem cdr_of_readCell (hr : heap.readCell h = .ok cell) :
    heap.cdr (.pointer (some h)) = .ok (.pointer cell.next) := by
  simp [cdr, firstCell, hr, Except.map, bind, Except.bind]

theorem car_of_badLink (hb : heap.BadLink h e) : heap.car (.pointer (some h)) = .error e := by
  simp [car, firstCell, readCell_eq_error_iff.mpr hb, Except.map, bind, Except.bind]

theorem cdr_of_badLink (hb : heap.BadLink h e) : heap.cdr (.pointer (some h)) = .error e := by
  simp [cdr, firstCell, readCell_eq_error_iff.mpr hb, Except.map, bind, Except.bind]

/-- What is no list is refused by all readers alike. -/
theorem readers_of_not_list (heap : Heap) (hlist : ∀ target, list ≠ .pointer target) :
    heap.car list = .error (.typeMismatch .list list.kind) ∧
      heap.cdr list = .error (.typeMismatch .list list.kind) ∧
      (heap.listElements list).run = .ok (.error (.typeMismatch .list list.kind)) ∧
      (heap.listLength list).run = .ok (.error (.typeMismatch .list list.kind)) := by
  cases list with
  | pointer target => exact absurd rfl (hlist target)
  | undefined | scalar | string | closure | cell => exact ⟨rfl, rfl, rfl, rfl⟩

theorem run_liftExcept (r : Except RuntimeError α) : (walk.liftExcept r).run = .ok r := rfl

/-- The elements of a list by its first element and its rest, in the order in which they are read. -/
def elementsByParts (heap : Heap) (list : Node) : ChainReader (List Node) := do
  let first ← walk.liftExcept (heap.car list)
  let rest ← walk.liftExcept (heap.cdr list)
  return first :: (← heap.listElements rest)

/-- The length of a list by its rest. -/
def lengthByParts (heap : Heap) (list : Node) : ChainReader Nat := do
  let rest ← walk.liftExcept (heap.cdr list)
  return 1 + (← heap.listLength rest)

theorem by_parts_of_not_list (heap : Heap) (hlist : ∀ target, list ≠ .pointer target) :
    heap.listElements list = heap.elementsByParts list ∧
      heap.listLength list = heap.lengthByParts list := by
  cases list with
  | pointer target => exact absurd rfl (hlist target)
  | undefined | scalar | string | closure | cell => exact ⟨rfl, rfl⟩

theorem Course.listElements_by_parts (hc : heap.Course list cells ending)
    (hle : cells.length ≤ heap.slots.slots.size) (hne : list ≠ .emptyList) :
    heap.listElements list = heap.elementsByParts list := by
  apply ExceptT.ext
  rw [hc.listElements_eq hle, elementsByParts, chain_bind, run_liftExcept]
  cases hc with
  | nil => exact absurd rfl hne
  | bad hb =>
    rw [car_of_badLink hb]
    rfl
  | @cons _ cell cells _ hr hrest =>
    have hrest := hrest.listElements_eq (Nat.le_of_succ_le hle)
    rw [car_of_readCell hr]
    cases hv : heap.cellValue cell with
    | error e => rw [survey_cons_of_error hv]
    | ok a =>
      simp only
      rw [chain_bind, run_liftExcept, cdr_of_readCell hr, survey_cons_of_ok hv]
      simp only
      rw [chain_bind, hrest]
      cases survey (fun _ => heap.cellValue) ending cells <;> rfl

theorem Course.listLength_by_parts (hc : heap.Course list cells ending)
    (hle : cells.length ≤ heap.slots.slots.size) (hne : list ≠ .emptyList) :
    heap.listLength list = heap.lengthByParts list := by
  apply ExceptT.ext
  rw [hc.listLength_eq hle, lengthByParts, chain_bind, run_liftExcept]
  cases hc with
  | nil => exact absurd rfl hne
  | bad hb =>
    rw [cdr_of_badLink hb]
    rfl
  | @cons _ cell cells _ hr hrest =>
    have hrest := hrest.listLength_eq (Nat.le_of_succ_le hle)
    rw [cdr_of_readCell hr]
    simp only
    rw [chain_bind, hrest]
    cases ending with
    | none => simp [pure, ExceptT.pure, ExceptT.run, ExceptT.mk, Except.pure, Nat.add_comm]
    | some e => rfl

/-- Elements that are all read stand one by one at the heads of the rests, and behind the last of them is
the end. -/
theorem Course.elements_at (hc : heap.Course list cells ending) {elements : List Node}
    (hs : survey (fun _ => heap.cellValue) ending cells = .ok elements) :
    ending = none ∧ elements.length = cells.length ∧
      (∀ i, ∀ hi : i < elements.length, (heap.cdrs i list >>= heap.car) = .ok elements[i]) ∧
      heap.cdrs elements.length list = .ok .emptyList := by
  induction hc generalizing elements with
  | nil =>
    obtain rfl : [] = elements := Except.ok.inj hs
    exact ⟨rfl, rfl, fun i hi => absurd hi (by simp), rfl⟩
  | bad hb => simp [survey] at hs
  | @cons h cell cells ending hr _ ih =>
    cases hv : heap.cellValue cell with
    | error e =>
      rw [survey_cons_of_error hv] at hs
      simp at hs
    | ok a =>
      rw [survey_cons_of_ok hv] at hs
      cases hrest : survey (fun _ => heap.cellValue) ending cells with
      | error e =>
        rw [hrest] at hs
        simp [Except.map] at hs
      | ok rest =>
        rw [hrest] at hs
        obtain rfl : a :: rest = elements := Except.ok.inj hs
        obtain ⟨hend, hlength, hat, hlast⟩ := ih hrest
        have hcdrs : ∀ n, heap.cdrs (n + 1) (.pointer (some h)) = heap.cdrs n (.pointer cell.next) := by
          intro n
          rw [cdrs, cdr_of_readCell hr]
          rfl
        refine ⟨hend, by simp [hlength], ?_, ?_⟩
        · intro i hi
          cases i with
          | zero => exact (car_of_readCell hr).trans hv
          | succ i =>
            rw [hcdrs]
            exact hat i (by simpa using hi)
        · exact (hcdrs rest.length).trans hlast

end Readers

/-- What the readers make of a list that is followed through these cells to this ending: a bad link is the
answer of both, unless an element before it cannot be read, which is then the answer of the one that reads
elements. -/
structure ReadAlong (heap : Heap) (list : Node) (cells : List (Handle × Cell))
    (ending : Option RuntimeError) : Prop where
  length : ∀ e, ending = some e → (heap.listLength list).run = .ok (.error e)
  elements : ∀ e, ending = some e → (∀ link ∈ cells, ∃ value, heap.cellValue link.2 = .ok value) →
    (heap.listElements list).run = .ok (.error e)
  unreadable : ∀ before link after e, cells = before ++ link :: after →
    (∀ x ∈ before, ∃ value, heap.cellValue x.2 = .ok value) → heap.cellValue link.2 = .error e →
    (heap.listElements list).run = .ok (.error e)

theorem Course.readAlong (hc : heap.Course list cells ending)
    (hle : cells.length ≤ heap.slots.slots.size) : heap.ReadAlong list cells ending := by
  have helements := hc.listElements_eq hle
  refine ⟨?_, ?_, ?_⟩
  · rintro e rfl
    exact hc.listLength_eq hle
  · rintro e rfl hvalues
    rw [helements, survey_eq_of_ok hvalues]
  · rintro before link after e rfl hvalues he
    rw [helements, survey_eq_of_error hvalues he]

end GenerationalHeap.Heap

namespace GenerationalHeap

/-- The readers of lists agree, errors included. If the links lead to no allocation twice, they come to an
answer; what they answer is what they answer of the first element and the rest, so elements, length,
repeated rests and the number of live allocations fit together; what is no list is refused by all alike;
and a list that breaks off is read as far as it goes. -/
theorem list_readers_agree {config : Config} {ctx : Context} (hr : Reachable config ctx) {list : Node}
    (hl : ctx.heap.Loopless list) :
    ((∃ elements, (ctx.heap.listElements list).run = .ok elements) ∧
        ∃ length, (ctx.heap.listLength list).run = .ok length) ∧
      (list = .emptyList → (ctx.heap.listElements list).run = .ok (.ok []) ∧
        (ctx.heap.listLength list).run = .ok (.ok 0)) ∧
      (list ≠ .emptyList → ctx.heap.listElements list = ctx.heap.elementsByParts list ∧
        ctx.heap.listLength list = ctx.heap.lengthByParts list) ∧
      (∀ elements, (ctx.heap.listElements list).run = .ok (.ok elements) →
        (ctx.heap.listLength list).run = .ok (.ok elements.length) ∧
        (∀ i, ∀ hi : i < elements.length, (ctx.heap.cdrs i list >>= ctx.heap.car) = .ok elements[i]) ∧
        ctx.heap.cdrs elements.length list = .ok .emptyList) ∧
      (∀ n, (ctx.heap.listLength list).run = .ok (.ok n) → n ≤ ctx.heap.slots.live) ∧
      ((∀ target, list ≠ .pointer target) →
        ctx.heap.car list = .error (.typeMismatch .list list.kind) ∧
        ctx.heap.cdr list = .error (.typeMismatch .list list.kind) ∧
        (ctx.heap.listElements list).run = .ok (.error (.typeMismatch .list list.kind)) ∧
        (ctx.heap.listLength list).run = .ok (.error (.typeMismatch .list list.kind))) ∧
      ∀ target, list = .pointer target → ∃ cells ending, ctx.heap.Course list cells ending ∧
        ctx.heap.ReadAlong list cells ending := by
  by_cases hlist : ∃ target, list = .pointer target
  · obtain ⟨target, rfl⟩ := hlist
    have hsound := hr.wellFormed.slots
    obtain ⟨cells, ending, hc, hlive⟩ := hl.course hsound
    have hle : cells.length ≤ ctx.heap.slots.slots.size := by
      have hsum := hsound.live_add
      omega
    have helements := hc.listElements_eq hle
    have hlength := hc.listLength_eq hle
    refine ⟨⟨⟨_, helements⟩, _, hlength⟩, ?_, ?_, ?_, ?_, ?_, ?_⟩
    · intro hempty
      rw [hempty]
      exact ⟨rfl, rfl⟩
    · intro hne
      exact ⟨hc.listElements_by_parts hle hne, hc.listLength_by_parts hle hne⟩
    · intro elements he
      rw [helements] at he
      obtain ⟨rfl, hcount, hat, hlast⟩ := hc.elements_at (Except.ok.inj he)
      refine ⟨?_, hat, hlast⟩
      rw [hlength, hcount]
      rfl
    · intro n hn
      rw [hlength] at hn
      cases ending with
      | none =>
        obtain rfl : cells.length = n := Except.ok.inj (Except.ok.inj hn)
        exact hlive
      | some e => simp at hn
    · intro hnot
      exact absurd rfl (hnot target)
    · intro _ _
      exact ⟨cells, ending, hc, hc.readAlong hle⟩
  · have hnot : ∀ target, list ≠ .pointer target := fun target he => hlist ⟨target, he⟩
    obtain ⟨_, _, helements, hlength⟩ := ctx.heap.readers_of_not_list hnot
    refine ⟨⟨⟨_, helements⟩, _, hlength⟩, ?_, ?_, ?_, ?_, ?_, ?_⟩
    · exact fun hempty => absurd hempty (hnot none)
    · exact fun _ => ctx.heap.by_parts_of_not_list hnot
    · exact fun elements he => by simp [helements] at he
    · exact fun n hn => by simp [hlength] at hn
    · exact fun _ => ctx.heap.readers_of_not_list hnot
    · exact fun target htarget => absurd htarget (hnot target)

/-- A list that ends stands beside one whose only element is gone and whose next link leads to bytes: its
length is refused for the link, its elements for the element before it. -/
theorem list_readers_agree_broken_list :
    ∃ ctx, Reachable { arenaBytes := 1000, stackSlots := 4 } ctx ∧
      ctx.heap.Loopless (.ref ⟨0, 1⟩) ∧
      (ctx.heap.listElements (.ref ⟨0, 1⟩)).run = .ok (.ok [.integer 1, .undefined]) ∧
      (ctx.heap.listLength (.ref ⟨0, 1⟩)).run = .ok (.ok 2) ∧
      ctx.heap.cdrs 2 (.ref ⟨0, 1⟩) = .ok .emptyList ∧ ctx.heap.Loopless (.ref ⟨3, 1⟩) ∧
      ctx.heap.listElements (.ref ⟨3, 1⟩) = ctx.heap.elementsByParts (.ref ⟨3, 1⟩) ∧
      (ctx.heap.listElements (.ref ⟨3, 1⟩)).run = .ok (.error (.danglingHandle ⟨9, 1⟩)) ∧
      (ctx.heap.listLength (.ref ⟨3, 1⟩)).run = .ok (.error (.wrongPayload ⟨4, 1⟩ .objects .bytes)) := by
  have hstart : Reachable { arenaBytes := 1000, stackSlots := 4 } _ := .start rfl
  have hr := hstart.after [.act (.append Node.emptyList (Node.integer 1)),
    .act (.append (Node.ref ⟨0, 1⟩) Node.undefined), .act (.allocateObjects (1 : Nat)),
    .act (.allocateBytes (1 : Nat)),
    .act (.setObject (⟨3, 1⟩ : Handle) (0 : Nat) (Node.cell ⟨.boxed ⟨9, 1⟩, some ⟨4, 1⟩⟩))]
  generalize hctx : Context.after _ _ = ctx at hr
  have htrails : decide (ctx.heap.trail 9 (some ⟨0, 1⟩) = [⟨0, 1⟩, ⟨2, 1⟩] ∧
      ctx.heap.trail 9 (some ⟨3, 1⟩) = [⟨3, 1⟩, ⟨4, 1⟩]) = true := by
    rw [← hctx]
    cbv
  obtain ⟨hwhole, hbroken⟩ := of_decide_eq_true htrails
  have hwholeLoopless : ctx.heap.Loopless (.ref ⟨0, 1⟩) :=
    Heap.loopless_of_trail (n := 9) (by simp [hwhole]) (by simp [hwhole])
  have hbrokenLoopless : ctx.heap.Loopless (.ref ⟨3, 1⟩) :=
    Heap.loopless_of_trail (n := 9) (by simp [hbroken]) (by simp [hbroken])
  have helements : (ctx.heap.listElements (.ref ⟨0, 1⟩)).run = .ok (.ok [.integer 1, .undefined]) := by
    rw [← hctx]
    cbv
  have hgone : (ctx.heap.listElements (.ref ⟨3, 1⟩)).run = .ok (.error (.danglingHandle ⟨9, 1⟩)) := by
    rw [← hctx]
    cbv
  have hlink : (ctx.heap.listLength (.ref ⟨3, 1⟩)).run =
      .ok (.error (.wrongPayload ⟨4, 1⟩ .objects .bytes)) := by
    rw [← hctx]
    cbv
  obtain ⟨_, _, _, hfit, _⟩ := list_readers_agree hr hwholeLoopless
  obtain ⟨hlength, _, hlast⟩ := hfit _ helements
  obtain ⟨_, _, hparts, _⟩ := list_readers_agree hr hbrokenLoopless
  exact ⟨ctx, hr, hwholeLoopless, helements, hlength, hlast, hbrokenLoopless,
    (hparts (by simp [Node.ref, Node.emptyList])).1, hgone, hlink⟩

end GenerationalHeap
