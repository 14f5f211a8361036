import Mathlib.Data.List.Forall2
import Mathlib.Data.List.Perm.Basic
import GenerationalHeap.Proofs.Backing

namespace GenerationalHeap.Heap

variable {α : Type} {heap heap' : Heap} {list : Node} {h : Handle} {cells : List (Handle × Cell)}

section Cells

variable {cell : Cell}

theorem readCell_eq_ok_iff : heap.readCell h = .ok cell ↔
    ∃ nodes, heap.payload? h = some (.objects nodes) ∧ nodes[0]? = some (.cell cell) := by
  constructor
  · intro hr
    obtain ⟨nodes, hp, hn⟩ := readCell_eq_ok hr
    refine ⟨nodes, hp, ?_⟩
    cases hfirst : nodes[0]? with
    | none => simp [hfirst] at hn
    | some node => simpa [hfirst] using hn
  · intro hfound
    obtain ⟨nodes, hp, hn⟩ := hfound
    simp [readCell, objects_eq_ok.mpr hp, hn, bind, Except.bind]

/-- A cell is read the same where its allocation has the same contents. -/
theorem readCell_kept (hr : heap.readCell h = .ok cell)
    (hk : ∀ p, heap.payload? h = some p → heap'.payload? h = some p) : heap'.readCell h = .ok cell := by
  obtain ⟨nodes, hp, hn⟩ := readCell_eq_ok_iff.mp hr
  exact readCell_eq_ok_iff.mpr ⟨nodes, hk _ hp, hn⟩

theorem references_next (cell : Cell) {g : Handle} (hg : g ∈ (Node.pointer cell.next).references) :
    g ∈ (Node.cell cell).references := by
  cases hn : cell.next with
  | none => simp [hn, Node.references] at hg
  | some next => simp_all [Node.references]

/-- An allocation that begins with a cell refers to what the cell does. -/
theorem references_readCell (hr : heap.readCell h = .ok cell) :
    ∃ p, heap.payload? h = some p ∧ ∀ g ∈ (Node.cell cell).references, g ∈ p.references := by
  obtain ⟨nodes, hp, hn⟩ := readCell_eq_ok_iff.mp hr
  refine ⟨_, hp, fun g hg => ?_⟩
  rw [Payload.references, List.mem_flatMap]
  exact ⟨_, by simpa using Array.mem_of_getElem? hn, hg⟩

/-- The element that a head stands for. -/
def headValue (heap : Heap) (head : Head) : Except RuntimeError Node := heap.cellValue ⟨head, none⟩

variable {head : Head} {value : Node}

theorem headValue_boxed {box : Handle} (hp : heap.payload? box = some (.objects #[value])) :
    heap.headValue (.boxed box) = .ok value := by
  simp [headValue, cellValue, Node.ref, unbox, objects_eq_ok.mpr hp, bind, Except.bind]

/-- A head stands for the same element where its box has the same contents. -/
theorem headValue_kept (hv : heap.headValue head = .ok value)
    (hk : ∀ g ∈ head.references, ∀ p, heap.payload? g = some p → heap'.payload? g = some p) :
    heap'.headValue head = .ok value := by
  cases head with
  | scalar value => exact hv
  | boxed box =>
    cases ho : heap.objects box with
    | error e => simp [headValue, cellValue, Node.ref, unbox, ho, bind, Except.bind] at hv
    | ok nodes =>
      have ho' : heap'.objects box = .ok nodes :=
        objects_eq_ok.mpr (hk box (by simp [Head.references]) _ (objects_eq_ok.mp ho))
      simpa [headValue, cellValue, Node.ref, unbox, ho, ho'] using hv

end Cells

/-- The cells of a list in order, each with its allocation. -/
inductive Links (heap : Heap) : Node → List (Handle × Cell) → Prop
  | nil : Links heap (.pointer none) []
  | cons {h : Handle} {cell : Cell} {cells : List (Handle × Cell)} :
      heap.readCell h = .ok cell → Links heap (.pointer cell.next) cells →
      Links heap (.pointer (some h)) ((h, cell) :: cells)

theorem Links.unique {cells' : List (Handle × Cell)} (hl : heap.Links list cells)
    (hl' : heap.Links list cells') : cells' = cells := by
  induction hl generalizing cells' with
  | nil =>
    cases hl'
    rfl
  | cons hread _ ih =>
    cases hl' with
    | cons hread' hrest' =>
      obtain rfl := Except.ok.inj (hread.symm.trans hread')
      rw [ih hrest']

theorem Links.readCell (hl : heap.Links list cells) {link : Handle × Cell} (hm : link ∈ cells) :
    heap.readCell link.1 = .ok link.2 := by
  induction hl with
  | nil => simp at hm
  | cons hread _ ih =>
    rcases List.mem_cons.mp hm with rfl | hm
    · exact hread
    · exact ih hm

theorem Links.live (hl : heap.Links list cells) {link : Handle × Cell} (hm : link ∈ cells) :
    heap.Live link.1 := by
  obtain ⟨p, hp, _⟩ := references_readCell (hl.readCell hm)
  exact live_of_payload? hp

theorem Links.backs (hl : heap.Links list cells) : heap.Backs list := by
  cases hl with
  | nil => simp [Backs, Node.references]
  | cons hread hrest => exact backs_ref.mpr ((Links.cons hread hrest).live List.mem_cons_self)

theorem Links.eq_nil_iff (hl : heap.Links list cells) : cells = [] ↔ list = .emptyList := by
  cases hl <;> simp [Node.emptyList]

theorem Links.firstCell_eq (hl : heap.Links list cells) : heap.firstCell list = .ok cells.head? := by
  cases hl with
  | nil => rfl
  | cons hread _ =>
    simp only [firstCell, hread]
    rfl

/-- Whatever reaches a list reaches its cells and what their heads refer to. -/
theorem Links.reaches {start : Handle → Prop} (hl : heap.Links list cells)
    (hstart : ∀ g ∈ list.references, heap.slots.Reaches start g) {link : Handle × Cell}
    (hm : link ∈ cells) :
    heap.slots.Reaches start link.1 ∧ ∀ g ∈ link.2.head.references, heap.slots.Reaches start g := by
  induction hl with
  | nil => simp at hm
  | @cons h cell cells hread _ ih =>
    have hh : heap.slots.Reaches start h := hstart h (by simp [Node.references])
    have hcell : ∀ g ∈ (Node.cell cell).references, heap.slots.Reaches start g := by
      intro g hg
      obtain ⟨p, hp, hrefs⟩ := references_readCell hread
      obtain ⟨b, hb, rfl⟩ := payload?_eq_some.mp hp
      exact .edge hh hb (hrefs g hg)
    rcases List.mem_cons.mp hm with rfl | hm
    · exact ⟨hh, fun g hg => hcell g (by simp [Node.references, hg])⟩
    · exact ih (fun g hg => hcell g (references_next cell hg)) hm

/-- From each of its cells on, a list is a shorter list. -/
theorem Links.from_cell (hl : heap.Links list cells) {link : Handle × Cell} (hm : link ∈ cells) :
    ∃ rest, heap.Links (.ref link.1) rest ∧ rest.length ≤ cells.length := by
  induction hl with
  | nil => simp at hm
  | @cons h cell cells hread hrest ih =>
    rcases List.mem_cons.mp hm with rfl | hm
    · exact ⟨_, .cons hread hrest, Nat.le_refl _⟩
    · obtain ⟨rest, hlinks, hle⟩ := ih hm
      exact ⟨rest, hlinks, Nat.le_succ_of_le hle⟩

/-- A list that ends passes no allocation twice. -/
theorem Links.nodup (hl : heap.Links list cells) : (cells.map Prod.fst).Nodup := by
  induction hl with
  | nil => exact List.nodup_nil
  | @cons h cell cells hread hrest ih =>
    rw [List.map_cons, List.nodup_cons]
    refine ⟨fun hm => ?_, ih⟩
    obtain ⟨link, hlink, rfl⟩ := List.mem_map.mp hm
    obtain ⟨rest, hlinks, hle⟩ := hrest.from_cell hlink
    obtain rfl := hlinks.unique (.cons hread hrest)
    exact absurd hle (by simp)

section Last

variable {init : List (Handle × Cell)} {last : Handle} {cell : Cell}

theorem Links.ne_last (hl : heap.Links list (init ++ [(last, cell)])) {link : Handle × Cell}
    (hm : link ∈ init) : link.1 ≠ last := by
  have hnodup := hl.nodup
  rw [List.map_append, List.nodup_append] at hnodup
  exact hnodup.2.2 link.1 (List.mem_map_of_mem hm) last (by simp)

/-- The last cell of a list leads nowhere. -/
theorem Links.last_next (hl : heap.Links list (init ++ [(last, cell)])) : cell.next = none := by
  induction init generalizing list with
  | nil =>
    cases hl with
    | cons _ hrest =>
      cases hn : cell.next with
      | none => rfl
      | some next =>
        rw [hn] at hrest
        cases hrest
  | cons x init ih =>
    cases hl with
    | cons _ hrest => exact ih hrest

end Last

theorem Links.lt_size (hl : heap.Links list cells) {link : Handle × Cell} (hm : link ∈ cells) :
    link.1.index < heap.slots.slots.size := by
  obtain ⟨nodes, hp, _⟩ := readCell_eq_ok (hl.readCell hm)
  obtain ⟨b, hb, _⟩ := blockAt?_of_payload? hp
  exact SlotTable.lt_size_of_blockAt? _ _ b hb

/-- Each cell takes a slot of its own, so no list is longer than the handle table. -/
theorem Links.length_le (hl : heap.Links list cells) : cells.length ≤ heap.slots.slots.size := by
  have hresolves : ∀ h ∈ cells.map Prod.fst, ∃ b, heap.slots.resolve h = some b := by
    intro h hm
    obtain ⟨link, hlink, rfl⟩ := List.mem_map.mp hm
    obtain ⟨nodes, hp, _⟩ := readCell_eq_ok (hl.readCell hlink)
    obtain ⟨b, hb, _⟩ := payload?_eq_some.mp hp
    exact ⟨b, hb⟩
  have hnodup : ((cells.map Prod.fst).map Handle.index).Nodup := by
    apply hl.nodup.map_on
    intro g hg h hh hindex
    obtain ⟨a, ha⟩ := hresolves g hg
    obtain ⟨b, hb⟩ := hresolves h hh
    exact SlotTable.handle_ext_of_resolve _ _ _ _ _ hb ha hindex
  have hsubset : (cells.map Prod.fst).map Handle.index ⊆ List.range heap.slots.slots.size := by
    intro i hi
    simp only [List.map_map, List.mem_map, Function.comp] at hi
    obtain ⟨link, hlink, rfl⟩ := hi
    exact List.mem_range.mpr (hl.lt_size hlink)
  simpa using (List.subperm_of_subset hnodup hsubset).length_le

section Walks

variable (visit : Handle → Cell → Except RuntimeError α)

/-- Every cell is visited with the result given. -/
def Visits (cells : List (Handle × Cell)) (results : List α) : Prop :=
  List.Forall₂ (fun link a => visit link.1 link.2 = .ok a) cells results

variable {visit} {results : List α}

/-- A walk visits the cells of a list in order. -/
theorem Links.walk_eq (hl : heap.Links (.ref h) cells) (hv : Visits visit cells results) {steps : Nat}
    (hsteps : cells.length ≤ steps) : (heap.walk visit steps h).run = .ok (.ok results) := by
  induction cells generalizing h steps results with
  | nil => cases hl
  | cons link cells ih =>
    cases hl with
    | @cons _ cell _ hread hrest =>
      cases hv with
      | @cons _ a _ rest hvisit hvisits =>
        obtain ⟨steps, rfl⟩ : ∃ n, steps = n + 1 := ⟨steps - 1, by simp at hsteps; omega⟩
        simp only [walk_succ, hread, hvisit]
        cases hn : cell.next with
        | none =>
          rw [hn] at hrest
          cases hrest
          cases hvisits
          rfl
        | some next =>
          rw [hn] at hrest
          simp only [ih hrest hvisits (by simpa using hsteps)]

/-- A walk that ends well has visited all cells of a list. -/
theorem walk_eq_ok {steps : Nat} (hw : (heap.walk visit steps h).run = .ok (.ok results)) :
    ∃ cells, heap.Links (.ref h) cells ∧ Visits visit cells results := by
  induction steps generalizing h results with
  | zero => simp [walk, ExceptT.run, ExceptT.mk] at hw
  | succ steps ih =>
    rw [walk_succ] at hw
    cases hread : heap.readCell h with
    | error e => simp [hread] at hw
    | ok cell =>
      cases hvisit : visit h cell with
      | error e => simp [hread, hvisit] at hw
      | ok a =>
        simp only [hread, hvisit] at hw
        cases hn : cell.next with
        | none =>
          obtain rfl : [a] = results := by simpa [hn] using hw
          refine ⟨[(h, cell)], .cons hread ?_, .cons hvisit .nil⟩
          rw [hn]
          exact .nil
        | some next =>
          cases hrest : (heap.walk visit steps next).run with
          | error why => simp [hn, hrest] at hw
          | ok r =>
            cases r with
            | error e => simp [hn, hrest] at hw
            | ok rest =>
              obtain rfl : a :: rest = results := by simpa [hn, hrest] using hw
              obtain ⟨cells, hlinks, hvisits⟩ := ih hrest
              refine ⟨(h, cell) :: cells, .cons hread ?_, .cons hvisit hvisits⟩
              rw [hn]
              exact hlinks

theorem walkList_eq_ok_iff :
    (heap.walkList visit list).run = .ok (.ok results) ↔
      ∃ cells, heap.Links list cells ∧ Visits visit cells results := by
  constructor
  · intro hw
    cases list with
    | pointer target =>
      cases target with
      | none =>
        obtain rfl : [] = results := Except.ok.inj (Except.ok.inj hw)
        exact ⟨[], .nil, .nil⟩
      | some h => exact walk_eq_ok hw
    | undefined | scalar | string | closure | cell => exact absurd (Except.ok.inj hw) (by simp)
  · intro hlinks
    obtain ⟨cells, hl, hv⟩ := hlinks
    cases hl with
    | nil =>
      cases hv
      rfl
    | cons hread hrest =>
      have hlinks := Links.cons hread hrest
      exact hlinks.walk_eq hv (Nat.le_succ_of_le hlinks.length_le)

theorem visits_ok (f : Handle → Cell → α) (cells : List (Handle × Cell)) :
    Visits (fun h cell => .ok (f h cell)) cells (cells.map fun link => f link.1 link.2) := by
  rw [Visits, List.forall₂_map_right_iff]
  exact List.forall₂_same.mpr fun _ _ => rfl

end Walks

/-- The elements of a list are those its heads stand for. -/
theorem listElements_eq_ok_iff {elements : List Node} :
    (heap.listElements list).run = .ok (.ok elements) ↔ ∃ cells, heap.Links list cells ∧
      List.Forall₂ (fun head value => heap.headValue head = .ok value)
        (cells.map fun link => link.2.head) elements := by
  simp only [List.forall₂_map_left_iff]
  exact walkList_eq_ok_iff

theorem Links.listLength_eq (hl : heap.Links list cells) :
    (heap.listLength list).run = .ok (.ok cells.length) := by
  have hwalk := walkList_eq_ok_iff.mpr ⟨cells, hl, visits_ok (fun _ _ => ()) cells⟩
  simpa [listLength] using chain_map_of_ok List.length hwalk

theorem Links.lastCell_eq {init : List (Handle × Cell)} {last : Handle} {cell : Cell}
    (hl : heap.Links (.ref h) (init ++ [(last, cell)])) : (heap.lastCell h).run = .ok (.ok last) := by
  have hwalk := hl.walk_eq (visits_ok (fun h _ => h) _) (Nat.le_succ_of_le hl.length_le)
  simpa [lastCell, chainBound] using chain_map_of_ok (·.getLastD h) hwalk

section Edits

/-- A list stays as it is where its cells do. -/
theorem Links.transport (hl : heap.Links list cells)
    (hread : ∀ link ∈ cells, heap'.readCell link.1 = .ok link.2) : heap'.Links list cells := by
  induction hl with
  | nil => exact .nil
  | cons _ _ ih =>
    refine .cons (hread _ List.mem_cons_self) (ih fun link hm => ?_)
    exact hread link (List.mem_cons_of_mem _ hm)

/-- A list whose last cell is linked to another list goes on with the cells of that one. -/
theorem Links.relink {init rest : List (Handle × Cell)} {last new : Handle} {cell : Cell}
    (hl : heap.Links list (init ++ [(last, cell)]))
    (hinit : ∀ link ∈ init, heap'.readCell link.1 = .ok link.2)
    (hlast : heap'.readCell last = .ok { cell with next := some new })
    (hrest : heap'.Links (.ref new) rest) :
    heap'.Links list (init ++ (last, { cell with next := some new }) :: rest) := by
  induction init generalizing list with
  | nil =>
    cases hl
    exact .cons hlast hrest
  | cons link init ih =>
    cases hl with
    | cons _ htail =>
      refine .cons (hinit _ List.mem_cons_self) (ih htail fun link hm => ?_)
      exact hinit link (List.mem_cons_of_mem _ hm)

end Edits

end GenerationalHeap.Heap
