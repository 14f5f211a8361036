import GenerationalHeap.Proofs.DumpTour
import GenerationalHeap.Proofs.Reachable

namespace GenerationalHeap

namespace Dump

/-- The last of the lines at a depth. -/
structure LastAt (rows : List Row) (depth line : Nat) : Prop where
  depth_eq : rows[line]?.map (·.depth) = some depth
  last : ∀ j row, line < j → rows[j]? = some row → row.depth ≠ depth

/-- One line after the other, each for the cell behind that of the line before. -/
inductive Chained (rows : List Row) (first : Nat) : Nat → Prop
  | refl : Chained rows first first
  | next {line : Nat} {row : Row} {h : Handle} : Chained rows first line →
      rows[line + 1]? = some row → row.origin = .link line h → Chained rows first (line + 1)

section Lines

variable {rows : List Row} {row : Row} {depth line : Nat}

theorem LastAt.lt (h : LastAt rows depth line) : line < rows.length := by
  obtain ⟨row, hrow, _⟩ := Option.map_eq_some_iff.mp h.depth_eq
  exact (List.getElem?_eq_some_iff.mp hrow).1

theorem LastAt.depth_eq_of_take {i : Nat} (h : LastAt (rows.take i) depth line)
    (hrow : rows[line]? = some row) : row.depth = depth := by
  obtain ⟨r, hr, hd⟩ := Option.map_eq_some_iff.mp h.depth_eq
  obtain rfl := Option.some.inj (hrow.symm.trans (getElem?_take_eq_some.mp hr).2)
  exact hd

theorem LastAt.unique {line' : Nat} (h : LastAt rows depth line) (h' : LastAt rows depth line') :
    line = line' := by
  obtain ⟨row, hrow, hd⟩ := Option.map_eq_some_iff.mp h.depth_eq
  obtain ⟨row', hrow', hd'⟩ := Option.map_eq_some_iff.mp h'.depth_eq
  rcases Nat.lt_trichotomy line line' with hlt | heq | hlt
  · exact absurd hd' (h.last line' row' hlt hrow')
  · exact heq
  · exact absurd hd (h'.last line row hlt hrow)

theorem lastAt_append_self (rows : List Row) (row : Row) : LastAt (rows ++ [row]) row.depth rows.length := by
  constructor
  · simp
  · intro j r hj hr
    have hlt := (List.getElem?_eq_some_iff.mp hr).1
    simp at hlt
    omega

theorem LastAt.append (h : LastAt rows depth line) (hne : row.depth ≠ depth) :
    LastAt (rows ++ [row]) depth line := by
  constructor
  · rw [List.getElem?_append_left h.lt]
    exact h.depth_eq
  · intro j r hj hr
    by_cases hlt : j < rows.length
    · rw [List.getElem?_append_left hlt] at hr
      exact h.last j r hj hr
    · rw [List.getElem?_append_right (Nat.le_of_not_lt hlt)] at hr
      obtain rfl := List.mem_singleton.mp (List.mem_of_getElem? hr)
      exact hne

theorem getElem?_append_of_eq_some {r : Row} (hr : rows[line]? = some r) :
    (rows ++ [row])[line]? = some r := by
  rw [List.getElem?_append_left (List.getElem?_eq_some_iff.mp hr).1]
  exact hr

theorem Chained.append {first : Nat} (h : Chained rows first line) : Chained (rows ++ [row]) first line := by
  induction h with
  | refl => exact .refl
  | next _ hrow horigin ih => exact .next ih (getElem?_append_of_eq_some hrow) horigin

end Lines

/-- Where a value with the given origin stands behind the given lines. The nearest line that is one step less
deep is the one that it comes from, or for a box the last line of the chain that begins there. -/
def Placed (rows : List Row) (depth : Nat) : Origin → Prop
  | .root => depth = 0 ∧ rows = []
  | .slot line _ => ∃ d, depth = d + 1 ∧ LastAt rows d line
  | .box line => ∃ d last, depth = d + 1 ∧ Chained rows line last ∧ LastAt rows d last
  | .link line _ => line + 1 = rows.length ∧ LastAt rows depth line

/-- The line that a value comes from does refer to it. -/
def Referred (heap : Heap) (rows : List Row) (node : Node) : Origin → Prop
  | .root => True
  | .slot line index => ∃ row h skip nodes, rows[line]? = some row ∧
    reference row.node = some (h, skip) ∧ heap.objects h = .ok nodes ∧ skip ≤ index ∧
    nodes[index]? = some node
  | .box line => ∃ row cell box, rows[line]? = some row ∧ row.node = .cell cell ∧
    cell.head = .boxed box ∧ node = .ref box
  | .link line h => ∃ row cell, rows[line]? = some row ∧ row.node = .cell cell ∧ cell.next = some h ∧
    (node = .ref h ∨ ∃ cell', heap.readCell h = .ok cell' ∧ node = .cell cell')

theorem Referred.append {heap : Heap} {rows : List Row} {node : Node} {origin : Origin}
    (h : Referred heap rows node origin) (row : Row) : Referred heap (rows ++ [row]) node origin := by
  cases origin with
  | root => trivial
  | slot line index =>
    obtain ⟨r, g, skip, nodes, hr, hrest⟩ := h
    exact ⟨r, g, skip, nodes, getElem?_append_of_eq_some hr, hrest⟩
  | box line =>
    obtain ⟨r, cell, box, hr, hrest⟩ := h
    exact ⟨r, cell, box, getElem?_append_of_eq_some hr, hrest⟩
  | link line g =>
    obtain ⟨r, cell, hr, hrest⟩ := h
    exact ⟨r, cell, getElem?_append_of_eq_some hr, hrest⟩

/-- What a line leads to: nothing, the slots of its allocation in their order, or the cell behind its own
and then the box of its own. -/
inductive Offspring (heap : Heap) (row : Row) (line : Nat) : List Task → Prop
  | leaf : Leaf heap row.node row.text → Offspring heap row line []
  | again {h : Handle} {skip : Nat} : reference row.node = some (h, skip) → row.text = againText h →
      Offspring heap row line []
  | slots {h : Handle} {skip : Nat} {nodes : Array Node} : reference row.node = some (h, skip) →
      heap.objects h = .ok nodes → row.text = slotsText row.node h (nodes.size - skip) →
      Offspring heap row line (slotTasks line row.depth skip nodes)
  | cell {cell : Cell} {link : List Task} {seen seen' : List Handle} : row.node = .cell cell →
      Follows heap line row.depth seen cell.next link seen' →
      Offspring heap row line (link ++ boxTasks line row.depth cell.head)

theorem Tour.Step.offspring {heap : Heap} {a b : Tour} (hs : Step heap a b) :
    ∃ task rest text children, a.pending = task :: rest ∧ b.rows = a.rows ++ [task.row text] ∧
      b.pending = children ++ rest ∧ Offspring heap (task.row text) a.rows.length children := by
  cases hs with
  | leaf hl => exact ⟨_, _, _, [], rfl, rfl, rfl, .leaf hl⟩
  | again hr hs => exact ⟨_, _, _, [], rfl, rfl, rfl, .again hr rfl⟩
  | expand hr hs ho => exact ⟨_, _, _, _, rfl, rfl, rfl, .slots hr ho rfl⟩
  | cell hn hf => exact ⟨_, _, _, _, rfl, rfl, rfl, .cell hn hf⟩

/-- The line that a value comes from. -/
def Origin.line? : Origin → Option Nat
  | .root => none
  | .slot line _ | .box line | .link line _ => some line

/-- How much deeper than a value another may be that waits behind it: only the boxes of a chain wait for the
end of the chain, which is less deep. -/
def Origin.slack : Origin → Origin → Nat
  | .link _ _, .box _ => 1
  | _, _ => 0

/-- Whether a value is one step deeper than the line it comes from. -/
def Origin.isUnder : Origin → Bool
  | .slot _ _ | .box _ => true
  | .root | .link _ _ => false

/-- How pending values follow each other. -/
def Task.Precedes (a b : Task) : Prop :=
  b.depth ≤ a.depth + a.origin.slack b.origin ∧ b.origin.isUnder = true

theorem Origin.slack_le (a b : Origin) : a.slack b ≤ 1 := by
  unfold slack
  split <;> omega

/-- A line as deep as the one before it in a chain may stand in its place. -/
theorem Origin.slack_le_link (a b : Origin) (line : Nat) (h : Handle) :
    a.slack b ≤ (Origin.link line h).slack b := by
  cases a <;> cases b <;> simp [slack]

/-- The value comes from the given line, which has the given depth. -/
structure Task.Below (task : Task) (line depth : Nat) : Prop where
  line : task.origin.line? = some line
  depth : task.depth = if task.origin.isUnder then depth + 1 else depth

section Offspring

variable {heap : Heap} {row : Row} {line : Nat} {children : List Task}

theorem slotTasks_mem {depth skip : Nat} {nodes : Array Node} {task : Task}
    (ht : task ∈ slotTasks line depth skip nodes) :
    ∃ index, skip ≤ index ∧ nodes[index]? = some task.node ∧ task.depth = depth + 1 ∧
      task.origin = .slot line index := by
  obtain ⟨k, hk, rfl⟩ := List.mem_mapIdx.mp ht
  refine ⟨skip + k, Nat.le_add_right skip k, ?_, rfl, rfl⟩
  rw [← Array.getElem?_toList, ← List.getElem?_drop]
  exact List.getElem?_eq_getElem hk

theorem boxTasks_mem {depth : Nat} {head : Head} {task : Task} (ht : task ∈ boxTasks line depth head) :
    ∃ box, head = .boxed box ∧ task = ⟨⟨.ref box, depth + 1⟩, .box line⟩ := by
  cases head with
  | scalar => simp [boxTasks] at ht
  | boxed box => exact ⟨box, rfl, List.mem_singleton.mp ht⟩

theorem Follows.mem {depth : Nat} {seen seen' : List Handle} {next : Option Handle} {link : List Task}
    (hf : Follows heap line depth seen next link seen') {task : Task} (ht : task ∈ link) :
    ∃ h, next = some h ∧ task.depth = depth ∧ task.origin = .link line h ∧
      (task.node = .ref h ∨ ∃ cell, heap.readCell h = .ok cell ∧ task.node = .cell cell) := by
  cases hf with
  | last => simp at ht
  | again hs =>
    obtain rfl := List.mem_singleton.mp ht
    exact ⟨_, rfl, rfl, rfl, .inl rfl⟩
  | next hs hc =>
    obtain rfl := List.mem_singleton.mp ht
    exact ⟨_, rfl, rfl, rfl, .inr ⟨_, hc, rfl⟩⟩

theorem Offspring.below (ho : Offspring heap row line children) {child : Task} (hc : child ∈ children) :
    child.Below line row.depth := by
  cases ho with
  | leaf | again => simp at hc
  | slots =>
    obtain ⟨index, _, _, hdepth, horigin⟩ := slotTasks_mem hc
    exact ⟨by rw [horigin]; rfl, by rw [hdepth, horigin]; rfl⟩
  | cell _ hf =>
    rcases List.mem_append.mp hc with hc | hc
    · obtain ⟨h, _, hdepth, horigin, _⟩ := hf.mem hc
      exact ⟨by rw [horigin]; rfl, by rw [hdepth, horigin]; rfl⟩
    · obtain ⟨box, _, rfl⟩ := boxTasks_mem hc
      exact ⟨rfl, rfl⟩

theorem Offspring.referred (ho : Offspring heap row line children) {rows : List Row}
    (hrow : rows[line]? = some row) {child : Task} (hc : child ∈ children) :
    Referred heap rows child.node child.origin := by
  cases ho with
  | leaf | again => simp at hc
  | slots hr hobjects =>
    obtain ⟨index, hskip, hnode, _, horigin⟩ := slotTasks_mem hc
    rw [horigin]
    exact ⟨row, _, _, _, hrow, hr, hobjects, hskip, hnode⟩
  | @cell cell _ _ _ hn hf =>
    rcases List.mem_append.mp hc with hc | hc
    · obtain ⟨h, hnext, _, horigin, hnode⟩ := hf.mem hc
      rw [horigin]
      exact ⟨row, cell, hrow, hn, hnext, hnode⟩
    · obtain ⟨box, hbox, rfl⟩ := boxTasks_mem hc
      exact ⟨row, cell, box, hrow, hn, hbox, rfl⟩

theorem Offspring.pairwise (ho : Offspring heap row line children) : children.Pairwise Task.Precedes := by
  cases ho with
  | leaf | again => exact .nil
  | @slots _ skip nodes =>
    refine List.pairwise_of_forall_mem_list fun a ha b hb => ?_
    obtain ⟨_, _, _, hdepth, _⟩ := slotTasks_mem ha
    obtain ⟨_, _, _, hdepth', horigin'⟩ := slotTasks_mem hb
    refine ⟨by omega, ?_⟩
    rw [horigin']
    rfl
  | @cell cell link _ _ hn hf =>
    have hlink : link.Pairwise Task.Precedes := by
      generalize cell.next = next at hf
      cases hf <;> simp
    have hbox : (boxTasks line row.depth cell.head).Pairwise Task.Precedes := by
      cases cell.head <;> simp [boxTasks]
    refine List.pairwise_append.mpr ⟨hlink, hbox, ?_⟩
    intro a ha b hb
    obtain ⟨h, _, hdepth, horigin, _⟩ := hf.mem ha
    obtain ⟨box, _, rfl⟩ := boxTasks_mem hb
    refine ⟨?_, rfl⟩
    rw [hdepth, horigin]
    exact Nat.le_refl _

end Offspring

section Pending

variable {rows : List Row} {task : Task} {text : String}

/-- A value that waits keeps its place behind one line more. The line is as deep as the one that a box hangs
on only if it goes on with the chain of the box, which then hangs on it. -/
theorem Placed.append (hp : Placed rows task.depth task.origin) {other : Task}
    (ho : Placed rows other.depth other.origin) (hprecedes : task.Precedes other) :
    Placed (rows ++ [task.row text]) other.depth other.origin := by
  obtain ⟨hdepth, hunder⟩ := hprecedes
  cases horigin : other.origin with
  | root | link => simp [horigin, Origin.isUnder] at hunder
  | slot line index =>
    rw [horigin] at ho hdepth
    obtain ⟨d, hd, hlast⟩ := ho
    have hslack : task.origin.slack (.slot line index) = 0 := by cases task.origin <;> rfl
    have hne : (task.row text).depth ≠ d := by
      show task.depth ≠ d
      omega
    exact ⟨d, hd, hlast.append hne⟩
  | box line =>
    rw [horigin] at ho hdepth
    obtain ⟨d, last, hd, hchain, hlast⟩ := ho
    by_cases heq : task.depth = d
    · subst heq
      cases htask : task.origin with
      | root | slot | box =>
        rw [htask] at hdepth
        simp only [Origin.slack] at hdepth
        omega
      | link line' h =>
        rw [htask] at hp
        obtain ⟨hlength, hlast'⟩ := hp
        obtain rfl := hlast.unique hlast'
        have hrow : (rows ++ [task.row text])[last + 1]? = some (task.row text) := by
          rw [hlength, List.getElem?_concat_length]
        refine ⟨task.depth, last + 1, hd, .next hchain.append hrow htask, ?_⟩
        rw [hlength]
        exact lastAt_append_self rows (task.row text)
    · exact ⟨d, last, hd, hchain.append, hlast.append heq⟩

/-- What a new line leads to hangs on it. -/
theorem Task.Below.placed {child : Task} (hb : child.Below rows.length task.depth) :
    Placed (rows ++ [task.row text]) child.depth child.origin := by
  obtain ⟨hline, hdepth⟩ := hb
  have hlast : LastAt (rows ++ [task.row text]) task.depth rows.length :=
    lastAt_append_self rows (task.row text)
  cases horigin : child.origin with
  | root => simp [horigin, Origin.line?] at hline
  | slot line index =>
    obtain rfl : line = rows.length := by simpa [horigin, Origin.line?] using hline
    exact ⟨task.depth, by simpa [horigin, Origin.isUnder] using hdepth, hlast⟩
  | box line =>
    obtain rfl : line = rows.length := by simpa [horigin, Origin.line?] using hline
    exact ⟨task.depth, _, by simpa [horigin, Origin.isUnder] using hdepth, .refl, hlast⟩
  | link line h =>
    obtain rfl : line = rows.length := by simpa [horigin, Origin.line?] using hline
    have hsame : child.depth = task.depth := by simpa [horigin, Origin.isUnder] using hdepth
    refine ⟨by simp, ?_⟩
    rw [hsame]
    exact hlast

/-- What a line leads to goes before all that waited behind it. -/
theorem Task.Below.precedes {child other : Task} (hb : child.Below rows.length task.depth)
    (hprecedes : task.Precedes other) : child.Precedes other := by
  obtain ⟨hdepth, hunder⟩ := hprecedes
  refine ⟨?_, hunder⟩
  obtain ⟨hline, hchild⟩ := hb
  cases hunder' : child.origin.isUnder with
  | true =>
    have hle := Origin.slack_le task.origin other.origin
    rw [hunder', if_pos rfl] at hchild
    omega
  | false =>
    cases horigin : child.origin with
    | root => simp [horigin, Origin.line?] at hline
    | slot | box => simp [horigin, Origin.isUnder] at hunder'
    | link line h =>
      have hle := Origin.slack_le_link task.origin other.origin line h
      rw [hunder', if_neg Bool.false_ne_true] at hchild
      omega

end Pending

theorem Chained.le {rows : List Row} {first last : Nat} (h : Chained rows first last) : first ≤ last := by
  induction h with
  | refl => exact Nat.le_refl _
  | next _ _ _ ih => omega

/-- A value comes from a line that is there. -/
theorem Placed.line_lt {rows : List Row} {depth line : Nat} {origin : Origin}
    (hp : Placed rows depth origin) (hline : origin.line? = some line) : line < rows.length := by
  cases origin with
  | root => simp [Origin.line?] at hline
  | slot l index =>
    obtain rfl : l = line := by simpa [Origin.line?] using hline
    obtain ⟨_, _, hlast⟩ := hp
    exact hlast.lt
  | box l =>
    obtain rfl : l = line := by simpa [Origin.line?] using hline
    obtain ⟨_, last, _, hchain, hlast⟩ := hp
    exact Nat.lt_of_le_of_lt hchain.le hlast.lt
  | link l h =>
    obtain rfl : l = line := by simpa [Origin.line?] using hline
    obtain ⟨hlength, _⟩ := hp
    omega

/-- The origins that name a line, in their order. -/
def stemming (line : Nat) (origins : List Origin) : List Origin :=
  origins.filter fun origin => origin.line? = some line

theorem stemming_append (line : Nat) (origins origins' : List Origin) :
    stemming line (origins ++ origins') = stemming line origins ++ stemming line origins' :=
  List.filter_append ..

theorem stemming_eq_self {line : Nat} {origins : List Origin}
    (h : ∀ origin ∈ origins, origin.line? = some line) : stemming line origins = origins :=
  List.filter_eq_self.mpr fun origin ho => by simpa using h origin ho

theorem stemming_eq_nil {line : Nat} {origins : List Origin}
    (h : ∀ origin ∈ origins, origin.line? ≠ some line) : stemming line origins = [] :=
  List.filter_eq_nil_iff.mpr fun origin ho => by simpa using h origin ho

namespace Tour

def origins (t : Tour) : List Origin := t.rows.map (·.origin) ++ t.pending.map (·.origin)

/-- The lines so far and the values that wait stand where they should, and all that a line leads to is among
them, in order. -/
structure Laid (heap : Heap) (t : Tour) : Prop where
  rows : Built (fun before row => Placed before row.depth row.origin ∧
    Referred heap before row.node row.origin) t.rows
  pending : ∀ task ∈ t.pending, Placed t.rows task.depth task.origin ∧
    Referred heap t.rows task.node task.origin
  order : t.pending.Pairwise Task.Precedes
  stems : ∀ line row, t.rows[line]? = some row → ∃ children, Offspring heap row line children ∧
    stemming line t.origins = children.map (·.origin)

variable {heap : Heap}

theorem laid_start (heap : Heap) (node : Node) : (start node).Laid heap := by
  constructor
  · exact built_nil _
  · intro task ht
    obtain rfl := List.mem_singleton.mp ht
    exact ⟨⟨rfl, rfl⟩, trivial⟩
  · exact List.pairwise_singleton _ _
  · intro line row hrow
    simp [start] at hrow

theorem Laid.line_lt {t : Tour} (hl : t.Laid heap) {origin : Origin} (ho : origin ∈ t.origins) {line : Nat}
    (hline : origin.line? = some line) : line < t.rows.length := by
  rcases List.mem_append.mp ho with ho | ho
  · obtain ⟨row, hrow, rfl⟩ := List.mem_map.mp ho
    obtain ⟨i, hi⟩ := List.mem_iff_getElem?.mp hrow
    have hlt := (hl.rows i row hi).1.line_lt hline
    rw [List.length_take] at hlt
    omega
  · obtain ⟨task, htask, rfl⟩ := List.mem_map.mp ho
    exact (hl.pending task htask).1.line_lt hline

/-- What a new line leads to comes from no other line, and nothing else comes from it. -/
theorem Laid.stems_append {a b : Tour} (hl : a.Laid heap) {task : Task} {rest children : List Task}
    {text : String} (hpending : a.pending = task :: rest) (hrows : b.rows = a.rows ++ [task.row text])
    (hpending' : b.pending = children ++ rest) (ho : Offspring heap (task.row text) a.rows.length children)
    {line : Nat} {row : Row} (hrow : b.rows[line]? = some row) :
    ∃ children, Offspring heap row line children ∧
      stemming line b.origins = children.map (·.origin) := by
  have hbefore : a.origins = a.rows.map (·.origin) ++ [task.origin] ++ rest.map (·.origin) := by
    simp [origins, hpending]
  have hafter : b.origins =
      a.rows.map (·.origin) ++ [task.origin] ++ children.map (·.origin) ++ rest.map (·.origin) := by
    simp [origins, hrows, hpending', Task.row]
  have hchildren : ∀ origin ∈ children.map (·.origin), origin.line? = some a.rows.length := by
    intro origin horigin
    obtain ⟨child, hc, rfl⟩ := List.mem_map.mp horigin
    exact (ho.below hc).line
  rw [hafter, stemming_append, stemming_append]
  rw [hrows] at hrow
  by_cases hlt : line < a.rows.length
  · rw [List.getElem?_append_left hlt] at hrow
    obtain ⟨old, hoffspring, hstems⟩ := hl.stems line row hrow
    have hnone : stemming line (children.map (·.origin)) = [] := by
      refine stemming_eq_nil fun origin horigin => ?_
      rw [hchildren origin horigin, ne_eq, Option.some.injEq]
      omega
    refine ⟨old, hoffspring, ?_⟩
    rw [hnone, List.append_nil, ← stemming_append, ← hbefore, hstems]
  · have hlast := (List.getElem?_eq_some_iff.mp hrow).1
    obtain rfl : line = a.rows.length := by
      rw [List.length_append, List.length_singleton] at hlast
      omega
    rw [List.getElem?_concat_length] at hrow
    obtain rfl := Option.some.inj hrow
    have hnone : ∀ origin ∈ a.origins, origin.line? ≠ some a.rows.length :=
      fun origin horigin hline => Nat.lt_irrefl _ (hl.line_lt horigin hline)
    rw [hbefore] at hnone
    refine ⟨children, ho, ?_⟩
    rw [stemming_eq_nil fun origin h => hnone origin (List.mem_append_left _ h),
      stemming_eq_nil fun origin h => hnone origin (List.mem_append_right _ h), stemming_eq_self hchildren]
    simp

theorem Step.laid {a b : Tour} (hs : Step heap a b) (hl : a.Laid heap) : b.Laid heap := by
  obtain ⟨task, rest, text, children, hpending, hrows, hpending', ho⟩ := hs.offspring
  have htask := hl.pending task (by rw [hpending]; exact List.mem_cons_self)
  have horder := hl.order
  rw [hpending, List.pairwise_cons] at horder
  obtain ⟨hfirst, hrest⟩ := horder
  have hbelow : ∀ child ∈ children, child.Below a.rows.length task.depth := fun child hc => ho.below hc
  have hnew : b.rows[a.rows.length]? = some (task.row text) := by
    rw [hrows, List.getElem?_concat_length]
  constructor
  · rw [hrows]
    exact hl.rows.append htask
  · intro other hother
    rw [hpending'] at hother
    rcases List.mem_append.mp hother with hc | hr
    · refine ⟨?_, ho.referred hnew hc⟩
      rw [hrows]
      exact (hbelow other hc).placed
    · have hwait := hl.pending other (by rw [hpending]; exact List.mem_cons_of_mem _ hr)
      rw [hrows]
      exact ⟨htask.1.append hwait.1 (hfirst other hr), hwait.2.append _⟩
  · rw [hpending']
    refine List.pairwise_append.mpr ⟨ho.pairwise, hrest, ?_⟩
    intro child hc other hr
    exact (hbelow child hc).precedes (hfirst other hr)
  · intro line row hrow
    exact hl.stems_append hpending hrows hpending' ho hrow

end Tour

/-- How the lines of a dump stand. Every line but the first comes from an earlier one that refers to it,
and what comes from a line is all that it leads to, in order. A value in a slot stands under the line of its
allocation: that is the nearest one before it that is one step less deep. The next cell of a chain stands
right behind the one before it. The box of a cell stands under the last line of the chain, so under its own
cell only if no other is behind that. -/
structure Layout (heap : Heap) (rows : List Row) : Prop where
  referred : ∀ (i : Nat) (row : Row), rows[i]? = some row →
    Referred heap (rows.take i) row.node row.origin
  stems : ∀ (line : Nat) (row : Row), rows[line]? = some row → ∃ children,
    Offspring heap row line children ∧ stemming line (rows.map (·.origin)) = children.map (·.origin)
  slot : ∀ (i : Nat) (row : Row) (line index : Nat), rows[i]? = some row →
    row.origin = .slot line index → ∃ d, row.depth = d + 1 ∧ LastAt (rows.take i) d line
  link : ∀ (i : Nat) (row : Row) (line : Nat) (h : Handle), rows[i]? = some row →
    row.origin = .link line h → i = line + 1 ∧ LastAt (rows.take i) row.depth line
  box : ∀ (i : Nat) (row : Row) (line : Nat), rows[i]? = some row → row.origin = .box line →
    ∃ d last, row.depth = d + 1 ∧ Chained (rows.take i) line last ∧ LastAt (rows.take i) d last ∧
      ∀ (above : Row) (cell : Cell), rows[line]? = some above → above.node = .cell cell →
        (last = line ↔ cell.next = none)

section Layout

variable {heap : Heap} {rows : List Row}

theorem Chained.first_link {first last : Nat} (h : Chained rows first last) :
    last = first ∨
      ∃ (row : Row) (h : Handle), rows[first + 1]? = some row ∧ row.origin = .link first h := by
  induction h with
  | refl => exact .inl rfl
  | next _ hrow horigin ih =>
    rcases ih with rfl | hfirst
    · exact .inr ⟨_, _, hrow, horigin⟩
    · exact .inr hfirst

theorem Offspring.of_cell {row : Row} {line : Nat} {children : List Task}
    (ho : Offspring heap row line children) {cell : Cell} (hn : row.node = .cell cell) :
    ∃ link seen seen', Follows heap line row.depth seen cell.next link seen' ∧
      children = link ++ boxTasks line row.depth cell.head := by
  cases ho with
  | leaf hl =>
    rw [hn] at hl
    cases hl
  | again hr => simp [hn, reference] at hr
  | slots hr => simp [hn, reference] at hr
  | cell hn' hf =>
    obtain rfl := Node.cell.inj (hn.symm.trans hn')
    exact ⟨_, _, _, hf, rfl⟩

/-- All that a line leads to has a line. -/
theorem exists_row {line : Nat} {origin : Origin} {children : List Task}
    (hstems : stemming line (rows.map (·.origin)) = children.map (·.origin))
    (hmem : origin ∈ children.map (·.origin)) :
    ∃ (i : Nat) (below : Row), rows[i]? = some below ∧ below.origin = origin := by
  rw [← hstems] at hmem
  obtain ⟨below, hbelow, horigin⟩ := List.mem_map.mp (List.mem_filter.mp hmem).1
  obtain ⟨i, hi⟩ := List.mem_iff_getElem?.mp hbelow
  exact ⟨i, below, hi, horigin⟩

theorem Offspring.link_mem {row : Row} {line : Nat} {children : List Task}
    (ho : Offspring heap row line children) {cell : Cell} (hn : row.node = .cell cell) {h : Handle}
    (hnext : cell.next = some h) : .link line h ∈ children.map (·.origin) := by
  obtain ⟨link, seen, seen', hf, rfl⟩ := ho.of_cell hn
  rw [hnext] at hf
  cases hf <;> simp

theorem Offspring.box_mem {row : Row} {line : Nat} {children : List Task}
    (ho : Offspring heap row line children) {cell : Cell} (hn : row.node = .cell cell) {box : Handle}
    (hhead : cell.head = .boxed box) : .box line ∈ children.map (·.origin) := by
  obtain ⟨link, seen, seen', hf, rfl⟩ := ho.of_cell hn
  simp [hhead, boxTasks]

theorem layout_of_laid {seen : List Handle} (hl : Tour.Laid heap ⟨rows, seen, []⟩) :
    Layout heap rows := by
  have hplaced : ∀ (i : Nat) (row : Row), rows[i]? = some row →
      Placed (rows.take i) row.depth row.origin := fun i row hi => (hl.rows i row hi).1
  have hreferred : ∀ (i : Nat) (row : Row), rows[i]? = some row →
      Referred heap (rows.take i) row.node row.origin := fun i row hi => (hl.rows i row hi).2
  have hstems : ∀ (line : Nat) (row : Row), rows[line]? = some row → ∃ children,
      Offspring heap row line children ∧
        stemming line (rows.map (·.origin)) = children.map (·.origin) := by
    intro line row hrow
    simpa [Tour.origins] using hl.stems line row hrow
  have hlink : ∀ (i : Nat) (row : Row) (line : Nat) (h : Handle), rows[i]? = some row →
      row.origin = .link line h → i = line + 1 ∧ LastAt (rows.take i) row.depth line := by
    intro i row line h hi horigin
    have hp := hplaced i row hi
    rw [horigin] at hp
    obtain ⟨hlength, hlast⟩ := hp
    have hlt := (List.getElem?_eq_some_iff.mp hi).1
    rw [List.length_take] at hlength
    exact ⟨by omega, hlast⟩
  refine ⟨hreferred, hstems, ?_, hlink, ?_⟩
  · intro i row line index hi horigin
    have hp := hplaced i row hi
    rwa [horigin] at hp
  · intro i row line hi horigin
    have hp := hplaced i row hi
    rw [horigin] at hp
    obtain ⟨d, last, hd, hchain, hlast⟩ := hp
    refine ⟨d, last, hd, hchain, hlast, ?_⟩
    intro above cell habove hn
    constructor
    · rintro rfl
      by_contra hnext
      obtain ⟨h, hnext⟩ := Option.ne_none_iff_exists'.mp hnext
      -- The line of the next cell is as deep as this one, and nearer.
      obtain ⟨children, ho, hchildren⟩ := hstems last above habove
      obtain ⟨j, below, hj, hlinked⟩ := exists_row hchildren (ho.link_mem hn hnext)
      obtain ⟨rfl, hsame⟩ := hlink j below last h hj hlinked
      have hdepth := (hlast.depth_eq_of_take habove).symm.trans (hsame.depth_eq_of_take habove)
      have hlt : last + 1 < i := by
        have hle := hlast.lt
        rw [List.length_take] at hle
        have hne : last + 1 ≠ i := by
          rintro rfl
          obtain rfl := Option.some.inj (hi.symm.trans hj)
          simp [horigin] at hlinked
        omega
      exact hlast.last (last + 1) below (Nat.lt_succ_self last)
        (getElem?_take_eq_some.mpr ⟨hlt, hj⟩) hdepth.symm
    · intro hnone
      rcases hchain.first_link with heq | ⟨below, h, hbelow, hlinked⟩
      · exact heq
      · obtain ⟨_, hbelow⟩ := getElem?_take_eq_some.mp hbelow
        have hrefers := hreferred _ below hbelow
        rw [hlinked] at hrefers
        obtain ⟨r, c, hr, hc, hnext, _⟩ := hrefers
        obtain rfl := Option.some.inj (habove.symm.trans (getElem?_take_eq_some.mp hr).2)
        obtain rfl := Node.cell.inj (hn.symm.trans hc)
        simp [hnone] at hnext

end Layout

end Dump

open Dump in
/-- A dump shows by its depths what refers to what, but for the boxes of a chain: all of them stand under
the last line of the chain. -/
theorem dump_layout {heap : Heap} {node : Node} {text : String} (hd : heap.describe node = .ok text) :
    ∃ n rows seen, Tour.Run heap n (.start node) ⟨rows, seen, []⟩ ∧ text = render rows ∧
      Layout heap rows := by
  obtain ⟨n, rows, seen, hr, htext⟩ := run_of_describe hd
  have hlaid := hr.invariant (fun _ _ hs hl => hs.laid hl) (Tour.laid_start heap node)
  exact ⟨n, rows, seen, hr, htext, layout_of_laid hlaid⟩

open Dump in
/-- Both elements of this list are in boxes. The box of the first one, whose cell has line 1, stands under
the cell of the second. -/
theorem dump_layout_two_boxes :
    ∃ ctx rows i row d last, Reachable { arenaBytes := 4096, stackSlots := 16 } ctx ∧
      ctx.heap.describe (.ref ⟨1, 1⟩) = .ok (render rows) ∧ Layout ctx.heap rows ∧
      rows[i]? = some row ∧ row.origin = .box 1 ∧ row.depth = d + 1 ∧
      LastAt (rows.take i) d last ∧ last ≠ 1 := by
  have hstart : Reachable { arenaBytes := 4096, stackSlots := 16 } _ := .start rfl
  have hr := hstart.after [.act (.append Node.emptyList Node.undefined), .act (.push (Node.ref ⟨1, 1⟩)),
    .act (.append (Node.ref ⟨1, 1⟩) Node.undefined)]
  generalize hctx : Context.after _ _ = ctx at hr
  have hok : (ctx.heap.describe (.ref ⟨1, 1⟩)).toOption.any (fun _ => true) = true := by
    rw [← hctx]
    cbv
  have hcell : ((Tour.start (.ref ⟨1, 1⟩)).whole ctx.heap).toOption.any (fun shown =>
      shown[1]?.map (·.node) = some (.cell ⟨.boxed ⟨0, 1⟩, some ⟨3, 1⟩⟩)) = true := by
    rw [← hctx]
    cbv
  obtain ⟨text, hd, _⟩ := exists_ok_of_any hok
  obtain ⟨n, rows, seen, hrun, rfl, hlayout⟩ := dump_layout hd
  obtain ⟨above, habove, hn⟩ : ∃ above, rows[1]? = some above ∧
      above.node = .cell ⟨.boxed ⟨0, 1⟩, some ⟨3, 1⟩⟩ := by
    rw [hrun.whole_eq] at hcell
    simpa [Tour.whole, walk, Except.map, Except.toOption] using hcell
  obtain ⟨children, ho, hchildren⟩ := hlayout.stems 1 above habove
  obtain ⟨i, row, hi, horigin⟩ := exists_row hchildren (ho.box_mem hn rfl)
  obtain ⟨d, last, hdepth, _, hlast, hiff⟩ := hlayout.box i row 1 hi horigin
  refine ⟨ctx, rows, i, row, d, last, hr, hd, hlayout, hi, horigin, hdepth, hlast, ?_⟩
  intro heq
  have hnone := (hiff above _ habove hn).mp heq
  simp at hnone

example : ∃ ctx, Reachable { arenaBytes := 4096, stackSlots := 16 } ctx ∧
    (Dump.walk ctx.heap [] [⟨.ref ⟨1, 1⟩, 0⟩]).map (fun shown => shown.map fun s => (s.depth, s.text)) =
      .ok [(0, "pointer #1v1 (1 slots)"), (1, "pointer list cell"), (1, "pointer list cell"),
        (2, "pointer #2v1 (1 slots)"), (3, "undefined"), (2, "pointer #0v1 (1 slots)"), (3, "undefined")] := by
  have hstart : Reachable { arenaBytes := 4096, stackSlots := 16 } _ := .start rfl
  refine ⟨_, hstart.after [.act (.append Node.emptyList Node.undefined), .act (.push (Node.ref ⟨1, 1⟩)),
    .act (.append (Node.ref ⟨1, 1⟩) Node.undefined)], ?_⟩
  cbv

end GenerationalHeap
