import GenerationalHeap.Proofs.Frames
import GenerationalHeap.Proofs.Running

namespace GenerationalHeap

/-- The operations of the value stack. -/
inductive StackRequest
  | push (node : Node)
  | pop
  | peek
  | reserve (count : Nat)
  | readLocal (index : Nat)
  | writeLocal (index : Nat) (node : Node)
  | drop (count : Nat)
  | pushFrame
  | popFrame (frame : Frame)

namespace StackRequest

def action : StackRequest → Action Operands.resolved
  | push node => .push node
  | pop => .pop
  | peek => .peek
  | reserve count => .reserve count
  | readLocal index => .readLocal index
  | writeLocal index node => .writeLocal index node
  | drop count => .drop count
  | pushFrame => .pushFrame
  | popFrame frame => .popFrame frame

/-- Positions of the slots that a request reads or changes. -/
def positions (s : ValueStack) : StackRequest → List Nat
  | push _ => [s.top]
  | pop | peek => [s.top - 1]
  | readLocal index | writeLocal index _ => [s.base + index]
  | drop count => List.range' (s.top - count) count
  | popFrame frame => List.range' frame.top (s.top - frame.top)
  | reserve _ | pushFrame => []

/-- Positions at which a request puts a value. -/
def written (s : ValueStack) : StackRequest → List Nat
  | push _ => [s.top]
  | writeLocal index _ => [s.base + index]
  | _ => []

/-- The slots in use after a request. They are made from those in use before it: a list has nothing
behind its end that could come back. -/
def liveAfter (s : ValueStack) : StackRequest → List Node
  | push node => s.live ++ [node]
  | pop => s.live.dropLast
  | reserve count => s.live ++ List.replicate count .undefined
  | writeLocal index node => s.live.set (s.base + index) node
  | drop count => s.live.take (s.top - count)
  | popFrame frame => s.live.take frame.top
  | peek | readLocal _ | pushFrame => s.live

/-- The frames that a request ends are among those issued. -/
def Holds (issued : List Frame) (request : StackRequest) : Prop :=
  ∀ frame, request = popFrame frame → frame ∈ issued

end StackRequest

/-- The frame that an answer hands out. -/
def Answer.frames : Answer → List Frame
  | .frame opened => [opened]
  | _ => []

namespace ValueStack

/-- What a stack does for a request that it does not refuse. The slots it touches exist, all others stay
as they are, and a value it hands out is in one of them. A slot without a value gets none unless one is
put there. -/
structure Grants (s : ValueStack) (request : StackRequest) (answer : Answer) (s' : ValueStack) : Prop where
  bounds : ∀ i ∈ request.positions s, i < s.capacity
  others : ∀ i, i ∉ request.positions s → s'.slot i = s.slot i
  live : s'.live = request.liveAfter s
  node : ∀ node, answer = .node node → ∃ i ∈ request.positions s, s.slots[i]? = some node
  blank : ∀ i, i ∉ request.written s → s.slot i = .undefined → s'.slot i = .undefined

variable {s s' : ValueStack}

theorem getElem?_slots {i : Nat} (h : i < s.capacity) : s.slots[i]? = some (s.slot i) := by
  have hi : i < s.slots.size := h
  simp [slot, hi]

theorem getElem?_live (h : s.top ≤ s.capacity) (i : Nat) :
    s.live[i]? = if i < s.top then some (s.slot i) else none := by
  rw [live, List.getElem?_take, Array.getElem?_toList]
  split
  · exact getElem?_slots (by omega)
  · rfl

theorem length_live (h : s.top ≤ s.capacity) : s.live.length = s.top := by
  rw [live, List.length_take, Array.length_toList]
  exact Nat.min_eq_left h

/-- The slots in use are a list whose values are found at their positions. -/
theorem live_eq {values : List Node} (h : s.top ≤ s.capacity) (hlength : values.length = s.top)
    (hvalues : ∀ i, i < s.top → values[i]? = some (s.slot i)) : s.live = values := by
  apply List.ext_getElem?
  intro i
  rw [getElem?_live h]
  by_cases hi : i < s.top
  · rw [if_pos hi, hvalues i hi]
  · rw [if_neg hi, List.getElem?_eq_none (by omega)]

/-- Where nothing is put, a slot without a value stays without one. -/
theorem Turn.blank (h : s.Turn [] s') {i : Nat} (hi : s.slot i = .undefined) : s'.slot i = .undefined := by
  rcases h.slot i with he | he | he
  · exact he.trans hi
  · exact he
  · simp at he

/-- A request that only reads one slot. -/
theorem grants_read {request : StackRequest} {i : Nat} (hpositions : request.positions s = [i])
    (hlive : request.liveAfter s = s.live) (hlt : i < s.capacity) :
    s.Grants request (.node (s.slot i)) s := by
  refine ⟨?_, fun _ _ => rfl, hlive.symm, ?_, fun _ _ hi => hi⟩
  · intro j hj
    rw [hpositions, List.mem_singleton] at hj
    rwa [hj]
  · intro node hnode
    obtain rfl := Answer.node.inj hnode
    exact ⟨i, by simp [hpositions], getElem?_slots hlt⟩

/-- A request that only puts a value into one slot. -/
theorem grants_put {request : StackRequest} {i : Nat} {node : Node}
    (hpositions : request.positions s = [i]) (hwritten : request.written s = [i]) (hlt : i < s.capacity)
    (hslot : ∀ j, s'.slot j = if j = i then node else s.slot j) (hlive : s'.live = request.liveAfter s) :
    s.Grants request .nothing s' := by
  have hothers : ∀ j, j ∉ [i] → s'.slot j = s.slot j := by
    intro j hj
    rw [hslot, if_neg (by simpa using hj)]
  constructor
  · intro j hj
    rw [hpositions, List.mem_singleton] at hj
    rwa [hj]
  · rwa [hpositions]
  · exact hlive
  · intro node hnode
    simp at hnode
  · intro j hj hblank
    rw [hwritten] at hj
    rw [hothers j hj, hblank]

section Requests

variable {capacity : Nat} (hs : (ofCapacity capacity).Supports s)
include hs

theorem grants_push {node : Node} (h : s.push node = .ok s') : s.Grants (.push node) .nothing s' := by
  obtain ⟨htop, hcapacity, hslot⟩ := push_eq_ok h
  have hle := hs.tidy.top_le
  have hle' := (hs.push h).tidy.top_le
  have hlength := length_live hle
  refine grants_put rfl rfl (by omega) hslot ?_
  refine live_eq hle' (by simp [StackRequest.liveAfter, hlength, htop]) fun i hi => ?_
  rw [StackRequest.liveAfter, List.getElem?_append, hslot, hlength, getElem?_live hle]
  by_cases he : i = s.top
  · simp [he]
  · have hlt : i < s.top := by omega
    simp [he, hlt]

theorem grants_pop {node : Node} (h : s.pop = .ok (node, s')) : s.Grants .pop (.node node) s' := by
  have hbase := hs.base_le
  have hle := hs.tidy.top_le
  have hle' := (hs.pop h).tidy.top_le
  have hturn := turn_pop s s' node h
  unfold pop at h
  split at h
  · simp at h
  · rename_i hne
    obtain ⟨rfl, rfl⟩ := Prod.mk.inj (Except.ok.inj h)
    have hlength := length_live hle
    have hread : s.Grants .peek (.node (s.slot (s.top - 1))) s := grants_read rfl rfl (by omega)
    refine ⟨hread.bounds, ?_, ?_, hread.node, fun _ _ hi => hturn.blank hi⟩
    · intro i hi
      have hi : i ≠ s.top - 1 := by simpa [StackRequest.positions] using hi
      rw [slot_set, if_neg fun hlast => hi hlast.1.symm]
    · refine live_eq hle' (by simp [StackRequest.liveAfter, hlength]) fun i hi => ?_
      have hi : i < s.top - 1 := hi
      rw [StackRequest.liveAfter, List.getElem?_dropLast, hlength, if_pos hi, getElem?_live hle,
        if_pos (by omega), slot_set, if_neg (by omega)]

theorem grants_peek {node : Node} (h : s.peek = .ok node) : s.Grants .peek (.node node) s := by
  have hbase := hs.base_le
  have hle := hs.tidy.top_le
  unfold peek at h
  split at h
  · simp at h
  · obtain rfl := Except.ok.inj h
    exact grants_read rfl rfl (by omega)

/-- The slots that a reservation hands out are undefined, whatever was in them before. -/
theorem grants_reserve {count : Nat} (h : s.reserve count = .ok s') :
    s.Grants (.reserve count) .nothing s' := by
  have hle := hs.tidy.top_le
  have hle' := (hs.reserve h).tidy.top_le
  have hturn := turn_reserve s s' count h
  unfold reserve Word.add? at h
  split at h
  · rename_i top htop
    split at h
    · obtain rfl := Except.ok.inj h
      obtain rfl : top = s.top + count := by
        split at htop
        · exact (Option.some.inj htop).symm
        · simp at htop
      have hlength := length_live hle
      refine ⟨by simp [StackRequest.positions], fun _ _ => rfl, ?_, by simp,
        fun _ _ hi => hturn.blank hi⟩
      refine live_eq hle' (by simp [StackRequest.liveAfter, hlength]) fun i hi => ?_
      have hi : i < s.top + count := hi
      rw [StackRequest.liveAfter, List.getElem?_append, hlength, getElem?_live hle]
      by_cases hlt : i < s.top
      · rw [if_pos hlt, if_pos hlt]
        rfl
      · have habove := hs.tidy.above i (by omega)
        rw [if_neg hlt, List.getElem?_replicate, if_pos (by omega), ← habove]
        rfl
    · simp at h
  · simp at h

theorem position_eq_ok {index i : Nat} (h : s.position index = .ok i) :
    i = s.base + index ∧ i < s.capacity := by
  have hlt := position_lt s index i h
  have hle := hs.tidy.top_le
  unfold position at h
  split at h
  · exact ⟨(Except.ok.inj h).symm, by omega⟩
  · simp at h

theorem grants_readLocal {index : Nat} {node : Node} (h : s.readLocal index = .ok node) :
    s.Grants (.readLocal index) (.node node) s := by
  unfold readLocal at h
  cases hp : s.position index with
  | error e => simp [hp, Except.map] at h
  | ok i =>
    obtain ⟨rfl, hlt⟩ := position_eq_ok hs hp
    simp only [hp, Except.map, Except.ok.injEq] at h
    subst h
    exact grants_read rfl rfl hlt

theorem grants_writeLocal {index : Nat} {node : Node} (h : s.writeLocal index node = .ok s') :
    s.Grants (.writeLocal index node) .nothing s' := by
  have hle := hs.tidy.top_le
  have hle' := (hs.writeLocal h).tidy.top_le
  unfold writeLocal at h
  cases hp : s.position index with
  | error e => simp [hp, Except.map] at h
  | ok i =>
    obtain ⟨rfl, hlt⟩ := position_eq_ok hs hp
    simp only [hp, Except.map, Except.ok.injEq] at h
    subst h
    have hlength := length_live hle
    have hslot : ∀ j, (⟨s.slots.setIfInBounds (s.base + index) node, s.top, s.base⟩ : ValueStack).slot j =
        if j = s.base + index then node else s.slot j := by
      intro j
      simp [slot_set, hlt, eq_comm]
    refine grants_put rfl rfl hlt hslot ?_
    refine live_eq hle' (by simp [StackRequest.liveAfter, hlength]) fun i hi => ?_
    have hi : i < s.top := hi
    rw [StackRequest.liveAfter, List.getElem?_set, hlength, getElem?_live hle, if_pos hi, hslot]
    by_cases he : s.base + index = i
    · simp [he, hi]
    · simp [he, Ne.symm he]

/-- A stack that sinks gives up the slots above its new top and keeps the others. -/
theorem grants_truncate {top base : Nat} (hle : top ≤ s.top) {request : StackRequest}
    (hpositions : request.positions s = List.range' top (s.top - top))
    (hlive : request.liveAfter s = s.live.take top) :
    s.Grants request .nothing { s.truncate top with base } := by
  have hcapacity := hs.tidy.top_le
  have hmem : ∀ i, i ∈ request.positions s ↔ top ≤ i ∧ i < s.top := by
    intro i
    rw [hpositions, List.mem_range'_1]
    omega
  refine ⟨?_, ?_, ?_, by simp, fun _ _ hi => (turn_truncate s top).blank hi⟩
  · intro i hi
    have := (hmem i).mp hi
    omega
  · intro i hi
    show (s.truncate top).slot i = s.slot i
    rw [slot_truncate, if_neg (by rwa [← hmem])]
  · have htop : (s.truncate top).top = top := by
      rw [top_truncate]
      omega
    have hcapacity' : (s.truncate top).capacity = s.capacity := capacity_truncate s top
    show (s.truncate top).live = _
    rw [hlive]
    refine live_eq (by omega) ?_ fun i hi => ?_
    · rw [List.length_take, length_live hcapacity, htop]
      omega
    · have hi : i < top := by omega
      rw [List.getElem?_take, if_pos hi, getElem?_live hcapacity, if_pos (by omega), slot_truncate,
        if_neg (by omega)]

theorem grants_drop {count : Nat} (h : s.drop count = .ok s') : s.Grants (.drop count) .nothing s' := by
  have hbase := hs.base_le
  unfold drop frameLength at h
  split at h
  · simp at h
  · obtain rfl := Except.ok.inj h
    have hcount : s.top - (s.top - count) = count := by omega
    have hgrants : s.Grants (.drop count) .nothing { s.truncate (s.top - count) with base := s.base } :=
      grants_truncate hs (Nat.sub_le s.top count) (by rw [hcount]; rfl) rfl
    rwa [← base_truncate s (s.top - count)] at hgrants

theorem grants_popFrame {frame : Frame} (h : s.popFrame frame = .ok s') :
    s.Grants (.popFrame frame) .nothing s' := by
  unfold popFrame at h
  split at h
  · simp at h
  · obtain rfl := Except.ok.inj h
    exact grants_truncate hs (by omega) rfl rfl

omit hs in
theorem grants_pushFrame : s.Grants .pushFrame (.frame s.pushFrame.1) s.pushFrame.2 :=
  ⟨by simp [StackRequest.positions], fun _ _ => rfl, rfl, by simp, fun _ _ hi => hi⟩

end Requests

/-- A stack with room for `capacity` values, and frames that it has issued: its own and theirs begin at
or below their tops, and the slots above its top are undefined. -/
structure Disciplined (capacity : Nat) (issued : List Frame) (s : ValueStack) : Prop where
  supports : (ofCapacity capacity).Supports s
  frames : ∀ frame ∈ issued, frame.base ≤ frame.top

theorem disciplined_ofCapacity (capacity : Nat) : (ofCapacity capacity).Disciplined capacity [] where
  supports := ⟨rfl, tidy_ofCapacity capacity, Nat.le_refl 0, Nat.le_refl 0, fun _ _ => rfl⟩
  frames := by simp

end ValueStack

namespace Mutator

variable {α : Type} {ctx c : Context} {r : Except RuntimeError Answer}

theorem silently_updateStack_eq_ok {f : ValueStack → Except RuntimeError ValueStack}
    (h : (silently (updateStack f)).run.run ctx = .ok (r, c)) :
    (∃ e, r = .error e ∧ c = ctx) ∨
      ∃ s, f ctx.stack = .ok s ∧ r = .ok .nothing ∧ c = { ctx with stack := s } := by
  rw [silently, run_bind, run_updateStack] at h
  cases hf : f ctx.stack with
  | error e =>
    rw [hf] at h
    obtain ⟨rfl, rfl⟩ := Prod.mk.inj (Except.ok.inj h)
    exact .inl ⟨e, rfl, rfl⟩
  | ok s =>
    rw [hf] at h
    obtain ⟨rfl, rfl⟩ := Prod.mk.inj (Except.ok.inj h)
    exact .inr ⟨s, rfl, rfl, rfl⟩

theorem map_onStack_eq_ok {f : ValueStack → Except RuntimeError (α × ValueStack)} {g : α → Answer}
    (h : (g <$> onStack f).run.run ctx = .ok (r, c)) :
    (∃ e, r = .error e ∧ c = ctx) ∨
      ∃ x s, f ctx.stack = .ok (x, s) ∧ r = .ok (g x) ∧ c = { ctx with stack := s } := by
  rw [run_map, run_onStack] at h
  cases hf : f ctx.stack with
  | error e =>
    rw [hf] at h
    obtain ⟨rfl, rfl⟩ := Prod.mk.inj (Except.ok.inj h)
    exact .inl ⟨e, rfl, rfl⟩
  | ok p =>
    rw [hf] at h
    obtain ⟨rfl, rfl⟩ := Prod.mk.inj (Except.ok.inj h)
    exact .inr ⟨p.1, p.2, rfl, rfl, rfl⟩

theorem map_read_eq_ok {ask : Context → Except RuntimeError α} {g : α → Answer}
    (h : (g <$> read ask).run.run ctx = .ok (r, c)) :
    (∃ e, r = .error e ∧ c = ctx) ∨ ∃ x, ask ctx = .ok x ∧ r = .ok (g x) ∧ c = ctx := by
  rw [run_map, run_read] at h
  obtain ⟨rfl, rfl⟩ := Prod.mk.inj (Except.ok.inj h)
  cases ha : ask ctx with
  | error e => exact .inl ⟨e, rfl, rfl⟩
  | ok x => exact .inr ⟨x, rfl, rfl, rfl⟩

theorem silently_updateStack_ne_error (f : ValueStack → Except RuntimeError ValueStack) (why : Fault) :
    (silently (updateStack f)).run.run ctx ≠ .error why := by
  rw [silently, run_bind, run_updateStack]
  cases f ctx.stack <;> rintro ⟨⟩

theorem map_onStack_ne_error (f : ValueStack → Except RuntimeError (α × ValueStack)) (g : α → Answer)
    (why : Fault) : (g <$> onStack f).run.run ctx ≠ .error why := by
  rw [run_map, run_onStack]
  cases f ctx.stack <;> simp [Except.map]

theorem map_read_ne_error (ask : Context → Except RuntimeError α) (g : α → Answer) (why : Fault) :
    (g <$> read ask).run.run ctx ≠ .error why := by
  rw [run_map, run_read]
  simp [Except.map]

end Mutator

namespace StackRequest

open ValueStack Mutator

variable {capacity : Nat} {issued : List Frame} {ctx c : Context} {request : StackRequest}

/-- A request that is refused changes nothing. Any other does to the stack what was asked for, and leaves
it disciplined together with the frame it may have issued. -/
theorem step (hd : ctx.stack.Disciplined capacity issued) (hholds : request.Holds issued)
    {r : Except RuntimeError Answer} (hrun : request.action.run.run.run ctx = .ok (r, c)) :
    (∃ e, r = .error e ∧ c = ctx) ∨
      ∃ answer, r = .ok answer ∧ ctx.stack.Grants request answer c.stack ∧
        c.stack.Disciplined capacity (answer.frames ++ issued) := by
  have hs := hd.supports
  cases request with
  | push node =>
    rcases silently_updateStack_eq_ok hrun with hrefused | ⟨s, h, rfl, rfl⟩
    · exact .inl hrefused
    · exact .inr ⟨.nothing, rfl, grants_push hs h, hs.push h, hd.frames⟩
  | pop =>
    rcases map_onStack_eq_ok hrun with hrefused | ⟨node, s, h, rfl, rfl⟩
    · exact .inl hrefused
    · exact .inr ⟨.node node, rfl, grants_pop hs h, hs.pop h, hd.frames⟩
  | peek =>
    rcases map_read_eq_ok hrun with hrefused | ⟨node, h, rfl, rfl⟩
    · exact .inl hrefused
    · exact .inr ⟨.node node, rfl, grants_peek hs h, hs, hd.frames⟩
  | reserve count =>
    rcases silently_updateStack_eq_ok hrun with hrefused | ⟨s, h, rfl, rfl⟩
    · exact .inl hrefused
    · exact .inr ⟨.nothing, rfl, grants_reserve hs h, hs.reserve h, hd.frames⟩
  | readLocal index =>
    rcases map_read_eq_ok hrun with hrefused | ⟨node, h, rfl, rfl⟩
    · exact .inl hrefused
    · exact .inr ⟨.node node, rfl, grants_readLocal hs h, hs, hd.frames⟩
  | writeLocal index node =>
    rcases silently_updateStack_eq_ok hrun with hrefused | ⟨s, h, rfl, rfl⟩
    · exact .inl hrefused
    · exact .inr ⟨.nothing, rfl, grants_writeLocal hs h, hs.writeLocal h, hd.frames⟩
  | drop count =>
    rcases silently_updateStack_eq_ok hrun with hrefused | ⟨s, h, rfl, rfl⟩
    · exact .inl hrefused
    · exact .inr ⟨.nothing, rfl, grants_drop hs h, hs.drop h, hd.frames⟩
  | pushFrame =>
    obtain ⟨rfl, rfl⟩ := Prod.mk.inj (Except.ok.inj hrun)
    refine .inr ⟨_, rfl, grants_pushFrame, hs.pushFrame, ?_⟩
    intro frame hframe
    rcases List.mem_cons.mp hframe with rfl | hframe
    · exact hs.base_le
    · exact hd.frames frame hframe
  | popFrame frame =>
    have hrun : (silently (Mutator.popFrame frame)).run.run ctx = .ok (r, c) := hrun
    rw [silently, run_bind, run_popFrame] at hrun
    cases h : ctx.stack.popFrame frame with
    | error why => simp [h] at hrun
    | ok s =>
      rw [h] at hrun
      obtain ⟨rfl, rfl⟩ := Prod.mk.inj (Except.ok.inj hrun)
      have hle := hd.frames frame (hholds frame rfl)
      exact .inr ⟨.nothing, rfl, grants_popFrame hs h, hs.popFrame (Nat.zero_le _) hle h, hd.frames⟩

/-- The only fault of a request is to end a frame that the stack has sunk below. -/
theorem run_eq_error {why : Fault} : request.action.run.run.run ctx = .error why ↔
    why = .framesOutOfOrder ∧ ∃ frame, request = .popFrame frame ∧ ctx.stack.top < frame.top := by
  cases request with
  | popFrame frame =>
    have hrun : (popFrame frame).action.run.run.run ctx =
        (ctx.stack.popFrame frame).map fun stack => (.ok .nothing, { ctx with stack }) := by
      refine (run_bind (Mutator.popFrame frame) (fun _ => pure Answer.nothing) ctx).trans ?_
      rw [run_popFrame]
      cases ctx.stack.popFrame frame <;> rfl
    rw [hrun, ValueStack.popFrame]
    by_cases hlt : ctx.stack.top < frame.top
    · simp [hlt, Except.map, eq_comm]
    · simp [hlt, Except.map]
  | push | reserve | writeLocal | drop =>
    exact iff_of_false (silently_updateStack_ne_error _ why) (by simp)
  | pop | pushFrame => exact iff_of_false (map_onStack_ne_error _ _ why) (by simp)
  | peek | readLocal => exact iff_of_false (map_read_ne_error _ _ why) (by simp)

end StackRequest

/-- Requests to the stack of a context, one after the other and none of them with a fault. Every frame
that was issued may be ended, in any order and again; `written` lists the positions at which values were
put. -/
inductive StackRuns : List Frame → Context → (written : List Nat) → List Frame → Context → Prop
  | done (issued : List Frame) (c : Context) : StackRuns issued c [] issued c
  | refused {issued issued' : List Frame} {a b c : Context} {written : List Nat} {e : RuntimeError}
      (request : StackRequest) : request.Holds issued → request.action.run.run.run a = .ok (.error e, b) →
      StackRuns issued b written issued' c → StackRuns issued a written issued' c
  | granted {issued issued' : List Frame} {a b c : Context} {written : List Nat} {answer : Answer}
      (request : StackRequest) : request.Holds issued → request.action.run.run.run a = .ok (.ok answer, b) →
      StackRuns (answer.frames ++ issued) b written issued' c →
      StackRuns issued a (request.written a.stack ++ written) issued' c

namespace StackRuns

variable {capacity : Nat} {issued issued' : List Frame} {a c : Context} {written : List Nat}

theorem disciplined (h : StackRuns issued a written issued' c)
    (hd : a.stack.Disciplined capacity issued) : c.stack.Disciplined capacity issued' := by
  induction h with
  | done => exact hd
  | refused request hholds hrun _ ih =>
    rcases request.step hd hholds hrun with ⟨_, _, rfl⟩ | ⟨answer, hr, _⟩
    · exact ih hd
    · simp at hr
  | granted request hholds hrun _ ih =>
    rcases request.step hd hholds hrun with ⟨_, hr, _⟩ | ⟨answer, hr, _, hd'⟩
    · simp at hr
    · obtain rfl := Except.ok.inj hr
      exact ih hd'

/-- A slot without a value has none until one is put there. -/
theorem blank (h : StackRuns issued a written issued' c) (hd : a.stack.Disciplined capacity issued)
    {i : Nat} (hi : i ∉ written) (hblank : a.stack.slot i = .undefined) : c.stack.slot i = .undefined := by
  induction h with
  | done => exact hblank
  | refused request hholds hrun _ ih =>
    rcases request.step hd hholds hrun with ⟨_, _, rfl⟩ | ⟨answer, hr, _⟩
    · exact ih hd hi hblank
    · simp at hr
  | granted request hholds hrun _ ih =>
    rcases request.step hd hholds hrun with ⟨_, hr, _⟩ | ⟨answer, hr, hgrants, hd'⟩
    · simp at hr
    · obtain rfl := Except.ok.inj hr
      rw [List.mem_append, not_or] at hi
      exact ih hd' hi.2 (hgrants.blank i hi.1 hblank)

end StackRuns

/-- A value stack of any capacity keeps its discipline through every sequence of requests, with the
frames it has issued ended in any order and again. The current frame begins at or below the top and the
top is within the capacity; there is nothing above it. A request that is refused changes nothing, any
other touches existing slots only and makes the slots in use from those in use before, so that reserved
slots are undefined until a value is put there. The only fault is to end a frame that began above the
present top. -/
theorem stack_keeps_discipline {capacity : Nat} {start ctx : Context} {written : List Nat}
    {issued : List Frame} (hstart : start.stack = .ofCapacity capacity)
    (hrun : StackRuns [] start written issued ctx) :
    ctx.stack.capacity = capacity ∧ ctx.stack.base ≤ ctx.stack.top ∧ ctx.stack.top ≤ capacity ∧
      (∀ i, ctx.stack.top ≤ i → ctx.stack.slot i = .undefined) ∧
      (∀ request : StackRequest, request.Holds issued →
        (∀ e c, request.action.run.run.run ctx = .ok (.error e, c) → c = ctx) ∧
        (∀ answer c, request.action.run.run.run ctx = .ok (.ok answer, c) →
          ctx.stack.Grants request answer c.stack) ∧
        ∀ why, request.action.run.run.run ctx = .error why ↔
          why = .framesOutOfOrder ∧ ∃ frame, request = .popFrame frame ∧ ctx.stack.top < frame.top) ∧
      ∀ count answer c, (StackRequest.reserve count).action.run.run.run ctx = .ok (.ok answer, c) →
        ∀ written' issued' d, StackRuns issued c written' issued' d →
          ∀ i, ctx.stack.top ≤ i → i ∉ written' → d.stack.slot i = .undefined := by
  have hd : ctx.stack.Disciplined capacity issued :=
    hrun.disciplined (hstart ▸ ValueStack.disciplined_ofCapacity capacity)
  have hcapacity : ctx.stack.capacity = capacity := by
    rw [hd.supports.capacity_eq]
    simp [ValueStack.capacity, ValueStack.ofCapacity]
  have habove := hd.supports.tidy.above
  refine ⟨hcapacity, hd.supports.base_le, hcapacity ▸ hd.supports.tidy.top_le, habove, ?_, ?_⟩
  · intro request hholds
    refine ⟨fun e c hrun => ?_, fun answer c hrun => ?_, fun why => StackRequest.run_eq_error⟩
    · rcases request.step hd hholds hrun with ⟨_, _, hc⟩ | ⟨answer, hr, _⟩
      · exact hc
      · simp at hr
    · rcases request.step hd hholds hrun with ⟨_, hr, _⟩ | ⟨answer, hr, hgrants, _⟩
      · simp at hr
      · exact Except.ok.inj hr ▸ hgrants
  · intro count answer c hreserve written' issued' d hlater i hi hwritten
    have hholds : (StackRequest.reserve count).Holds issued := fun frame he => by simp at he
    rcases StackRequest.step hd hholds hreserve with ⟨_, hr, _⟩ | ⟨_, hr, hgrants, hd'⟩
    · simp at hr
    · have hblank := hgrants.blank i (by simp [StackRequest.written]) (habove i hi)
      exact hlater.blank ⟨hd'.supports, hd.frames⟩ hwritten hblank

/-- A frame is ended before the one that began inside it. That one is ended later, once the stack has
grown past its start again; then the first is ended once more, after which the other is out of order. -/
theorem stack_keeps_discipline_stale_frames :
    ∃ start ctx c, start.stack = .ofCapacity 4 ∧
      StackRuns [] start [0, 2, 1] [⟨1, 2⟩, ⟨0, 1⟩] ctx ∧ ctx.stack.live = [.integer 1] ∧
      (∀ i, 1 ≤ i → ctx.stack.slot i = .undefined) ∧
      (StackRequest.reserve 3).action.run.run.run ctx = .ok (.ok .nothing, c) ∧
      c.stack.live = [.integer 1, .undefined, .undefined, .undefined] ∧
      (StackRequest.popFrame ⟨1, 2⟩).action.run.run.run ctx = .error .framesOutOfOrder := by
  have hholds : ∀ frame ∈ [(⟨1, 2⟩ : Frame), ⟨0, 1⟩],
      (StackRequest.popFrame frame).Holds [⟨1, 2⟩, ⟨0, 1⟩] := by
    rintro _ hframe _ ⟨⟩
    exact hframe
  have hrun : StackRuns [] _ [0, 2, 1] [⟨1, 2⟩, ⟨0, 1⟩] _ :=
    .granted (a := { config := {}, heap := { arena := ⟨0, 0, 0, #[]⟩ }, stack := .ofCapacity 4 })
      (.push (.integer 1)) (by simp [StackRequest.Holds]) rfl <|
    .granted .pushFrame (by simp [StackRequest.Holds]) rfl <|
    .granted (.reserve 1) (by simp [StackRequest.Holds]) rfl <|
    .granted .pushFrame (by simp [StackRequest.Holds]) rfl <|
    .granted (.push (.integer 9)) (by simp [StackRequest.Holds]) rfl <|
    .granted (.popFrame ⟨0, 1⟩) (hholds _ (by simp)) rfl <|
    .granted (.reserve 2) (by simp [StackRequest.Holds]) rfl <|
    .granted (.popFrame ⟨1, 2⟩) (hholds _ (by simp)) rfl <|
    .granted (.writeLocal 0 (.integer 7)) (by simp [StackRequest.Holds]) rfl <|
    .granted (.popFrame ⟨0, 1⟩) (hholds _ (by simp)) rfl (.done _ _)
  obtain ⟨_, _, _, habove, hrequest, _⟩ := stack_keeps_discipline rfl hrun
  obtain ⟨_, _, hfault⟩ := hrequest (.popFrame ⟨1, 2⟩) (hholds _ (by simp))
  exact ⟨_, _, _, rfl, hrun, by cbv, habove, rfl, by cbv, (hfault _).mpr ⟨rfl, _, rfl, by decide⟩⟩

end GenerationalHeap
