import GenerationalHeap.Proofs.LockstepOperations
import GenerationalHeap.Session.Run

namespace GenerationalHeap

/-- Operations whose results do not depend on when collections ran, where blocks lie or which handles
were used. -/
def Action.oblivious {o : Operands} : Action o → Bool
  | .collect | .checkpoint | .lastCollection | .collectInfo | .totals | .config | .arena
  | .allocation _ | .describe _ | .capture _ | .captureCount => false
  | _ => true

section Relations

variable (R : Handle → Handle → Prop)

/-- The answers are the same but for paired handles. -/
inductive Answer.Matches : Answer → Answer → Prop
  | nothing : Matches .nothing .nothing
  | outOfRange : Matches .outOfRange .outOfRange
  | node {a b : Node} : a.Matches R b → Matches (.node a) (.node b)
  | nodes {a b : List Node} : List.Forall₂ (Node.Matches R) a b → Matches (.nodes a) (.nodes b)
  | handle {a b : Handle} : R a b → Matches (.handle a) (.handle b)
  | frame (frame : Frame) : Matches (.frame frame) (.frame frame)
  | root (id : RootId) : Matches (.root id) (.root id)
  | truth (value : Bool) : Matches (.truth value) (.truth value)
  | count (count : Nat) : Matches (.count count) (.count count)
  | text (text : String) : Matches (.text text) (.text text)
  | bytes (data : Array UInt8) : Matches (.bytes data) (.bytes data)
  | slice (total : Nat) (data : Array UInt8) : Matches (.slice total data) (.slice total data)
  | inspection {a b : Node} : a.Matches R b → Matches (.inspection a) (.inspection b)

/-- The outcomes are the same but for paired handles. -/
inductive Outcome.Matches : Outcome → Outcome → Prop
  | answered {a b : Answer} : a.Matches R b → Matches (.answered a) (.answered b)
  | failed {e f : RuntimeError} : e.Matches R f → Matches (.failed e) (.failed f)
  | refused (why : Refusal) : Matches (.refused why) (.refused why)

inductive Binding.Matches : Binding → Binding → Prop
  | node {a b : Node} : a.Matches R b → Matches (.node a) (.node b)
  | handle {a b : Handle} : R a b → Matches (.handle a) (.handle b)
  | frame (frame : Frame) : Matches (.frame frame) (.frame frame)
  | root (id : RootId) : Matches (.root id) (.root id)

/-- The same names stand for the same things but for paired handles. -/
structure Env.Matches (env env' : Env) : Prop where
  bindings : List.Forall₂ (fun p q => p.1 = q.1 ∧ Binding.Matches R p.2 q.2) env.bindings env'.bindings
  round : env.round = env'.round

end Relations

/-- Both lookups succeed with related results, or both are refused for one reason. -/
inductive Lookup {α β : Type} (P : α → β → Prop) : Except Refusal α → Except Refusal β → Prop
  | ok {a : α} {b : β} : P a b → Lookup P (.ok a) (.ok b)
  | error (why : Refusal) : Lookup P (.error why) (.error why)

section Lookup

variable {α β γ δ : Type} {P : α → β → Prop} {Q : γ → δ → Prop} {x : Except Refusal α}
  {y : Except Refusal β}

theorem Lookup.bind {f : α → Except Refusal γ} {g : β → Except Refusal δ} (h : Lookup P x y)
    (hfg : ∀ a b, P a b → Lookup Q (f a) (g b)) : Lookup Q (x >>= f) (y >>= g) := by
  cases h with
  | ok hab => exact hfg _ _ hab
  | error why => exact .error why

theorem Lookup.bind_eq {x y : Except Refusal α} {f : α → Except Refusal γ} {g : α → Except Refusal δ}
    (h : Lookup (fun a b => a = b) x y) (hfg : ∀ a, Lookup Q (f a) (g a)) :
    Lookup Q (x >>= f) (y >>= g) := by
  apply h.bind
  intro a b hab
  subst hab
  exact hfg a

theorem Lookup.map {f : α → γ} {g : β → δ} (h : Lookup P x y) (hfg : ∀ a b, P a b → Q (f a) (g b)) :
    Lookup Q (f <$> x) (g <$> y) := by
  cases h with
  | ok hab => exact .ok (hfg _ _ hab)
  | error why => exact .error why

theorem lookup_same (x : Except Refusal α) : Lookup (fun a b => a = b) x x := by
  cases x with
  | ok a => exact .ok rfl
  | error why => exact .error why

end Lookup

variable {R : Handle → Handle → Prop}

theorem Binding.Matches.toHandle {b b' : Binding} (h : b.Matches R b') :
    Lookup R b.toHandle b'.toHandle := by
  cases h with
  | @node a b hn =>
    have hr := hn.references
    revert hr
    simp only [Binding.toHandle]
    generalize a.references = l, b.references = l'
    intro hr
    cases hr with
    | nil => exact .error _
    | cons hh _ => exact .ok hh
  | handle h => exact .ok h
  | frame => exact .error _
  | root => exact .error _

theorem Binding.Matches.toNode {b b' : Binding} (h : b.Matches R b') :
    Lookup (Node.Matches R) b.toNode b'.toNode := by
  cases h with
  | node hn => exact .ok hn
  | handle h => exact .ok (.pointer (.some h))
  | frame => exact .error _
  | root => exact .error _

theorem Binding.Matches.toFrame {b b' : Binding} (h : b.Matches R b') :
    Lookup (fun f f' => f = f') b.toFrame b'.toFrame := by
  cases h <;> exact lookup_same _

theorem Binding.Matches.toRoot {b b' : Binding} (h : b.Matches R b') :
    Lookup (fun id id' => id = id') b.toRoot b'.toRoot := by
  cases h <;> exact lookup_same _

section Bindings

variable {l l' : List (String × Binding)}
  (h : List.Forall₂ (fun p q => p.1 = q.1 ∧ Binding.Matches R p.2 q.2) l l')

include h

theorem lookup_rel (name : String) : Option.Rel (Binding.Matches R) (l.lookup name) (l'.lookup name) := by
  induction h with
  | nil => exact .none
  | @cons p q l l' hpq _ ih =>
    obtain ⟨key, b⟩ := p
    obtain ⟨_, b'⟩ := q
    obtain ⟨rfl, hbb⟩ := hpq
    rw [List.lookup_cons, List.lookup_cons]
    cases name == key with
    | true => exact .some hbb
    | false => exact ih

theorem forall₂_filter_ne (name : String) :
    List.Forall₂ (fun p q => p.1 = q.1 ∧ Binding.Matches R p.2 q.2) (l.filter (·.1 != name))
      (l'.filter (·.1 != name)) := by
  induction h with
  | nil => exact .nil
  | @cons p q l l' hpq _ ih =>
    rw [List.filter_cons, List.filter_cons, ← hpq.1]
    split
    · exact .cons hpq ih
    · exact ih

end Bindings

namespace Env.Matches

variable {env env' : Env} (h : env.Matches R env')

include h

theorem find? (name : String) : Option.Rel (Binding.Matches R) (env.find? name) (env'.find? name) :=
  lookup_rel h.bindings name

theorem bind (name : String) {b b' : Binding} (hb : b.Matches R b') :
    (env.bind name b).Matches R (env'.bind name b') :=
  ⟨.cons ⟨rfl, hb⟩ (forall₂_filter_ne h.bindings name), h.round⟩

theorem get {α β : Type} {P : α → β → Prop} {reading : Binding → Except Refusal α}
    {reading' : Binding → Except Refusal β}
    (hr : ∀ b b', Binding.Matches R b b' → Lookup P (reading b) (reading' b')) (name : String) :
    Lookup P (env.get reading name) (env'.get reading' name) := by
  have hf := h.find? name
  unfold Env.get
  revert hf
  cases env.find? name <;> cases env'.find? name <;> intro hf <;> cases hf
  · exact .error _
  · exact hr _ _ ‹_›

theorem getHandle (name : String) : Lookup R (env.getHandle name) (env'.getHandle name) :=
  h.get (fun _ _ hb => hb.toHandle) name

theorem getOptional (name : Option String) :
    Lookup (Option.Rel R) (env.getOptional name) (env'.getOptional name) := by
  cases name with
  | none => exact .ok .none
  | some name => exact (h.getHandle name).map fun _ _ hh => .some hh

theorem count_eq : CountExpr.eval env = CountExpr.eval env' := by
  funext count
  cases count <;> simp [CountExpr.eval, h.round]

theorem count (count : CountExpr) :
    Lookup (fun n n' => n = n') (count.eval env) (count.eval env') := by
  rw [h.count_eq]
  exact lookup_same _

theorem head (head : HeadExpr) : Lookup (Head.Matches R) (head.eval env) (head.eval env') := by
  cases head with
  | boxed box => exact (h.getHandle box).map fun _ _ hh => .boxed hh
  | scalar value => exact .ok (.scalar value)

theorem node (node : NodeExpr) : Lookup (Node.Matches R) (node.eval env) (node.eval env') := by
  cases node with
  | named name => exact h.get (fun _ _ hb => hb.toNode) name
  | round =>
    unfold NodeExpr.eval
    rw [h.round]
    exact .ok (.scalar _)
  | undefined => exact .ok .undefined
  | pointer target => exact (h.getOptional target).map fun _ _ ht => .pointer ht
  | scalar value => exact .ok (.scalar value)
  | string length bytes =>
    refine (h.count length).bind_eq fun n => ?_
    exact (h.getHandle bytes).bind fun _ _ hh => .ok (.string n hh)
  | closure flavour code captures =>
    exact (h.getHandle captures).map fun _ _ hh => .closure flavour code hh
  | cell head next =>
    refine (h.head head).bind fun _ _ hh => ?_
    exact (h.getOptional next).bind fun _ _ hn => .ok (.cell hh hn)

end Env.Matches

namespace Mutator

variable {L L' : List Handle} {c c' : Context}

theorem Coupled.silently {m m' : Mutator Unit} {P : Unit → Unit → Context → Context → Prop}
    (hm : Coupled L L' c c' m m' P) : Coupled L L' c c' (Mutator.silently m) (Mutator.silently m')
      fun a b _ _ => a.Matches (Twin L L') b :=
  hm.bind fun _ _ _ _ hd _ => coupled_pure hd .nothing

theorem getObject_eq (x : Handle) (index : Nat) :
    getObject x index = (fun nodes : Array Node => nodes[index]?.elim .outOfRange .node) <$> objects x := by
  rw [getObject, ← bind_pure_comp]
  congr
  funext nodes
  cases nodes[index]? <;> rfl

theorem getBytes_eq (x : Handle) (start length : Option Nat) :
    getBytes x start length = (fun data : Array UInt8 =>
      (slice? data (start.getD 0) length).elim .outOfRange (.slice data.size)) <$> bytes x := by
  rw [getBytes, ← bind_pure_comp]
  congr
  funext data
  cases slice? data (start.getD 0) length <;> rfl

/-- The answer is a value of the program. -/
theorem Coupled.node {m m' : Mutator Node} (hm : Coupled L L' c c' m m' fun a b _ _ =>
    a.Matches (Twin L L') b) : Coupled L L' c c' (Answer.node <$> m) (Answer.node <$> m')
      fun a b _ _ => a.Matches (Twin L L') b :=
  hm.map _ _ fun _ _ _ _ hab => .node hab

variable (hR : OneToOne (Twin L L')) (h : Linked (Twin L L') c c')

include h

theorem coupled_readNode (ask : Context → Except RuntimeError Node)
    (ask' : Context → Except RuntimeError Node)
    (hask : Agree (Twin L L') (Node.Matches (Twin L L')) (ask c) (ask' c')) :
    Coupled L L' c c' (Answer.node <$> read ask) (Answer.node <$> read ask')
      fun a b _ _ => a.Matches (Twin L L') b :=
  ((coupled_read h ask ask' hask).mono fun _ _ _ _ hab => hab.1).node

theorem coupled_getObject {x x' : Handle} (htwin : Twin L L' x x') (index : Nat) :
    Coupled L L' c c' (getObject x index) (getObject x' index)
      fun a b _ _ => a.Matches (Twin L L') b := by
  rw [getObject_eq, getObject_eq]
  refine (coupled_read h _ _ (h.heap.objects htwin)).map _ _ fun nodes nodes' _ _ hnodes => ?_
  have hi := hnodes.1 index
  revert hi
  cases nodes[index]? <;> cases nodes'[index]? <;> intro hi <;> cases hi
  · exact .outOfRange
  · exact .node ‹_›

theorem coupled_getBytes {x x' : Handle} (htwin : Twin L L' x x') (start length : Option Nat) :
    Coupled L L' c c' (getBytes x start length) (getBytes x' start length)
      fun a b _ _ => a.Matches (Twin L L') b := by
  rw [getBytes_eq, getBytes_eq]
  refine (coupled_read h _ _ (h.heap.bytes htwin)).map _ _ ?_
  intro data _ _ _ hread
  obtain ⟨rfl, _⟩ := hread
  cases slice? data (start.getD 0) length with
  | none => exact .outOfRange
  | some part => exact .slice _ part

include hR

theorem coupled_setObject {x x' : Handle} (htwin : Twin L L' x x') (index : Nat) {a b : Node}
    (hab : a.Matches (Twin L L') b) :
    Coupled L L' c c' (setObject x index a) (setObject x' index b)
      fun a b _ _ => a.Matches (Twin L L') b := by
  refine (coupled_read h _ _ (h.heap.objects htwin)).bind ?_
  intro nodes nodes' d d' hd hread
  obtain ⟨hnodes, _⟩ := hread
  rw [← hnodes.size_eq]
  by_cases hi : index < nodes.size
  · rw [if_pos hi, if_pos hi]
    refine (coupled_modifyObjects hR hd htwin _ _ fun _ _ _ _ hn => ?_).silently
    exact ⟨by simp, by simp, hn.set index hab⟩
  · rw [if_neg hi, if_neg hi]
    exact coupled_pure hd .outOfRange

theorem coupled_setBytes {x x' : Handle} (htwin : Twin L L' x x') (start : Nat) (patch : Array UInt8) :
    Coupled L L' c c' (setBytes x start patch) (setBytes x' start patch)
      fun a b _ _ => a.Matches (Twin L L') b := by
  refine (coupled_read h _ _ (h.heap.bytes htwin)).bind ?_
  intro data _ _ _ hd hread
  obtain ⟨rfl, ⟨rfl, rfl⟩, hdata, _⟩ := hread
  by_cases hle : start + patch.size ≤ data.size
  · rw [if_pos hle, if_pos hle]
    refine (coupled_modifyBytes hR hd htwin _ fun data' hp => ?_).silently
    rw [Heap.bytes_eq_ok.mp hdata] at hp
    obtain rfl := Payload.bytes.inj (Option.some.inj hp)
    exact size_overwrite data patch start hle
  · rw [if_neg hle, if_neg hle]
    exact coupled_pure hd .outOfRange

end Mutator

open Mutator in
/-- Looked up in corresponding environments, an operation is refused on both sides or runs in
lockstep. -/
theorem Action.resolve_coupled {L L' : List Handle} {c c' : Context} {env env' : Env}
    (hR : OneToOne (Twin L L')) (h : Linked (Twin L L') c c') (he : env.Matches (Twin L L') env')
    (action : Action Operands.written) (ho : action.oblivious = true) :
    Lookup (fun a b => Coupled L L' c c' a.run b.run fun x y _ _ => x.Matches (Twin L L') y)
      (action.resolve env) (action.resolve env') := by
  cases action with
  | push node => exact (he.node node).bind fun a b hab => .ok (coupled_push h hab).silently
  | pop => exact .ok (coupled_onStack h _ _ h.stack.pop).node
  | peek => exact .ok (coupled_readNode h _ _ h.stack.peek)
  | readLocal index =>
    refine (he.count index).bind_eq fun i => ?_
    exact .ok (coupled_readNode h _ _ (h.stack.readLocal i))
  | writeLocal index node =>
    refine (he.count index).bind_eq fun i => ?_
    exact (he.node node).bind fun a b hab =>
      .ok (coupled_updateStack h _ _ (h.stack.writeLocal i hab)).silently
  | reserve count =>
    refine (he.count count).bind_eq fun n => ?_
    exact .ok (coupled_updateStack h _ _ (h.stack.reserve n)).silently
  | drop count =>
    refine (he.count count).bind_eq fun n => ?_
    exact .ok (coupled_updateStack h _ _ (h.stack.drop n)).silently
  | pushFrame =>
    apply Lookup.ok
    apply (coupled_pushFrame h).map
    intro f _ _ _ hf
    subst hf
    exact .frame f
  | popFrame frame =>
    refine (he.get (fun _ _ hb => hb.toFrame) frame).bind_eq fun f => ?_
    exact .ok (coupled_popFrame h f).silently
  | allocateBytes count | allocateObjects count =>
    refine (he.count count).bind_eq fun n => ?_
    exact .ok ((coupled_allocate hR h _ n).map _ _ fun _ _ _ _ hnew => .handle hnew.1)
  | objects x =>
    refine (he.getHandle x).bind fun y y' hy => .ok ?_
    exact (coupled_read h _ _ (h.heap.objects hy)).map _ _ fun _ _ _ _ hn => .nodes hn.1.forall₂
  | getObject x index =>
    refine (he.getHandle x).bind fun y y' hy => (he.count index).bind_eq fun i => ?_
    exact .ok (coupled_getObject h hy i)
  | setObject x index node =>
    refine (he.getHandle x).bind fun y y' hy => (he.count index).bind_eq fun i => ?_
    exact (he.node node).bind fun a b hab => .ok (coupled_setObject hR h hy i hab)
  | bytes x start length =>
    refine (he.getHandle x).bind fun y y' hy => ?_
    rw [he.count_eq]
    refine (lookup_same _).bind_eq fun i => ?_
    refine (lookup_same _).bind_eq fun n => ?_
    exact .ok (coupled_getBytes h hy i n)
  | setBytes x start data =>
    refine (he.getHandle x).bind fun y y' hy => (he.count start).bind_eq fun i => ?_
    exact .ok (coupled_setBytes hR h hy i data)
  | registerRoot node =>
    refine (he.node node).bind fun a b hab => .ok ?_
    apply (coupled_registerRoot h hab).map
    intro id _ _ _ hid
    subst hid
    exact .root id
  | unregisterRoot root =>
    refine (he.get (fun _ _ hb => hb.toRoot) root).bind_eq fun id => ?_
    exact .ok (coupled_unregisterRoot h id).node
  | setRoot root node =>
    refine (he.get (fun _ _ hb => hb.toRoot) root).bind_eq fun id => ?_
    exact (he.node node).bind fun a b hab => .ok (coupled_setRoot h id hab).silently
  | getRoot root =>
    refine (he.get (fun _ _ hb => hb.toRoot) root).bind_eq fun id => ?_
    exact .ok (coupled_readNode h _ _ (h.roots.get id))
  | makeCaptures slots =>
    unfold resolve
    rw [he.count_eq]
    refine (lookup_same _).bind_eq fun indices => ?_
    exact .ok ((coupled_makeCaptures hR h indices).map _ _ fun _ _ _ _ htwin => .handle htwin)
  | makeClosure flavour code slots =>
    unfold resolve
    rw [he.count_eq]
    refine (lookup_same _).bind_eq fun indices => ?_
    refine .ok (Coupled.node ?_)
    exact (coupled_makeCaptures hR h indices).bind fun _ _ _ _ hd htwin =>
      coupled_pure hd (.closure flavour code htwin)
  | value node => exact (he.node node).bind fun a b hab => .ok (coupled_pure h (.node hab))
  | inspect node => exact (he.node node).bind fun a b hab => .ok (coupled_pure h (.inspection hab))
  | same a b =>
    refine (he.node a).bind fun x x' hfirst => (he.node b).bind fun y y' hsecond => .ok (coupled_pure h ?_)
    rw [hfirst.same_eq hR hsecond]
    exact .truth _
  | isA node kind =>
    refine (he.node node).bind fun a b hab => .ok (coupled_pure h ?_)
    rw [hab.kind_eq]
    exact .node (.scalar _)
  | newString text times =>
    refine (he.count times).bind_eq fun n => ?_
    exact .ok (coupled_newString hR h _).node
  | stringBytes node =>
    refine (he.node node).bind fun a b hab => .ok ?_
    apply (coupled_read h _ _ (h.heap.stringBytes hab)).map
    intro data _ _ _ hd
    obtain ⟨rfl, _⟩ := hd
    exact .bytes data
  | stringText node =>
    refine (he.node node).bind fun a b hab => .ok ?_
    apply (coupled_read h _ _ (h.heap.stringText hab)).map
    intro text _ _ _ ht
    obtain ⟨rfl, _⟩ := ht
    exact .text text
  | toText node => exact (he.node node).bind fun a b hab => .ok (coupled_toText hR h hab).node
  | boxValue node =>
    refine (he.node node).bind fun a b hab => .ok (Coupled.node ?_)
    exact (coupled_allocateBox hR h hab).bind fun _ _ _ _ hd htwin => coupled_pure hd (.pointer (.some htwin))
  | unbox node =>
    exact (he.node node).bind fun a b hab => .ok (coupled_readNode h _ _ (h.heap.unbox hab))
  | emptyList => exact .ok (coupled_pure h (.node (.pointer .none)))
  | append list item =>
    exact (he.node list).bind fun a b hab => (he.node item).bind fun x y hxy =>
      .ok (coupled_append hR h hab hxy).node
  | car list => exact (he.node list).bind fun a b hab => .ok (coupled_readNode h _ _ (h.heap.car hab))
  | cdr list => exact (he.node list).bind fun a b hab => .ok (coupled_readNode h _ _ (h.heap.cdr hab))
  | listElements list =>
    refine (he.node list).bind fun a b hab => .ok ?_
    exact (coupled_readChain h _ _ (h.heap.listElements hab)).map _ _ fun _ _ _ _ hl => .nodes hl
  | listLength list =>
    refine (he.node list).bind fun a b hab => .ok ?_
    apply (coupled_readChain h _ _ (h.heap.listLength hab)).map
    intro n _ _ _ hn
    subst hn
    exact .count n
  | collect | checkpoint | lastCollection | collectInfo | totals | config | arena | allocation
  | describe | capture | captureCount => simp [oblivious] at ho

end GenerationalHeap
