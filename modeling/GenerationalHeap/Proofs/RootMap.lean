import GenerationalHeap.Proofs.Composition
import GenerationalHeap.Proofs.History

namespace GenerationalHeap

namespace RootRegistry

variable (r : RootRegistry)

def versionOf (i : Nat) : Nat := (r.entries[i]?.map (·.version)).getD firstVersion

/-- Whether no entry that was there has a lower version than before. -/
def ages (r r' : RootRegistry) : Bool :=
  (List.range r.entries.size).all fun i => r.versionOf i ≤ r'.versionOf i

theorem getElem?_setIfInBounds_of_some {entries : Array RootEntry} {i : Nat} {old : RootEntry}
    (hold : entries[i]? = some old) (new : RootEntry) (j : Nat) :
    (entries.setIfInBounds i new)[j]? = if j = i then some new else entries[j]? := by
  have hlt : i < entries.size := (Array.getElem?_eq_some_iff.mp hold).1
  rw [Array.getElem?_setIfInBounds]
  by_cases hj : j = i
  · simp [hj, hlt]
  · simp [hj, Ne.symm hj]

/-- The ids under which values are registered, in order of their entries. -/
def ids : List RootId :=
  r.entries.toList.zipIdx.filterMap fun p => p.1.value.map fun _ => ⟨p.2, p.1.version⟩

theorem mem_ids (id : RootId) : id ∈ r.ids ↔ (r.find? id).isSome = true := by
  simp only [ids, List.mem_filterMap, Option.isSome_iff_exists, r.find?_eq_some, Option.map_eq_some_iff]
  constructor
  · intro hmem
    obtain ⟨⟨entry, i⟩, hmem, node, hvalue, rfl⟩ := hmem
    have hget : r.entries[i]? = some entry := by
      simpa using List.mem_zipIdx_iff_getElem?.mp hmem
    refine ⟨node, hget.trans ?_⟩
    rw [← hvalue]
  · intro hregistered
    obtain ⟨node, hget⟩ := hregistered
    refine ⟨(⟨id.version, some node⟩, id.index), ?_, node, rfl, rfl⟩
    simpa using List.mem_zipIdx_iff_getElem?.mpr (by simpa using hget)

theorem ids_pairwise : r.ids.Pairwise fun a b => a.index < b.index := by
  have hindex : (r.entries.toList.zipIdx).Pairwise fun p q => p.2 < q.2 := by
    have h := List.pairwise_lt_range' (s := 0) (n := r.entries.toList.length)
    rw [← List.zipIdx_map_snd, List.pairwise_map] at h
    exact h
  refine List.Pairwise.filterMap _ ?_ hindex
  intro p q hlt a ha b hb
  obtain ⟨_, _, rfl⟩ := Option.map_eq_some_iff.mp ha
  obtain ⟨_, _, rfl⟩ := Option.map_eq_some_iff.mp hb
  exact hlt

/-- The values in order are those under the ids in order. -/
theorem map_find?_ids : r.ids.map r.find? = r.values.map some := by
  have hentry : ∀ p ∈ r.entries.toList.zipIdx,
      (p.1.value.map fun _ => (⟨p.2, p.1.version⟩ : RootId)).map r.find? = p.1.value.map some := by
    intro p hp
    have hget : r.entries[p.2]? = some p.1 := by simpa using List.mem_zipIdx_iff_getElem?.mp hp
    cases hvalue : p.1.value with
    | none => rfl
    | some node => simp [find?, hget, hvalue]
  unfold ids values
  rw [List.map_filterMap, List.map_filterMap, List.filterMap_congr hentry]
  calc r.entries.toList.zipIdx.filterMap (fun p => p.1.value.map some)
      = (r.entries.toList.zipIdx.map Prod.fst).filterMap (fun entry => entry.value.map some) := by
        rw [List.filterMap_map]
        rfl
    _ = r.entries.toList.filterMap (fun entry => entry.value.map some) := by
        rw [List.zipIdx_map_fst]

/-- Registering fills one entry: the first vacant one, or a new one if none is vacant. -/
theorem register_eq (hvacant : ∀ i ∈ r.free, ∃ v, r.entries[i]? = some ⟨v, none⟩) {node : Node}
    {id : RootId} {r' : RootRegistry} (hregister : r.register node = (id, r')) :
    (∀ j, r'.entries[j]? = if j = id.index then some ⟨id.version, some node⟩ else r.entries[j]?) ∧
      (r.entries[id.index]? = none ∧ r.free = [] ∧ r'.free = [] ∨
        r.entries[id.index]? = some ⟨id.version, none⟩ ∧ r.free = id.index :: r'.free) := by
  unfold register at hregister
  cases hfree : r.free with
  | nil =>
    rw [hfree] at hregister
    obtain ⟨rfl, rfl⟩ := Prod.mk.inj hregister
    exact ⟨fun j => Array.getElem?_push, .inl ⟨by simp, rfl, rfl⟩⟩
  | cons i free =>
    obtain ⟨v, hv⟩ := hvacant i (by simp [hfree])
    simp only [hfree, hv, Option.map_some, Option.getD_some, Prod.mk.injEq] at hregister
    obtain ⟨rfl, rfl⟩ := hregister
    refine ⟨fun j => ?_, .inr ⟨hv, rfl⟩⟩
    exact getElem?_setIfInBounds_of_some hv _ j

end RootRegistry

/-- Values under ids, and all ids that were ever issued. -/
structure RootMap where
  value? : RootId → Option Node := fun _ => none
  issued : List RootId := []

/-- The id that an action uses. -/
def Action.rootId? : Action Operands.resolved → Option RootId
  | .unregisterRoot id | .setRoot id _ | .getRoot id => some id
  | _ => none

/-- Whether an action is a request to the registry. -/
def Action.onRoots : Action Operands.resolved → Bool
  | .registerRoot _ | .unregisterRoot _ | .setRoot _ _ | .getRoot _ => true
  | _ => false

namespace RootMap

/-- Puts a value under an id, or takes away what is there. -/
def put (m : RootMap) (id : RootId) (value : Option Node) : RootMap :=
  { m with value? := fun id' => if id' = id then value else m.value? id' }

/-- What a map answers to an action and the map it leaves. A new id is none of those issued before; an id
under which there is nothing is unknown; all other actions leave the map alone. -/
inductive Answers (m : RootMap) : Action Operands.resolved → Except RuntimeError Answer → RootMap → Prop
  | register {id : RootId} (node : Node) : id ∉ m.issued → Answers m (.registerRoot node) (.ok (.root id))
      { m.put id (some node) with issued := id :: m.issued }
  | unregister {id : RootId} {node : Node} : m.value? id = some node →
      Answers m (.unregisterRoot id) (.ok (.node node)) (m.put id none)
  | set {id : RootId} {old : Node} (node : Node) : m.value? id = some old →
      Answers m (.setRoot id node) (.ok .nothing) (m.put id (some node))
  | get {id : RootId} {node : Node} : m.value? id = some node →
      Answers m (.getRoot id) (.ok (.node node)) m
  | unknown {action : Action Operands.resolved} {id : RootId} : action.rootId? = some id →
      m.value? id = none → Answers m action (.error (.unknownRoot id.index)) m
  | other {action : Action Operands.resolved} {answer : Except RuntimeError Answer} :
      action.onRoots = false → Answers m action answer m

/-- A registry holds the values of a map under the same ids. Its vacant entries are the free ones, and
no entry has the version of an id that was issued before its present use. -/
structure Represents (m : RootMap) (r : RootRegistry) : Prop where
  find? : ∀ id, r.find? id = m.value? id
  free_nodup : r.free.Nodup
  mem_free : ∀ i, i ∈ r.free ↔ ∃ v, r.entries[i]? = some ⟨v, none⟩
  issued : ∀ id ∈ m.issued, ∃ entry, r.entries[id.index]? = some entry ∧ id.version ≤ entry.version ∧
    (entry.value = none → id.version < entry.version)

theorem represents_empty : ({} : RootMap).Represents {} := by
  constructor
  · intro id
    rfl
  · exact List.nodup_nil
  · intro i
    simp
  · intro id hid
    simp at hid

variable {m : RootMap} {r r' : RootRegistry} {id : RootId}

/-- One entry has changed: it is vacant now, or holds a value under the id. -/
theorem Represents.entry (h : m.Represents r) {v : Nat} {x : Option Node} {issued : List RootId}
    (hentries : ∀ j, r'.entries[j]? = if j = id.index then some ⟨v, x⟩ else r.entries[j]?)
    (hothers : ∀ id', id'.index = id.index → id' ≠ id → m.value? id' = none)
    (hage : x = none ∨ v = id.version)
    (hnodup : r'.free.Nodup) (hfree : ∀ i, i ∈ r'.free ↔ if i = id.index then x = none else i ∈ r.free)
    (hold : ∀ id' ∈ issued, id'.index ≠ id.index → id' ∈ m.issued)
    (hissued : ∀ id' ∈ issued, id'.index = id.index → id'.version ≤ v ∧ (x = none → id'.version < v)) :
    Represents { m.put id x with issued } r' := by
  refine ⟨?_, hnodup, ?_, ?_⟩
  · intro id'
    have hfind := h.find? id'
    show _ = if id' = id then x else m.value? id'
    unfold RootRegistry.find? at hfind ⊢
    rw [hentries]
    by_cases hindex : id'.index = id.index
    · rw [if_pos hindex]
      by_cases he : id' = id
      · subst he
        rcases hage with rfl | rfl <;> simp
      · rw [if_neg he, hothers id' hindex he]
        rcases hage with rfl | rfl
        · simp
        · have hversion : id.version ≠ id'.version := by
            intro hversion
            apply he
            cases id
            cases id'
            simp_all
          simp [hversion]
    · have he : id' ≠ id := by
        rintro rfl
        exact hindex rfl
      rw [if_neg hindex, if_neg he, hfind]
  · intro i
    rw [hfree, hentries]
    by_cases hi : i = id.index
    · simp [hi]
    · simp [hi, h.mem_free]
  · intro id' hid'
    rw [hentries]
    by_cases hindex : id'.index = id.index
    · rw [if_pos hindex]
      exact ⟨_, rfl, hissued id' hid' hindex⟩
    · rw [if_neg hindex]
      exact h.issued id' (hold id' hid' hindex)

/-- An entry that is registered under an id has no value under another. -/
theorem Represents.eq_of_index (h : m.Represents r) {node : Node} (hvalue : m.value? id = some node)
    {id' : RootId} (hindex : id'.index = id.index) (hne : id' ≠ id) : m.value? id' = none := by
  have hentry := (r.find?_eq_some id node).mp ((h.find? id).trans hvalue)
  rw [← h.find? id', Option.eq_none_iff_forall_ne_some]
  intro node' hnode'
  have hentry' := (r.find?_eq_some id' node').mp hnode'
  rw [hindex, hentry] at hentry'
  apply hne
  cases id
  cases id'
  simp_all

/-- A new id is none of those issued: its entry is new, or past all that were issued for it. -/
theorem Represents.register (h : m.Represents r) {node : Node} (hregister : r.register node = (id, r')) :
    id ∉ m.issued ∧ Represents { m.put id (some node) with issued := id :: m.issued } r' := by
  obtain ⟨hentries, hentry⟩ := r.register_eq (fun i hi => (h.mem_free i).mp hi) hregister
  have hissued : ∀ id' ∈ m.issued, id'.index = id.index → id'.version < id.version := by
    intro id' hid' hindex
    obtain ⟨entry, hused, _, hvacant⟩ := h.issued id' hid'
    rw [hindex] at hused
    rcases hentry with ⟨hnew, _⟩ | ⟨hnew, _⟩
    · simp [hnew] at hused
    · rw [hnew] at hused
      obtain rfl := Option.some.inj hused
      exact hvacant rfl
  have hothers : ∀ id', id'.index = id.index → id' ≠ id → m.value? id' = none := by
    intro id' hindex _
    rw [← h.find? id', RootRegistry.find?, hindex]
    rcases hentry with ⟨hnew, _⟩ | ⟨hnew, _⟩ <;> simp [hnew]
  have hnodup := h.free_nodup
  refine ⟨fun hid => Nat.lt_irrefl _ (hissued id hid rfl), h.entry hentries hothers (.inr rfl) ?_ ?_ ?_ ?_⟩
  · rcases hentry with ⟨_, _, hfree⟩ | ⟨_, hfree⟩
    · simp [hfree]
    · rw [hfree, List.nodup_cons] at hnodup
      exact hnodup.2
  · intro i
    rcases hentry with ⟨_, hfree, hfree'⟩ | ⟨_, hfree⟩
    · simp [hfree, hfree']
    · rw [hfree, List.nodup_cons] at hnodup
      by_cases hi : i = id.index
      · simp [hi, hnodup.1]
      · simp [hi, hfree]
  · intro id' hid' hindex
    exact (List.mem_cons.mp hid').resolve_left fun he => hindex (by rw [he])
  · intro id' hid' hindex
    rcases List.mem_cons.mp hid' with rfl | hid'
    · exact ⟨Nat.le_refl _, fun hnone => by simp at hnone⟩
    · exact ⟨Nat.le_of_lt (hissued id' hid' hindex), fun hnone => by simp at hnone⟩

theorem Represents.set (h : m.Represents r) {old node : Node} (hvalue : m.value? id = some old)
    (hset : r.set id node = .ok r') : (m.put id (some node)).Represents r' := by
  have hfind := (h.find? id).trans hvalue
  have hentry := (r.find?_eq_some id old).mp hfind
  simp only [RootRegistry.set, hfind, Except.ok.injEq] at hset
  subst hset
  refine h.entry (RootRegistry.getElem?_setIfInBounds_of_some hentry _) (fun _ => h.eq_of_index hvalue)
    (.inr rfl) h.free_nodup ?_ (fun id' hid' _ => hid') ?_
  · intro i
    by_cases hi : i = id.index
    · simp [hi, h.mem_free, hentry]
    · simp [hi]
  · intro id' hid' hindex
    obtain ⟨entry, hused, hle, _⟩ := h.issued id' hid'
    rw [hindex, hentry] at hused
    obtain rfl := Option.some.inj hused
    exact ⟨hle, fun hnone => by simp at hnone⟩

/-- Unless its version wraps around, an entry that becomes vacant is past all ids issued for it. -/
theorem Represents.unregister (h : m.Represents r) {node : Node} (hvalue : m.value? id = some node)
    (hunregister : r.unregister id = .ok (node, r')) (hages : r.ages r' = true) :
    (m.put id none).Represents r' := by
  have hfind := (h.find? id).trans hvalue
  have hentry := (r.find?_eq_some id node).mp hfind
  have hlt : id.index < r.entries.size := (Array.getElem?_eq_some_iff.mp hentry).1
  simp only [RootRegistry.unregister, hfind, Except.ok.injEq, Prod.mk.injEq, true_and] at hunregister
  subst hunregister
  have hentries := RootRegistry.getElem?_setIfInBounds_of_some hentry ⟨nextVersion id.version, none⟩
  have hnext : id.version < nextVersion id.version := by
    have hle : id.version ≤ nextVersion id.version := by
      simpa [RootRegistry.versionOf, hentry, hentries] using
        List.all_eq_true.mp hages id.index (List.mem_range.mpr hlt)
    exact Nat.lt_of_le_of_ne hle (nextVersion_ne id.version).symm
  refine h.entry hentries (fun _ => h.eq_of_index hvalue) (.inl rfl) ?_ ?_ (fun id' hid' _ => hid') ?_
  · refine List.nodup_cons.mpr ⟨fun hmem => ?_, h.free_nodup⟩
    obtain ⟨v, hv⟩ := (h.mem_free id.index).mp hmem
    simp [hentry] at hv
  · intro i
    by_cases hi : i = id.index <;> simp [hi]
  · intro id' hid' hindex
    obtain ⟨entry, hused, hle, _⟩ := h.issued id' hid'
    rw [hindex, hentry] at hused
    obtain rfl := Option.some.inj hused
    have hlt' : id'.version < nextVersion id.version := Nat.lt_of_le_of_lt hle hnext
    exact ⟨Nat.le_of_lt hlt', fun _ => hlt'⟩

/-- An entry is vacant or registered, so the vacant ones leave as many as there are values. -/
theorem Represents.count_eq (h : m.Represents r) : r.count = r.ids.length := by
  have hperm : (r.ids.map (·.index) ++ r.free).Perm (List.range r.entries.size) := by
    refine (List.perm_ext_iff_of_nodup (List.nodup_append.mpr ⟨?_, h.free_nodup, ?_⟩) List.nodup_range).mpr ?_
    · refine List.pairwise_map.mpr (r.ids_pairwise.imp fun hlt => Nat.ne_of_lt hlt)
    · intro i hi j hj he
      subst he
      obtain ⟨id, hid, rfl⟩ := List.mem_map.mp hi
      obtain ⟨node, hnode⟩ := Option.isSome_iff_exists.mp ((r.mem_ids id).mp hid)
      obtain ⟨v, hv⟩ := (h.mem_free id.index).mp hj
      simp [(r.find?_eq_some id node).mp hnode] at hv
    · intro i
      rw [List.mem_append, List.mem_range, h.mem_free]
      constructor
      · intro hi
        rcases hi with hi | ⟨v, hv⟩
        · obtain ⟨id, hid, rfl⟩ := List.mem_map.mp hi
          obtain ⟨node, hnode⟩ := Option.isSome_iff_exists.mp ((r.mem_ids id).mp hid)
          exact (Array.getElem?_eq_some_iff.mp ((r.find?_eq_some id node).mp hnode)).1
        · exact (Array.getElem?_eq_some_iff.mp hv).1
      · intro hi
        have hentry : r.entries[i]? = some r.entries[i] := Array.getElem?_eq_getElem hi
        cases hvalue : r.entries[i].value with
        | none => exact .inr ⟨r.entries[i].version, by rw [hentry, ← hvalue]⟩
        | some node =>
          refine .inl (List.mem_map.mpr ⟨⟨i, r.entries[i].version⟩, (r.mem_ids _).mpr ?_, rfl⟩)
          rw [Option.isSome_iff_exists]
          exact ⟨node, (r.find?_eq_some _ node).mpr (by rw [hentry, ← hvalue])⟩
  have hlength := hperm.length_eq
  rw [List.length_append, List.length_map, List.length_range] at hlength
  unfold RootRegistry.count
  omega

section Actions

open Mutator

variable {ctx c : Context}

theorem run_unregister_unknown (hfind : ctx.roots.find? id = none) :
    (Action.unregisterRoot id : Action Operands.resolved).run.run.run ctx =
      .ok (.error (.unknownRoot id.index), ctx) := by
  refine (run_map ctx Answer.node (unregisterRoot id)).trans ?_
  rw [run_unregisterRoot, RootRegistry.unregister, hfind]
  rfl

theorem run_set_unknown (hfind : ctx.roots.find? id = none) (node : Node) :
    (Action.setRoot id node : Action Operands.resolved).run.run.run ctx =
      .ok (.error (.unknownRoot id.index), ctx) := by
  refine (run_bind (setRoot id node) (fun _ => pure Answer.nothing) ctx).trans ?_
  rw [run_setRoot, RootRegistry.set, hfind]

theorem run_get_unknown (hfind : ctx.roots.find? id = none) :
    (Action.getRoot id : Action Operands.resolved).run.run.run ctx =
      .ok (.error (.unknownRoot id.index), ctx) := by
  refine (run_map ctx Answer.node (getRoot id)).trans ?_
  rw [getRoot, run_read, RootRegistry.get, hfind]
  rfl

/-- The use of an id that nothing is registered under changes nothing. -/
theorem Represents.run_unknown (h : m.Represents ctx.roots) {action : Action Operands.resolved}
    (hid : action.rootId? = some id) (hvalue : m.value? id = none) :
    action.run.run.run ctx = .ok (.error (.unknownRoot id.index), ctx) := by
  have hfind := (h.find? id).trans hvalue
  cases action with
  | unregisterRoot id' =>
    obtain rfl := Option.some.inj hid
    exact run_unregister_unknown hfind
  | setRoot id' node =>
    obtain rfl := Option.some.inj hid
    exact run_set_unknown hfind node
  | getRoot id' =>
    obtain rfl := Option.some.inj hid
    exact run_get_unknown hfind
  | _ => simp [Action.rootId?] at hid

/-- A request gets an answer and changes the registry only; the answer is the one of the map, which
stands for the registry also afterwards unless a version has wrapped around. -/
def Served (m : RootMap) (ctx : Context) (action : Action Operands.resolved) : Prop :=
  ∃ answer roots, action.run.run.run ctx = .ok (answer, { ctx with roots }) ∧
    (ctx.roots.ages roots = true → ∃ m', m.Answers action answer m' ∧ m'.Represents roots)

theorem Represents.served_unknown (h : m.Represents ctx.roots) {action : Action Operands.resolved}
    (hid : action.rootId? = some id) (hvalue : m.value? id = none) : m.Served ctx action :=
  ⟨_, ctx.roots, h.run_unknown hid hvalue, fun _ => ⟨m, .unknown hid hvalue, h⟩⟩

theorem Represents.served_register (h : m.Represents ctx.roots) (node : Node) :
    m.Served ctx (.registerRoot node) := by
  obtain ⟨hfresh, hrepresents⟩ := h.register rfl
  exact ⟨_, _, rfl, fun _ => ⟨_, .register node hfresh, hrepresents⟩⟩

theorem Represents.served_unregister (h : m.Represents ctx.roots) (id : RootId) :
    m.Served ctx (.unregisterRoot id) := by
  cases hvalue : m.value? id with
  | none => exact h.served_unknown rfl hvalue
  | some node =>
    obtain ⟨roots, hroots⟩ : ∃ roots, ctx.roots.unregister id = .ok (node, roots) := by
      simp [RootRegistry.unregister, (h.find? id).trans hvalue]
    refine ⟨.ok (.node node), roots, (run_map ctx Answer.node (unregisterRoot id)).trans ?_, fun hages => ?_⟩
    · rw [run_unregisterRoot, hroots]
      rfl
    · exact ⟨_, .unregister hvalue, h.unregister hvalue hroots hages⟩

theorem Represents.served_set (h : m.Represents ctx.roots) (id : RootId) (node : Node) :
    m.Served ctx (.setRoot id node) := by
  cases hvalue : m.value? id with
  | none => exact h.served_unknown rfl hvalue
  | some old =>
    obtain ⟨roots, hroots⟩ : ∃ roots, ctx.roots.set id node = .ok roots := by
      simp [RootRegistry.set, (h.find? id).trans hvalue]
    refine ⟨.ok .nothing, roots, ?_, fun _ => ⟨_, .set node hvalue, h.set hvalue hroots⟩⟩
    refine (run_bind (setRoot id node) (fun _ => pure Answer.nothing) ctx).trans ?_
    rw [run_setRoot, hroots]
    rfl

theorem Represents.served_get (h : m.Represents ctx.roots) (id : RootId) :
    m.Served ctx (.getRoot id) := by
  cases hvalue : m.value? id with
  | none => exact h.served_unknown rfl hvalue
  | some node =>
    refine ⟨.ok (.node node), ctx.roots, (run_map ctx Answer.node (getRoot id)).trans ?_,
      fun _ => ⟨m, .get hvalue, h⟩⟩
    rw [getRoot, run_read, RootRegistry.get, (h.find? id).trans hvalue]
    rfl

theorem Represents.served (h : m.Represents ctx.roots) {action : Action Operands.resolved}
    (hroot : action.onRoots = true) : m.Served ctx action := by
  cases action with
  | registerRoot node => exact h.served_register node
  | unregisterRoot id => exact h.served_unregister id
  | setRoot id node => exact h.served_set id node
  | getRoot id => exact h.served_get id
  | _ => simp [Action.onRoots] at hroot

end Actions

end RootMap

open Mutator in
/-- Only requests for them change the registered roots. -/
theorem sameRoots_stepwise : Stepwise fun a c => c.roots = a.roots where
  refl _ := rfl
  trans h h' := h'.trans h
  stack _ _ := rfl
  captures _ _ := rfl
  write _ _ _ := rfl
  allocate kind count ctx := by
    intro r c hrun
    rcases ends_of_ok (allocate_ends ctx kind count) hrun with ⟨e, _, rfl, _⟩ | ⟨h, c₁, _, hy, hs⟩
    · rfl
    · have hyield : c₁.roots = ctx.roots := by
        rcases hy with rfl | ⟨record, hc⟩
        · rfl
        · exact (Context.collect_frame _ record hc).2.1
      exact hs.frame.2.1.trans hyield
  checkpoint _ := leaves_checkpoint rfl fun record _ hc => (Context.collect_frame _ record hc).2.1

namespace RootMap

variable {m : RootMap} {ctx c : Context}

/-- A registry answers every action as its map does. -/
theorem Represents.answers (h : m.Represents ctx.roots) {action : Action Operands.resolved}
    {answer : Except RuntimeError Answer} (hrun : action.run.run.run ctx = .ok (answer, c))
    (hages : ctx.roots.ages c.roots = true) :
    ∃ m', m.Answers action answer m' ∧ m'.Represents c.roots := by
  cases hroot : action.onRoots with
  | true =>
    obtain ⟨answer', roots, hserved, hmap⟩ := h.served hroot
    obtain ⟨rfl, rfl⟩ := Prod.mk.inj (Except.ok.inj (hserved.symm.trans hrun))
    exact hmap hages
  | false =>
    have hroots : c.roots = ctx.roots := by
      cases action with
      | collect =>
        have hcollect : Mutator.collect.Leaves ctx fun _ b => b.roots = ctx.roots :=
          Mutator.leaves_collectWith .explicit fun record _ hc => (Context.collect_frame _ record hc).2.1
        exact Mutator.leaves_map hcollect Answer.collection answer c hrun
      | registerRoot | unregisterRoot | setRoot | getRoot => simp [Action.onRoots] at hroot
      | _ => exact sameRoots_stepwise.action _ rfl rfl ctx answer c hrun
    rw [hroots]
    exact ⟨m, .other hroot, h⟩

/-- The map gives the answers of a sequence of exchanges. -/
inductive Replays : RootMap → List (Action Operands.resolved × Except RuntimeError Answer) → RootMap → Prop
  | nil (m : RootMap) : Replays m [] m
  | cons {m m' m'' : RootMap} {action : Action Operands.resolved} {answer : Except RuntimeError Answer}
      {rest : List (Action Operands.resolved × Except RuntimeError Answer)} :
      m.Answers action answer m' → Replays m' rest m'' → Replays m ((action, answer) :: rest) m''

end RootMap

namespace Context

/-- The actions of a run with their answers; a fault ends the run. -/
def exchanges (ctx : Context) : List Event → List (Action Operands.resolved × Except RuntimeError Answer)
  | [] => []
  | .act action :: events =>
    match action.run.run.run ctx with
    | .ok (answer, c) => (action, answer) :: c.exchanges events
    | .error _ => []
  | event :: events =>
    match event.run.run.run ctx with
    | .ok (_, c) => c.exchanges events
    | .error _ => []

/-- Whether no event of a run leaves an entry of the registry with a lower version, as one does in which
a version starts over. -/
def rootsUnwrapped (ctx : Context) : List Event → Bool
  | [] => true
  | event :: events =>
    match event.run.run.run ctx with
    | .ok (_, c) => ctx.roots.ages c.roots && c.rootsUnwrapped events
    | .error _ => true

end Context

theorem Event.sameRoots {event : Event} {ctx : Context} (h : ∀ action, event ≠ .act action) :
    event.run.Leaves ctx fun _ c => c.roots = ctx.roots := by
  cases event with
  | act action => exact absurd rfl (h action)
  | print | call | leave => exact sameRoots_stepwise.event _ rfl rfl ctx
  | inhibit | permit =>
    intro r c hrun
    obtain ⟨_, rfl⟩ := Prod.mk.inj (Except.ok.inj hrun)
    rfl

/-- The registry answers along a run as its map does, whatever else is done. -/
theorem RootMap.Represents.replays {m : RootMap} {ctx : Context} (h : m.Represents ctx.roots)
    (events : List Event) (hversions : ctx.rootsUnwrapped events = true) :
    ∃ m', m.Replays (ctx.exchanges events) m' ∧ m'.Represents (ctx.after events).roots := by
  induction events generalizing m ctx with
  | nil => exact ⟨m, .nil m, h⟩
  | cons event events ih =>
    unfold Context.rootsUnwrapped at hversions
    unfold Context.after
    by_cases hact : ∃ action, event = .act action
    · obtain ⟨action, rfl⟩ := hact
      rw [Context.exchanges]
      cases hrun : action.run.run.run ctx with
      | error why =>
        have hevent : (Event.act action).run.run.run ctx = .error why := by
          rw [Event.run, Mutator.run_bind, hrun]
        rw [hevent]
        exact ⟨m, .nil m, h⟩
      | ok p =>
        rw [Event.run_eq_ok rfl hrun, Bool.and_eq_true] at hversions
        rw [Event.run_eq_ok rfl hrun]
        obtain ⟨m₁, hanswers, h₁⟩ := h.answers hrun hversions.1
        obtain ⟨m', hreplays, h'⟩ := ih h₁ hversions.2
        exact ⟨m', .cons hanswers hreplays, h'⟩
    · have hother : ∀ action, event ≠ .act action := fun action he => hact ⟨action, he⟩
      rw [Context.exchanges]
      on_goal 2 => exact hother
      cases hrun : event.run.run.run ctx with
      | error why => exact ⟨m, .nil m, h⟩
      | ok p =>
        rw [hrun, Bool.and_eq_true] at hversions
        have hroots := Event.sameRoots hother p.1 p.2 hrun
        rw [← hroots] at h
        exact ih h hversions.2

/-- Registered roots behave as a map under ids that are never issued twice, along every run in which no
version of an entry wraps around and whatever else is done in it. Every request gets the answer of the
map and changes the registry only, or nothing if its id is unknown. The values are those of the map,
each once and in order of the entries, and they are counted right. -/
theorem registered_roots_form_a_map {config : Config} {start ctx : Context}
    (hstart : Context.ofConfig config = .ok start) (events : List Event) (hctx : start.after events = ctx)
    (hversions : start.rootsUnwrapped events = true) :
    ∃ m : RootMap, RootMap.Replays {} (start.exchanges events) m ∧
      (∀ action : Action Operands.resolved, action.onRoots = true →
        ∃ answer roots, action.run.run.run ctx = .ok (answer, { ctx with roots }) ∧
          (ctx.roots.ages roots = true → ∃ m', m.Answers action answer m')) ∧
      (∀ (action : Action Operands.resolved) id, action.rootId? = some id → m.value? id = none →
        action.run.run.run ctx = .ok (.error (.unknownRoot id.index), ctx)) ∧
      ctx.roots.ids.Pairwise (fun a b => a.index < b.index) ∧
      (∀ id, id ∈ ctx.roots.ids ↔ (m.value? id).isSome = true) ∧
      ctx.roots.ids.map m.value? = ctx.roots.values.map some ∧
      ctx.roots.count = ctx.roots.ids.length := by
  subst hctx
  have hempty : ({} : RootMap).Represents start.roots := by
    obtain ⟨arena, _, rfl⟩ := Context.ofConfig_eq_ok hstart
    exact RootMap.represents_empty
  obtain ⟨m, hreplays, h⟩ := hempty.replays events hversions
  have hfind : (start.after events).roots.find? = m.value? := funext h.find?
  refine ⟨m, hreplays, ?_, fun action id hid hvalue => h.run_unknown hid hvalue,
    (start.after events).roots.ids_pairwise, ?_, ?_, h.count_eq⟩
  · intro action hroot
    obtain ⟨answer, roots, hrun, hmap⟩ := h.served hroot
    refine ⟨answer, roots, hrun, fun hages => ?_⟩
    obtain ⟨m', hanswers, _⟩ := hmap hages
    exact ⟨m', hanswers⟩
  · intro id
    rw [← hfind]
    exact (start.after events).roots.mem_ids id
  · rw [← hfind]
    exact (start.after events).roots.map_find?_ids

/-- The entry of the first root of this run is reused for the third, which the first id does not reach. -/
theorem registered_roots_form_a_map_reused_entry :
    ∃ (start ctx : Context) (m : RootMap),
      Context.ofConfig { arenaBytes := 128, stackSlots := 4 } = .ok start ∧
      start.after [.act (.registerRoot (Node.integer 1)), .act (.registerRoot (Node.integer 2)),
        .act (.unregisterRoot (⟨0, 1⟩ : RootId)), .act .collect, .act (.registerRoot (Node.integer 3))] = ctx ∧
      RootMap.Replays {} (start.exchanges [.act (.registerRoot (Node.integer 1)),
        .act (.registerRoot (Node.integer 2)), .act (.unregisterRoot (⟨0, 1⟩ : RootId)), .act .collect,
        .act (.registerRoot (Node.integer 3))]) m ∧
      ctx.roots.ids = [⟨0, 2⟩, ⟨1, 1⟩] ∧ ctx.roots.values = [.integer 3, .integer 2] ∧
      ctx.roots.count = 2 ∧
      (Action.setRoot (⟨0, 1⟩ : RootId) Node.undefined : Action Operands.resolved).run.run.run ctx =
        .ok (.error (.unknownRoot 0), ctx) := by
  have hstart : Context.ofConfig { arenaBytes := 128, stackSlots := 4 } = .ok _ := rfl
  obtain ⟨m, hreplays, _, hunknown, _, hmem, _⟩ := registered_roots_form_a_map hstart
    [.act (.registerRoot (Node.integer 1)), .act (.registerRoot (Node.integer 2)),
      .act (.unregisterRoot (⟨0, 1⟩ : RootId)), .act .collect, .act (.registerRoot (Node.integer 3))]
    rfl (by cbv)
  refine ⟨_, _, m, hstart, rfl, hreplays, by cbv, by cbv, by cbv, hunknown _ ⟨0, 1⟩ rfl ?_⟩
  have hgone : ¬ (m.value? ⟨0, 1⟩).isSome = true := by
    rw [← hmem, ← List.contains_iff_mem]
    cbv
    simp
  simpa using hgone

end GenerationalHeap
