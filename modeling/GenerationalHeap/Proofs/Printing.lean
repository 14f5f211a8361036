import GenerationalHeap.Proofs.StringContents

namespace GenerationalHeap

namespace Utf8

theorem encode_decodeLossy {data : Array UInt8} (hv : (ByteArray.mk data).IsValidUTF8) :
    encode (decodeLossy data.toList) = data := by
  have htext : encode ⟨⟨data⟩, hv⟩ = data := rfl
  rw [← htext, decodeLossy_encode]

theorem encode_append_newline (text : String) : encode (text ++ "\n") = (encode text).push 10 := by
  have hnewline : encode "\n" = #[10] := rfl
  have happend : encode (text ++ "\n") = encode text ++ encode "\n" := by
    simp [encode]
  rw [happend, hnewline, Array.push_eq_append]

end Utf8

namespace Writer

/-- A writer that has received so many bytes more. -/
def less (w : Writer) (count : Nat) : Writer := { w with room := w.room.map (· - count) }

def failure (w : Writer) : OutputFailure := if w.stalls then .stalled else .closed

/-- Bytes are handed to a writer call by call. Each call takes one byte or more of those that are left,
as many as it likes up to the room there is. It is over when none are left or a call takes none. -/
inductive Delivers : Writer → Array UInt8 → Except OutputFailure Unit → Array UInt8 → Prop
  | finish (w : Writer) : Delivers w #[] (.ok ()) #[]
  | portion {w : Writer} {first rest received : Array UInt8} {result : Except OutputFailure Unit} :
      0 < first.size → (∀ room ∈ w.room, first.size ≤ room) →
      Delivers (w.less first.size) rest result received →
      Delivers w (first ++ rest) result (first ++ received)
  | full {w : Writer} {data : Array UInt8} :
      w.room = some 0 → 0 < data.size → Delivers w data (.error w.failure) #[]

variable {w : Writer} {data received : Array UInt8} {result : Except OutputFailure Unit}

theorem write_unlimited (hr : w.room = none) (data : Array UInt8) : w.write data = (.ok (), data) := by
  rw [write, hr]

theorem write_limited {room : Nat} (hr : w.room = some room) (data : Array UInt8) :
    w.write data = (if data.size ≤ room then .ok () else .error w.failure, data.extract 0 room) := by
  simp only [write, hr]
  by_cases hle : data.size ≤ room
  · rw [if_pos hle, if_pos hle, Array.extract_eq_self_of_le hle]
  · rw [if_neg hle, if_neg hle, failure]

/-- A portion that fits goes first, and the room it leaves is for the rest. -/
theorem write_append {first : Array UInt8} (hfits : ∀ room ∈ w.room, first.size ≤ room)
    (rest : Array UInt8) : w.write (first ++ rest) =
      (((w.less first.size).write rest).1, first ++ ((w.less first.size).write rest).2) := by
  cases hr : w.room with
  | none =>
    have hless : (w.less first.size).room = none := by rw [less, hr, Option.map_none]
    rw [write_unlimited hr, write_unlimited hless]
  | some room =>
    have hle : first.size ≤ room := hfits room hr
    have hless : (w.less first.size).room = some (room - first.size) := by
      rw [less, hr, Option.map_some]
    have hsum : first.size + rest.size ≤ room ↔ rest.size ≤ room - first.size := by omega
    rw [write_limited hr, write_limited hless, Array.size_append, Array.extract_append,
      Array.extract_eq_self_of_le hle, Nat.zero_sub]
    simp only [hsum]
    rfl

/-- What is received does not depend on the portions. -/
theorem Delivers.write_eq (hd : w.Delivers data result received) :
    w.write data = (result, received) := by
  induction hd with
  | finish w =>
    cases hr : w.room with
    | none => exact write_unlimited hr _
    | some room => simp [write_limited hr]
  | portion _ hfits _ ih => rw [write_append hfits, ih]
  | full hr hne => rw [write_limited hr, if_neg (by omega), Array.extract_zero]

theorem delivers_all (hfits : ∀ room ∈ w.room, data.size ≤ room) : w.Delivers data (.ok ()) data := by
  by_cases hpos : 0 < data.size
  · have hd := Delivers.portion hpos hfits (.finish _)
    rwa [Array.append_empty] at hd
  · obtain rfl : data = #[] := Array.eq_empty_of_size_eq_zero (by omega)
    exact .finish w

/-- One portion as large as the room, and nothing more. -/
theorem delivers_part {room : Nat} (hr : w.room = some room) (hlt : room < data.size) :
    w.Delivers data (.error w.failure) (data.extract 0 room) := by
  by_cases hpos : 0 < room
  · have hsize : (data.extract 0 room).size = room := by
      rw [Array.size_extract]
      omega
    have hfits : ∀ r ∈ w.room, (data.extract 0 room).size ≤ r := by
      intro r hmem
      obtain rfl := Option.some.inj (hr.symm.trans hmem)
      omega
    have hless : (w.less (data.extract 0 room).size).room = some 0 := by
      rw [less, hr, hsize, Option.map_some, Nat.sub_self]
    have hrest : 0 < (data.extract room data.size).size := by
      rw [Array.size_extract]
      omega
    have hd := Delivers.portion (by omega) hfits (.full hless hrest)
    rwa [Array.extract_append_extract, Array.append_empty, Nat.min_eq_left (Nat.zero_le room),
      Nat.max_eq_right (by omega), Array.extract_size] at hd
  · -- With no room at all there is no portion to begin with.
    obtain rfl : room = 0 := by omega
    rw [Array.extract_zero]
    exact .full hr (by omega)

theorem delivers_iff (w : Writer) (data : Array UInt8) (result : Except OutputFailure Unit)
    (received : Array UInt8) : w.Delivers data result received ↔ w.write data = (result, received) := by
  refine ⟨Delivers.write_eq, fun hw => ?_⟩
  cases hr : w.room with
  | none =>
    rw [write_unlimited hr] at hw
    obtain ⟨rfl, rfl⟩ := Prod.mk.inj hw
    exact delivers_all (by simp [hr])
  | some room =>
    rw [write_limited hr] at hw
    obtain ⟨rfl, rfl⟩ := Prod.mk.inj hw
    by_cases hle : data.size ≤ room
    · rw [if_pos hle, Array.extract_eq_self_of_le hle]
      exact delivers_all (by simp [hr, hle])
    · rw [if_neg hle]
      exact delivers_part hr (by omega)

end Writer

/-- The answer to a call that hands over so many bytes. -/
def written (count : Nat) : Except OutputFailure Unit → Except RuntimeError Node
  | .ok _ => .ok (.ofCount count)
  | .error why => .error (.output why)

theorem written_inj {count : Nat} {a b : Except OutputFailure Unit} (h : written count a = written count b) :
    a = b := by
  cases a <;> cases b <;> simp_all [written]

theorem written_ne_typeMismatch (count : Nat) (result : Except OutputFailure Unit) (x : Expectation)
    (k : NodeKind) : written count result ≠ .error (.typeMismatch x k) := by
  cases result <;> simp [written]

/-- What a call does that writes some bytes. A writer without a limit receives them all. One that takes
only so many receives the first of them, and the call succeeds if that is all of them. In what portions a
writer takes them makes no difference. -/
structure Emits (call : Writer → Except RuntimeError Node × Array UInt8) (data : Array UInt8) : Prop where
  unlimited : ∀ w, w.room = none → call w = (.ok (.ofCount data.size), data)
  received : ∀ w room, w.room = some room → (call w).2 = data.extract 0 (min room data.size)
  succeeds : ∀ w room, w.room = some room →
    ((call w).1 = .ok (.ofCount data.size) ↔ data.size ≤ room)
  fails : ∀ w room, w.room = some room →
    ((call w).1 = .error (.output w.failure) ↔ room < data.size)
  portions : ∀ w result received,
    w.Delivers data result received ↔ call w = (written data.size result, received)

namespace Heap

variable {heap : Heap} {node : Node}

theorem printWith_eq {text : String} (hr : heap.render node = .ok text) (ending : String) (w : Writer) :
    heap.printWith ending node w =
      (written (Utf8.encode (text ++ ending)).size (w.write (Utf8.encode (text ++ ending))).1,
        (w.write (Utf8.encode (text ++ ending))).2) := by
  simp only [printWith, hr]
  cases hw : w.write (Utf8.encode (text ++ ending)) with
  | mk result received => cases result <;> rfl

theorem emits_printWith {text : String} (hr : heap.render node = .ok text) (ending : String) :
    Emits (heap.printWith ending node) (Utf8.encode (text ++ ending)) := by
  have heq := printWith_eq hr ending
  generalize Utf8.encode (text ++ ending) = data at heq
  constructor
  · intro w hroom
    rw [heq, Writer.write_unlimited hroom]
    rfl
  · intro w room hroom
    rw [heq, Writer.write_limited hroom]
    rcases Nat.le_total room data.size with hle | hle
    · rw [Nat.min_eq_left hle]
    · rw [Nat.min_eq_right hle, Array.extract_size, Array.extract_eq_self_of_le hle]
  · intro w room hroom
    rw [heq, Writer.write_limited hroom]
    by_cases hle : data.size ≤ room <;> simp [hle, written]
  · intro w room hroom
    rw [heq, Writer.write_limited hroom, ← Nat.not_le]
    by_cases hle : data.size ≤ room <;> simp [hle, written]
  · intro w result received
    rw [heq, Writer.delivers_iff]
    constructor
    · intro hw
      rw [hw]
    · intro hw
      obtain ⟨hresult, hreceived⟩ := Prod.mk.inj hw
      exact Prod.ext (written_inj hresult) hreceived

/-- A mismatch is one of the value, never of the writer. -/
theorem printWith_typeMismatch (ending : String) (w : Writer) (x : Expectation) (k : NodeKind) :
    (heap.printWith ending node w).1 = .error (.typeMismatch x k) ↔
      heap.render node = .error (.typeMismatch x k) := by
  cases hr : heap.render node with
  | error why => simp [printWith, hr]
  | ok text => simp [printWith_eq hr, written_ne_typeMismatch]

theorem stringText_eq_ok {text : String} (h : heap.stringText node = .ok text) :
    ∃ data, heap.stringBytes node = .ok data ∧ Utf8.decodeLossy data.toList = text := by
  cases hb : heap.stringBytes node with
  | error why => simp [stringText, hb, Except.map] at h
  | ok data => exact ⟨data, rfl, Except.ok.inj ((stringText_of_bytes hb).symm.trans h)⟩

/-- A string's buffer is there and is long enough. -/
def Buffers (heap : Heap) : Node → Prop
  | .string length h => ∃ buffer, heap.bytes h = .ok buffer ∧ length ≤ buffer.size
  | _ => True

/-- Among the values whose buffers are there, only what is neither a scalar nor a string has no text. -/
theorem render_of_buffers (hb : heap.Buffers node)
    (haccepted : ∀ x k, heap.render node ≠ .error (.typeMismatch x k)) :
    ∃ text, heap.render node = .ok text := by
  cases node with
  | scalar value => exact ⟨_, rfl⟩
  | string length h =>
    obtain ⟨buffer, hbytes, hle⟩ := hb
    exact ⟨_, stringText_of_bytes (stringBytes_of_bytes hbytes hle)⟩
  | undefined | pointer | closure | cell => exact absurd rfl (haccepted _ _)

theorem bytes_ne_typeMismatch (heap : Heap) (h : Handle) (x : Expectation) (k : NodeKind) :
    heap.bytes h ≠ .error (.typeMismatch x k) := by
  rw [bytes_eq]
  cases heap.payload? h with
  | none => simp
  | some p => cases p <;> simp

theorem render_string_ne_typeMismatch (heap : Heap) (length : Nat) (h : Handle) (x : Expectation)
    (k : NodeKind) : heap.render (.string length h) ≠ .error (.typeMismatch x k) := by
  simp only [render, stringText, stringBytes, bind, Except.bind]
  cases hb : heap.bytes h with
  | error why =>
    have hne := bytes_ne_typeMismatch heap h x k
    rw [hb] at hne
    simpa [Except.map] using hne
  | ok buffer =>
    by_cases hle : length ≤ buffer.size <;> simp [hle, Except.map]

end Heap

theorem requestSize_ne_typeMismatch (limit : Nat) (kind : PayloadKind) (count : Nat) (x : Expectation)
    (k : NodeKind) : requestSize limit kind count ≠ .error (.typeMismatch x k) := by
  intro h
  obtain ⟨_, he⟩ := requestSize_eq_error h
  simp at he

namespace Mutator

variable {ctx c : Context} {node s : Node}

theorem run_toText_string (length : Nat) (h : Handle) :
    (toText (.string length h)).run.run ctx = .ok (.ok (.string length h), ctx) := rfl

theorem run_toText (hn : ∀ length h, node ≠ .string length h) :
    (toText node).run.run ctx =
      match ctx.heap.render node with
      | .ok text => (newString text).run.run ctx
      | .error e => .ok (.error e, ctx) := by
  rw [toText.eq_2 node hn, run_bind, run_read]
  cases ctx.heap.render node <;> rfl

/-- What has no text cannot be turned into a string, and for no other reason is there a mismatch. -/
theorem toText_typeMismatch (hw : ctx.heap.WellFormed) (node : Node) (x : Expectation) (k : NodeKind) :
    (∃ c, (toText node).run.run ctx = .ok (.error (.typeMismatch x k), c)) ↔
      ctx.heap.render node = .error (.typeMismatch x k) := by
  by_cases hstring : ∃ length h, node = .string length h
  · obtain ⟨length, h, rfl⟩ := hstring
    refine iff_of_false ?_ (ctx.heap.render_string_ne_typeMismatch length h x k)
    rintro ⟨c, hrun⟩
    simp [run_toText_string] at hrun
  · rw [run_toText fun length h he => hstring ⟨length, h, he⟩]
    cases ctx.heap.render node with
    | error e => simp
    | ok text =>
      refine iff_of_false ?_ (by simp)
      rintro ⟨c, hrun⟩
      rcases leaves_newString text hw _ _ hrun with ⟨_, he, hrefused⟩ | ⟨_, he, _⟩
      · obtain rfl := Except.error.inj he
        exact requestSize_ne_typeMismatch _ _ _ _ _ hrefused
      · simp at he

/-- A value and the string made of it have the same text. -/
theorem toText_renders (hw : ctx.heap.WellFormed)
    (hrun : (toText node).run.run ctx = .ok (.ok s, c)) : c.heap.stringText s = ctx.heap.render node := by
  by_cases hstring : ∃ length h, node = .string length h
  · obtain ⟨length, h, rfl⟩ := hstring
    rw [run_toText_string] at hrun
    obtain ⟨hs, rfl⟩ := Prod.mk.inj (Except.ok.inj hrun)
    obtain rfl := Except.ok.inj hs
    rfl
  · rw [run_toText fun length h he => hstring ⟨length, h, he⟩] at hrun
    cases hr : ctx.heap.render node with
    | error e => simp [hr] at hrun
    | ok text =>
      rw [hr] at hrun
      obtain ⟨h, rfl, hp⟩ := newString_creates hw hrun
      exact (Heap.string_of_encoded hp).2

end Mutator

section Sizes

/-- No block is larger than the system hands out. -/
def Heap.Obtainable (heap : Heap) : Prop :=
  ∀ h p, heap.payload? h = some p → p.kind.blockBytes p.count ≤ largestBlock

theorem Move.obtainable {n : Nat} {a b : Context} (hm : Move n a b) (hw : a.heap.WellFormed)
    (ha : a.heap.Obtainable) : b.heap.Obtainable := by
  cases hm with
  | stack | roots | enter | leave | inhibit => exact ha
  | write _ h p q hp hkind hcount =>
    intro g r hr
    have hview := Heap.payload?_setPayload hp q g
    by_cases hg : g = h
    · rw [if_pos hg] at hview
      obtain rfl := Option.some.inj (hr.symm.trans hview)
      rw [hkind, hcount]
      exact ha h p hp
    · rw [if_neg hg] at hview
      exact ha g r (hview.symm.trans hr)
  | serve _ kind count h _ hs =>
    intro g r hr
    rw [hs.payload? hw] at hr
    by_cases hg : g = h
    · rw [if_pos hg] at hr
      obtain rfl := Option.some.inj hr
      obtain ⟨size, hsize⟩ := hs.requestSize_eq_ok
      rw [Payload.kind_fresh, Payload.count_fresh]
      exact requestSize_le hsize
    · rw [if_neg hg] at hr
      exact ha g r hr
  | collect _ trigger record _ hc =>
    intro g r hr
    exact ha g r ((Context.collect_payload? hw trigger record hc g r).mp hr).2

variable {config : Config} {ctx : Context}

theorem Reachable.obtainable (hr : Reachable config ctx) : ctx.heap.Obtainable := by
  apply (hr.invariant (P := fun c => c.heap.Obtainable) _ fun _ _ _ hm hw ha => hm.obtainable hw ha).2
  intro c hc h p hp
  obtain ⟨arena, _, rfl⟩ := Context.ofConfig_eq_ok hc
  simp [Heap.payload?, Heap.block?, SlotTable.resolve] at hp

/-- The bytes of a string are in one block, so a signed word can count them and one more. -/
theorem Reachable.stringBytes_lt (hr : Reachable config ctx) {s : Node} {bytes : Array UInt8}
    (hs : ctx.heap.stringBytes s = .ok bytes) : bytes.size + 1 ≤ 0x7fffffffffffffff := by
  cases s with
  | undefined | pointer | scalar | closure | cell => simp [Heap.stringBytes] at hs
  | string length h =>
    cases hb : ctx.heap.bytes h with
    | error why => simp [Heap.stringBytes, hb, bind, Except.bind] at hs
    | ok buffer =>
      have hsize : bytes.size ≤ buffer.size := by
        simp only [Heap.stringBytes, hb, bind, Except.bind] at hs
        split at hs
        · obtain rfl := Except.ok.inj hs
          rw [Array.size_extract]
          omega
        · simp at hs
      have hblock : PayloadKind.bytes.blockBytes buffer.size ≤ largestBlock :=
        hr.obtainable h _ (Heap.bytes_eq_ok.mp hb)
      simp only [PayloadKind.blockBytes, PayloadKind.exactBytes, headerBytes, minPayload, largestBlock,
        blockAlign] at hblock
      omega

end Sizes

theorem Node.ofCount_of_le {n : Nat} (h : n ≤ 0x7fffffffffffffff) : Node.ofCount n = .integer (n : Nat) := by
  rw [Node.ofCount, Nat.min_eq_left h]

/-- Printing, printing a line and turning into a string agree. They refuse the same values. For all
others, what is written is the text of the string, which is its bytes where these are well-formed. -/
theorem printing_agrees {config : Config} {ctx : Context} (hr : Reachable config ctx) {node : Node}
    (hb : ctx.heap.Buffers node) :
    (∀ w expected found,
      ((∃ c, (Mutator.toText node).run.run ctx = .ok (.error (.typeMismatch expected found), c)) ↔
        (ctx.heap.print node w).1 = .error (.typeMismatch expected found)) ∧
      ((ctx.heap.print node w).1 = .error (.typeMismatch expected found) ↔
        (ctx.heap.printLine node w).1 = .error (.typeMismatch expected found))) ∧
    ((∀ w expected found, (ctx.heap.print node w).1 ≠ .error (.typeMismatch expected found)) →
      ∃ text, Emits (ctx.heap.print node) (Utf8.encode text) ∧
        Emits (ctx.heap.printLine node) ((Utf8.encode text).push 10) ∧
        ∀ s c, (Mutator.toText node).run.run ctx = .ok (.ok s, c) →
          ∃ bytes, c.heap.stringBytes s = .ok bytes ∧ c.heap.stringText s = .ok text ∧
            ((ByteArray.mk bytes).IsValidUTF8 →
              ctx.heap.print node {} = (.ok (.integer bytes.size), bytes) ∧
              ctx.heap.printLine node {} = (.ok (.integer (bytes.size + 1 : Nat)), bytes.push 10))) := by
  refine ⟨fun w expected found => ⟨?_, ?_⟩, fun haccepted => ?_⟩
  · rw [Mutator.toText_typeMismatch hr.wellFormed]
    exact (Heap.printWith_typeMismatch "" w expected found).symm
  · exact (Heap.printWith_typeMismatch "" w expected found).trans
      (Heap.printWith_typeMismatch "\n" w expected found).symm
  · obtain ⟨text, htext⟩ := Heap.render_of_buffers hb fun x k he =>
      haccepted {} x k ((Heap.printWith_typeMismatch "" {} x k).mpr he)
    have hprint : Emits (ctx.heap.print node) (Utf8.encode text) := by
      have h := Heap.emits_printWith htext ""
      rwa [String.append_empty] at h
    have hline : Emits (ctx.heap.printLine node) ((Utf8.encode text).push 10) := by
      have h := Heap.emits_printWith htext "\n"
      rwa [Utf8.encode_append_newline] at h
    refine ⟨text, hprint, hline, fun s c hrun => ?_⟩
    have hs : c.heap.stringText s = .ok text := (Mutator.toText_renders hr.wellFormed hrun).trans htext
    have hr' : Reachable config c := .step (.act (.toText node)) hr (Event.run_eq_ok (bind_map_left ..) hrun)
    obtain ⟨bytes, hbytes, hdecode⟩ := Heap.stringText_eq_ok hs
    refine ⟨bytes, hbytes, hs, fun hvalid => ?_⟩
    -- In well-formed bytes there is nothing to replace, so they are the bytes of the text.
    have hencode : Utf8.encode text = bytes := by rw [← hdecode, Utf8.encode_decodeLossy hvalid]
    have hcount := hr'.stringBytes_lt hbytes
    rw [hencode] at hprint hline
    have hp := hprint.unlimited {} rfl
    have hl := hline.unlimited {} rfl
    rw [Node.ofCount_of_le (by omega)] at hp
    rw [Array.size_push, Node.ofCount_of_le hcount] at hl
    exact ⟨hp, hl⟩

/-- One writer stops inside the only character of this string, the other right before the newline. -/
theorem printing_agrees_cut_short :
    ∃ start ctx : Context, Context.ofConfig { arenaBytes := 80, stackSlots := 4 } = .ok start ∧
      start.after [.act (.newString "é" (1 : Nat))] = ctx ∧
      ctx.heap.print (.string 2 ⟨0, 1⟩) {} = (.ok (.integer 2), #[0xC3, 0xA9]) ∧
      ctx.heap.print (.string 2 ⟨0, 1⟩) { room := some 1, stalls := true } =
        (.error (.output .stalled), #[0xC3]) ∧
      ctx.heap.printLine (.string 2 ⟨0, 1⟩) { room := some 2 } =
        (.error (.output .closed), #[0xC3, 0xA9]) := by
  obtain ⟨start, hstart, hbytes⟩ : ∃ start,
      Context.ofConfig { arenaBytes := 80, stackSlots := 4 } = .ok start ∧
      (start.after [.act (.newString "é" (1 : Nat))]).heap.bytes ⟨0, 1⟩ = .ok #[0xC3, 0xA9] :=
    ⟨_, rfl, by cbv⟩
  have hr := (Reachable.start hstart).after [.act (.newString "é" (1 : Nat))]
  have hbuffer : Heap.Buffers _ (.string 2 ⟨0, 1⟩) := ⟨_, hbytes, Nat.le_refl 2⟩
  obtain ⟨hrejects, haccepts⟩ := printing_agrees hr hbuffer
  obtain ⟨text, hprint, hline, hstring⟩ := haccepts fun w expected found he => by
    obtain ⟨c, hrun⟩ := (hrejects w expected found).1.mpr he
    simp [Mutator.run_toText_string] at hrun
  obtain ⟨bytes, hs, _, hvalid⟩ := hstring _ _ (Mutator.run_toText_string 2 ⟨0, 1⟩)
  rw [Heap.stringBytes_of_bytes hbytes (Nat.le_refl 2)] at hs
  obtain rfl := Except.ok.inj hs
  obtain ⟨hwhole, _⟩ := hvalid ⟨['é'], by rfl⟩
  have htext : Utf8.encode text = #[0xC3, 0xA9] :=
    congrArg Prod.snd ((hprint.unlimited {} rfl).symm.trans hwhole)
  rw [htext] at hprint hline
  refine ⟨start, _, hstart, rfl, hwhole, ?_, ?_⟩
  · exact Prod.ext ((hprint.fails _ 1 rfl).mpr (by decide)) (hprint.received _ 1 rfl)
  · exact Prod.ext ((hline.fails _ 2 rfl).mpr (by decide)) (hline.received _ 2 rfl)

end GenerationalHeap
