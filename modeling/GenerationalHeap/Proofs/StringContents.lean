import GenerationalHeap.Proofs.Lifetimes
import GenerationalHeap.Proofs.Decoding

namespace GenerationalHeap

namespace Heap

variable {heap : Heap} {h : Handle} {length : Nat} {buffer : Array UInt8}

theorem stringBytes_of_bytes (hb : heap.bytes h = .ok buffer) (hle : length ≤ buffer.size) :
    heap.stringBytes (.string length h) = .ok (buffer.extract 0 length) := by
  simp only [stringBytes, hb, bind, Except.bind, if_pos hle]

theorem stringText_of_bytes {node : Node} {data : Array UInt8} (h : heap.stringBytes node = .ok data) :
    heap.stringText node = .ok (Utf8.decodeLossy data.toList) := by
  rw [stringText, h, Except.map]

/-- A buffer that holds the bytes of a text is read as that text. -/
theorem string_of_encoded {text : String} (hp : heap.payload? h = some (.bytes (Utf8.encode text))) :
    heap.stringBytes (.string text.utf8ByteSize h) = .ok (Utf8.encode text) ∧
      heap.stringText (.string text.utf8ByteSize h) = .ok text := by
  have hsize : text.utf8ByteSize = (Utf8.encode text).size := rfl
  have hbytes : heap.stringBytes (.string text.utf8ByteSize h) = .ok (Utf8.encode text) := by
    rw [stringBytes_of_bytes (bytes_eq_ok.mpr hp) (Nat.le_of_eq hsize), hsize, Array.extract_size]
  refine ⟨hbytes, ?_⟩
  rw [stringText_of_bytes hbytes, Utf8.decodeLossy_encode]

end Heap

namespace Mutator

variable {ctx : Context}

/-- A new string is as long as the bytes of its text, and its buffer holds them. It fails only where its
buffer is refused. -/
theorem leaves_newString (text : String) (hw : ctx.heap.WellFormed) :
    (newString text).Leaves ctx fun r c =>
      (∃ e, r = .error e ∧
        requestSize ctx.config.maxAllocationBytes .bytes text.utf8ByteSize = .error e) ∨
      ∃ h, r = .ok (.string text.utf8ByteSize h) ∧
        c.heap.payload? h = some (.bytes (Utf8.encode text)) := by
  have hallocate : (allocateBytes text.utf8ByteSize).Leaves ctx (Allocated ctx .bytes text.utf8ByteSize) :=
    fun _ _ hrun => ends_of_ok (allocate_ends ctx .bytes _) hrun
  refine hallocate.bind ?_ ?_
  · intro e c hfailed
    rcases hfailed with ⟨_, he, _, hrefused⟩ | ⟨_, _, he, _⟩
    · obtain rfl := Except.error.inj he
      exact .inl ⟨e, rfl, hrefused⟩
    · simp at he
  · intro h c₁ hallocated
    rcases hallocated with ⟨_, he, _⟩ | ⟨_, c₀, hh, hy, hserved⟩
    · simp at he
    obtain rfl := Except.ok.inj hh
    -- A collection may have come first; the buffer is new in the heap that it left.
    have hs := Context.sheltered_refl hw ctx.IsRoot
    obtain ⟨hs₀, _⟩ := hs.yielded (fun _ hg => hg) (fun _ hg => .inl hg) hy
    have hp : c₁.heap.payload? h = some (.fresh .bytes text.utf8ByteSize) := by
      rw [hserved.payload? hs₀.heap, if_pos rfl]
    have hwritten : (modifyBytes h fun _ => Utf8.encode text).run.run c₁ =
        .ok (.ok (), { c₁ with heap := c₁.heap.setPayload h.index (.bytes (Utf8.encode text)) }) := by
      rw [run_modifyBytes, Heap.modifyBytes, Heap.bytes_eq_ok.mpr hp]
      rfl
    intro r c₂ hlast
    rw [run_bind, hwritten] at hlast
    obtain ⟨rfl, rfl⟩ := Prod.mk.inj (Except.ok.inj hlast)
    refine .inr ⟨h, rfl, ?_⟩
    show (c₁.heap.setPayload _ _).payload? _ = _
    rw [Heap.payload?_setPayload hp, if_pos rfl]

theorem newString_creates {text : String} {s : Node} {c : Context} (hw : ctx.heap.WellFormed)
    (hrun : (newString text).run.run ctx = .ok (.ok s, c)) :
    ∃ h, s = .string text.utf8ByteSize h ∧ c.heap.payload? h = some (.bytes (Utf8.encode text)) := by
  rcases leaves_newString text hw _ _ hrun with ⟨_, he, _⟩ | ⟨h, hs, hp⟩
  · simp at he
  · exact ⟨h, Except.ok.inj hs, hp⟩

end Mutator

/-- A text can be read back from the string made of it: at once, and for as long as each collection
finds the buffer and nothing writes to it. -/
theorem strings_round_trip {config : Config} {ctx c : Context} (hr : Reachable config ctx) {text : String}
    {s : Node} (hnew : (Mutator.newString text).run.run ctx = .ok (.ok s, c)) :
    ∃ h, s = .string text.utf8ByteSize h ∧
      ∀ events, (∀ event ∈ events, event.target? ≠ some h) → ¬ c.Loses h events →
        (c.after events).heap.stringBytes s = .ok text.toUTF8.data ∧
        (c.after events).heap.stringText s = .ok text := by
  obtain ⟨h, rfl, hp⟩ := Mutator.newString_creates hr.wellFormed hnew
  -- One copy of a text is that text, so making the string is an event of the run.
  have hmade : (Event.act (.newString text (1 : Nat))).run.run.run ctx = .ok (.ok (), c) := by
    have hjoin : String.join (List.replicate 1 text) = text := by simp [String.join]
    refine Event.run_eq_ok ?_ (hjoin.symm ▸ hnew)
    exact bind_map_left ..
  have hr' : Reachable config c := .step _ hr hmade
  refine ⟨h, rfl, fun events htargets hkept => ?_⟩
  obtain ⟨q, hq, _, _, hsame⟩ := (hr'.kept_after events hp).resolve_right hkept
  rw [hsame htargets rfl] at hq
  exact Heap.string_of_encoded hq

/-- This text has a character of each width. Its buffer takes a slot that was in use before and outlives
two collections, the first of which promotes it. -/
theorem strings_round_trip_promoted :
    ∃ start c : Context, Context.ofConfig { arenaBytes := 80, stackSlots := 4 } = .ok start ∧
      (Mutator.newString "aé€𝄞").run.run (start.after [.act (.allocateBytes (9 : Nat)), .act .collect]) =
        .ok (.ok (.string 10 ⟨0, 2⟩), c) ∧
      (c.after [.act (.push (.string 10 ⟨0, 2⟩)), .act .collect, .act .collect]).heap.stringText
        (.string 10 ⟨0, 2⟩) = .ok "aé€𝄞" := by
  obtain ⟨start, hstart, hcheck⟩ : ∃ start,
      Context.ofConfig { arenaBytes := 80, stackSlots := 4 } = .ok start ∧
      ((Mutator.newString "aé€𝄞").run.run
        (start.after [.act (.allocateBytes (9 : Nat)), .act .collect])).toOption.any (fun p =>
          p.1 = .ok (.string 10 ⟨0, 2⟩) ∧
          p.2.pins ⟨0, 2⟩ [.act (.push (.string 10 ⟨0, 2⟩)), .act .collect, .act .collect]) = true :=
    ⟨_, rfl, by cbv⟩
  have hr := (Reachable.start hstart).after [.act (.allocateBytes (9 : Nat)), .act .collect]
  obtain ⟨⟨made, c⟩, hnew, hcheck⟩ := exists_ok_of_any hcheck
  obtain ⟨rfl, hpins⟩ := of_decide_eq_true hcheck
  obtain ⟨h, hs, hread⟩ := strings_round_trip hr hnew
  obtain ⟨_, rfl⟩ := Node.string.inj hs
  refine ⟨start, c, hstart, hnew, ?_⟩
  exact (hread _ (by simp [Event.target?, Action.target?]) (Context.not_loses_of_pins hpins)).2

end GenerationalHeap
