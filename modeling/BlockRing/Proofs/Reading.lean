import BlockRing.Proofs.Numerals
import BlockRing.Proofs.Removal

/-!
# Reading at any offset

An offset may be asked for whatever lies there: the bytes of a payload can spell a size as well as a header does, and so
can bytes that no block uses any more.

- The bytes from an offset on describe a block if they begin with its size and the block has room for this size and ends
  inside the buffer (`Buffer.Describes`). Just these blocks are found (`Block.at?_eq_some_iff_describes`).
- An offset is refused for the first of three reasons that holds: there is no entry, it is 0, or it lies beyond the
  buffer (`checkOffset_cases`).
- **Reading is safe at every offset** (`get_is_safe`): the reply is the refusal of the offset, that no block is
  described there, or the bytes of the described block behind its size. Every entry of the queue is read by its offset.
-/

namespace BlockRing

/-! ## What the bytes at an offset describe -/

namespace Buffer

/-- All bytes from an offset on. -/
def onward (b : Buffer) (offset : Nat) : List UInt8 := b.bytes.toList.drop offset

/-- The bytes from an offset on begin with the size of a block, which has room for this size and ends inside the
buffer. -/
structure Describes (b : Buffer) (offset size header : Nat) : Prop where
  reads_size : Varint.decode? (b.onward offset) = some (size, header)
  header_pos : 0 < header
  header_le : header ≤ Varint.maxWidth
  header_le_size : header ≤ size
  stop_le_size : offset + size ≤ b.size

theorem window_eq_take (b : Buffer) (offset limit : Nat) : b.window offset limit = (b.onward offset).take limit := by
  apply List.ext_getElem?
  intro i
  rw [getElem?_window, List.getElem?_take, onward, List.getElem?_drop, Array.getElem?_toList, get?]

end Buffer

/-- Bytes behind the limit are never looked at. -/
theorem Varint.decodeWithin_take_limit (limit : Nat) (xs : List UInt8) :
    decodeWithin limit (xs.take limit) = decodeWithin limit xs := by
  induction limit generalizing xs with
  | zero => rfl
  | succ limit ih =>
    cases xs with
    | nil => rfl
    | cons x xs => rw [List.take_succ_cons, decodeWithin, decodeWithin, ih]

/-- A size is read from the bytes at its offset on as it is from the first ten of them. -/
theorem Varint.decode?_window (b : Buffer) (offset : Nat) :
    decode? (b.window offset maxWidth) = decode? (b.onward offset) := by
  rw [decode?, decode?, Buffer.window_eq_take, decodeWithin_take_limit]

/-- **The blocks that are found are those that the bytes describe.** -/
theorem Block.at?_eq_some_iff_describes {b : Buffer} {offset size header : Nat} :
    at? b offset = some { offset, header, size } ↔ b.Describes offset size header := by
  rw [at?_eq_some_iff, Varint.decode?_window]
  constructor
  · rintro ⟨_, hd, hw, hs⟩
    obtain ⟨hn, hm, _⟩ := Varint.decode?_eq_some_iff.mp hd
    exact ⟨hd, hn.pos, hm, hw, hs⟩
  · intro h
    exact ⟨rfl, h.reads_size, h.header_le_size, h.stop_le_size⟩

/-- No block is found just if none is described. -/
theorem Block.at?_eq_none_iff_describes {b : Buffer} {offset : Nat} :
    at? b offset = none ↔ ∀ size header, ¬ b.Describes offset size header := by
  constructor
  · intro h size header hd
    rw [at?_eq_some_iff_describes.mpr hd] at h
    cases h
  · intro hno
    cases h : at? b offset with
    | none => rfl
    | some block =>
      obtain rfl := offset_of_at? h
      exact absurd (at?_eq_some_iff_describes.mp h) (hno _ _)

namespace Queue

variable {q : Queue}

/-! ## Replies -/

/-- **Why an offset is refused**: for the first reason that holds. -/
theorem checkOffset_cases (q : Queue) (offset : Nat) :
    (q.checkOffset offset = .error .empty ↔ q.len = 0) ∧
    (q.checkOffset offset = .error .reservedOffset ↔ q.len ≠ 0 ∧ offset = 0) ∧
    (q.checkOffset offset = .error (.beyondBuffer offset q.capacity) ↔
      q.len ≠ 0 ∧ offset ≠ 0 ∧ q.capacity ≤ offset) ∧
    (q.checkOffset offset = .ok () ↔ q.len ≠ 0 ∧ offset ≠ 0 ∧ offset < q.capacity) := by
  refine ⟨?_, ?_, ?_, checkOffset_eq_ok_iff⟩
  all_goals
    unfold checkOffset
    grind

/-- What is refused is read with the same refusal. -/
theorem get_of_refused {offset : Nat} {refusal : Refusal} (h : q.checkOffset offset = .error refusal) :
    q.get offset = .ok (.error refusal) := by
  rw [get, locate, h]
  rfl

/-- Where no block is described the bytes are malformed. -/
theorem get_of_not_describes {offset : Nat} (h : q.checkOffset offset = .ok ())
    (hno : ∀ size header, ¬ q.buffer.Describes offset size header) :
    q.get offset = .ok (.error (.malformed offset)) := by
  rw [get, locate, h, Block.at?_eq_none_iff_describes.mpr hno]
  rfl

/-- Where a block is described its bytes behind the size are read. -/
theorem get_of_describes {offset size header : Nat} (h : q.checkOffset offset = .ok ())
    (hd : q.buffer.Describes offset size header) :
    q.get offset = .ok (.ok (q.buffer.bytes.extract (offset + header) (offset + size)).toList) := by
  have hat := Block.at?_eq_some_iff_describes.mpr hd
  rw [get, locate_eq_ok_iff.mpr ⟨h, hat⟩]
  exact congrArg (Except.ok <$> ·) (Block.payload_eq_ok hat)

/-- **Reading is safe at every offset.** It replies and changes nothing. An offset that is refused is read with the same
refusal, and offsets are refused in a fixed order of reasons. Every other one is read as malformed, if no block is
described there, or as the bytes of the described block behind its size, all of which lie inside the buffer. The entries
of the queue are all read by their offsets. -/
theorem get_is_safe (hq : Reachable q) (offset : Nat) :
    (∃ answer, q.get offset = .ok answer ∧ q.ask (.get offset) = .ok (q.unchanged (Reply.of .payload answer)) ∧
      (∀ refusal, q.checkOffset offset = .error refusal → answer = .error refusal) ∧
      (q.checkOffset offset = .ok () →
        (answer = .error (.malformed offset) ∧ ∀ size header, ¬ q.buffer.Describes offset size header) ∨
        ∃ size header, q.buffer.Describes offset size header ∧
          answer = .ok (q.buffer.bytes.extract (offset + header) (offset + size)).toList)) ∧
    ((q.checkOffset offset = .error .empty ↔ q.len = 0) ∧
      (q.checkOffset offset = .error .reservedOffset ↔ q.len ≠ 0 ∧ offset = 0) ∧
      (q.checkOffset offset = .error (.beyondBuffer offset q.capacity) ↔
        q.len ≠ 0 ∧ offset ≠ 0 ∧ q.capacity ≤ offset) ∧
      (q.checkOffset offset = .ok () ↔ q.len ≠ 0 ∧ offset ≠ 0 ∧ offset < q.capacity)) ∧
    ∃ entries, q.toList = .ok entries ∧ entries.length = q.len ∧
      ∀ entry ∈ entries, q.get entry.offset = .ok (.ok entry.payload) := by
  refine ⟨?_, checkOffset_cases q offset, ?_⟩
  · obtain ⟨answer, ha⟩ := q.get_eq_ok offset
    refine ⟨answer, ha, by rw [ask, ha]; rfl, fun refusal h => ?_, fun h => ?_⟩
    · exact Except.ok.inj (ha.symm.trans (get_of_refused h))
    · by_cases hd : ∃ size header, q.buffer.Describes offset size header
      · obtain ⟨size, header, hd⟩ := hd
        exact .inr ⟨size, header, hd, Except.ok.inj (ha.symm.trans (get_of_describes h hd))⟩
      · have hno : ∀ size header, ¬ q.buffer.Describes offset size header := fun size header h => hd ⟨size, header, h⟩
        exact .inl ⟨Except.ok.inj (ha.symm.trans (get_of_not_describes h hno)), hno⟩
  · obtain ⟨shape, blocks, h⟩ := hq.layout
    refine ⟨_, toList_of_layout h, ?_, fun entry hm => (get_of_mem_entries h entry hm).2.2⟩
    rw [List.length_map]
    exact h.count_eq.symm

/-- The payload of the only entry spells a block itself, with more groups than its size needs. It is read as a block in
the midst of that entry; from its second byte on it spells a size that no buffer has room for. -/
theorem get_is_safe_inside_payload : ∃ q : Queue, Reachable q ∧ q.buffer.Describes 2 12 10 ∧
    q.get 2 = .ok (.ok [104, 105]) ∧ q.get 3 = .ok (.error (.malformed 3)) ∧
    ∃ entries, q.toList = .ok entries ∧ entries.length = 1 ∧
      ∀ entry ∈ entries, q.get entry.offset = .ok (.ok entry.payload) := by
  let q : Queue := {
    buffer := ⟨#[0, 13, 0x8c, 0x80, 0x80, 0x80, 0x80, 0x80, 0x80, 0x80, 0x80, 0x02, 104, 105, 0, 0], by decide⟩
    cursors := { head := 1, tail := 14, margin := 14, count := 1 } }
  have hq : Reachable q := reachable_iff.mpr ⟨16, 0, false, { buffer := ⟨Array.replicate 16 0, by decide⟩ },
    [.push [0x8c, 0x80, 0x80, 0x80, 0x80, 0x80, 0x80, 0x80, 0x80, 0x02, 104, 105]], by cbv, by cbv⟩
  have hd : q.buffer.Describes 2 12 10 := Block.at?_eq_some_iff_describes.mp (by decide)
  obtain ⟨⟨answer, hget, _, _, hread⟩, _, hentries⟩ := get_is_safe hq 2
  obtain ⟨⟨answer', hget', _, _, hread'⟩, _⟩ := get_is_safe hq 3
  refine ⟨q, hq, hd, ?_, ?_, hentries⟩
  · rcases hread (by decide) with ⟨_, hno⟩ | ⟨size, header, hd', rfl⟩
    · exact absurd hd (hno _ _)
    · cases hd.reads_size.symm.trans hd'.reads_size
      exact hget
  · rcases hread' (by decide) with ⟨rfl, _⟩ | ⟨size, header, hd', _⟩
    · exact hget'
    · cases (Block.at?_eq_some_iff_describes.mpr hd').symm.trans (show Block.at? q.buffer 3 = none by decide)

end Queue
end BlockRing
