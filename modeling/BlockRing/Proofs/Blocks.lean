import BlockRing.Block
import BlockRing.Proofs.Bytes
import BlockRing.Proofs.Varint

/-!
# Blocks as bytes

- A payload below `Payload.limit` gets a header of just the width that the size of its block takes
  (`width_add_headerWidth`); any other one gets a header that is too short (`headerWidth_lt_width`).
- A block is found wherever its own bytes are found (`at?_of_agree`), with the same contents (`contents_of_agree`).
- The bytes of a block, written anywhere inside a buffer, are found there (`at?_fill`, `contents_fill`). To be found, a
  block needs no more than its size (`at?_of_window`).
-/

namespace BlockRing

/-- The length from which on a payload is too long for its header. -/
def Payload.limit : Nat := 2 ^ 35 - 5

namespace Block

variable {b c : Buffer} {offset : Nat} {block : Block}

/-! ## The size of a block -/

/-- A payload that is short enough gets a header of the width that the size of its block takes. -/
theorem width_add_headerWidth {length : Nat} (h : length < Payload.limit) :
    Varint.width (length + headerWidth length) = headerWidth length := by
  unfold Payload.limit at h
  unfold headerWidth
  split
  · exact Varint.width_of_lt (by omega)
  split
  · exact (Varint.width_eq_iff (k := 1) (by omega)).mpr (by omega)
  split
  · exact (Varint.width_eq_iff (k := 2) (by omega)).mpr (by omega)
  split
  · exact (Varint.width_eq_iff (k := 3) (by omega)).mpr (by omega)
  · exact (Varint.width_eq_iff (k := 4) (by omega)).mpr (by omega)

/-- A payload that is too long gets a header that is too short. -/
theorem headerWidth_lt_width {length : Nat} (h : Payload.limit ≤ length) :
    headerWidth length < Varint.width (length + headerWidth length) := by
  unfold Payload.limit at h
  have hw : headerWidth length = 5 := by unfold headerWidth; grind
  have := Varint.width_le_iff 4 (length + 5)
  rw [hw]
  omega

theorem headerWidth_bounds (length : Nat) : 0 < headerWidth length ∧ headerWidth length ≤ 5 := by
  unfold headerWidth; grind

theorem eq_of_sizeFor {length need : Nat} (h : sizeFor length = .ok need) : need = length + headerWidth length := by
  unfold sizeFor Word.add at h
  split at h <;> cases h
  rfl

theorem sizeFor_eq_ok {length : Nat} (h : length < Payload.limit) :
    sizeFor length = .ok (length + headerWidth length) := by
  have := headerWidth_bounds length
  unfold Payload.limit at h
  exact Word.add_eq_ok (by unfold Word.bound; omega)

/-! ## Finding a block by its own bytes -/

/-- The payload that a block holds. -/
def contents (b : Buffer) (block : Block) : Payload := b.window block.payloadStart (block.size - block.header)

/-- The entry that a block holds. -/
def entry (b : Buffer) (block : Block) : Entry := { offset := block.offset, payload := block.contents b }

theorem offset_of_at? (h : at? b offset = some block) : block.offset = offset := (at?_eq_some_iff.mp h).1

theorem header_le_size (h : at? b offset = some block) : block.header ≤ block.size := (at?_eq_some_iff.mp h).2.2.1

theorem stop_le_size (h : at? b offset = some block) : block.stop ≤ b.size := (at?_eq_some_iff.mp h).2.2.2

theorem header_pos (h : at? b offset = some block) : 0 < block.header :=
  (Varint.decode?_take (at?_eq_some_iff.mp h).2.1).1

/-- A block takes at least one byte. -/
theorem offset_lt_stop (h : at? b offset = some block) : offset < block.stop := by
  have := offset_of_at? h
  have := header_pos h
  have := header_le_size h
  unfold stop
  omega

theorem payload_eq_contents (h : at? b offset = some block) : payload b block = .ok (block.contents b) := by
  have hw := header_le_size h
  rw [payload_eq_ok h, contents, Buffer.window]
  congr 3
  unfold payloadStart stop
  omega

/-- A block is found wherever its bytes are found. -/
theorem at?_of_agree (h : at? b offset = some block) (ha : b.Agree c offset block.stop) (hs : block.stop ≤ c.size) :
    at? c offset = some block := by
  obtain ⟨ho, hd, hw, _⟩ := at?_eq_some_iff.mp h
  refine at?_eq_some_iff.mpr ⟨ho, ?_, hw, hs⟩
  obtain ⟨_, hl, hr⟩ := Varint.decode?_take hd
  have hlim : block.header ≤ Varint.maxWidth := by rw [Buffer.length_window] at hl; omega
  apply hr
  rw [Buffer.take_window _ _ hlim, Buffer.take_window _ _ hlim]
  exact (ha.mono (by omega) (by unfold stop; omega)).window_eq

theorem contents_of_agree (h : at? b offset = some block) (ha : b.Agree c offset block.stop) :
    block.contents c = block.contents b := by
  have ho := offset_of_at? h
  have hw := header_le_size h
  exact (ha.mono (by unfold payloadStart; omega) (by unfold payloadStart stop; omega)).window_eq

/-! ## Writing a block -/

/-- The bytes of a block of `size` bytes. -/
def bytes (size : Nat) (payload : Payload) : List UInt8 := Varint.encode size ++ payload

/-- The block of `size` bytes that is written at an offset. -/
def written (offset size : Nat) : Block := { offset, header := Varint.width size, size }

/-- A block is found wherever its size is written, whatever the other bytes are. -/
theorem at?_of_window {size : Nat} (hw : Varint.width size ≤ size) (hb : offset + size ≤ b.size)
    (he : b.window offset (Varint.width size) = Varint.encode size) : at? b offset = some (written offset size) := by
  have hs : size < Word.bound := Nat.lt_of_le_of_lt (Nat.le_add_left _ _) (Buffer.lt_bound hb)
  refine at?_eq_some_iff.mpr ⟨rfl, ?_, hw, hb⟩
  have ht := Buffer.take_window b offset (Varint.width_le hs)
  rw [← List.take_append_drop (Varint.width size) (b.window offset Varint.maxWidth), ht, he]
  exact Varint.decode?_encode_append hs _

section Fill

variable {size : Nat} {payload : Payload} (hl : payload.length + Varint.width size = size)
include hl

theorem length_bytes : (bytes size payload).length = size := by
  rw [bytes, List.length_append, ← Varint.width]
  omega

theorem window_written (hb : offset + size ≤ b.size) :
    (b.fill offset (bytes size payload)).window offset size = bytes size payload := by
  have hlen := length_bytes hl
  have hx : (b.fill offset (bytes size payload)).window offset (bytes size payload).length = bytes size payload :=
    Buffer.window_fill (by omega)
  rwa [hlen] at hx

/-- A block is found where it was written. -/
theorem at?_fill (hb : offset + size ≤ b.size) :
    at? (b.fill offset (bytes size payload)) offset = some (written offset size) := by
  have hw : Varint.width size ≤ size := by omega
  refine at?_of_window hw (by rw [Buffer.size_fill]; exact hb) ?_
  rw [← Buffer.take_window _ _ hw, window_written hl hb, bytes]
  exact List.take_left' rfl

/-- A written block holds its payload. -/
theorem contents_fill (hb : offset + size ≤ b.size) :
    (written offset size).contents (b.fill offset (bytes size payload)) = payload := by
  have hx := window_written hl hb
  simp only [contents, written, payloadStart]
  rw [← Buffer.drop_window, hx, bytes]
  exact List.drop_left' rfl

end Fill

end Block
end BlockRing
