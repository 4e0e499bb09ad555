import BlockRing.Proofs.Blocks
import BlockRing.Proofs.Numerals

/-!
# Written numbers

What is written for a number is a numeral for it (`spells_encode`), and no numeral for it is shorter
(`Spells.width_le`). It takes at most ten bytes for a machine word and reads back whatever follows it. As the size of a
block it leaves the block room for itself, so any free stretch can be covered by one block, and this block is found by
its written size alone, whatever its other bytes are. **All this holds of every machine word**
(`encode_reads_back_shortest`), also of those that are no size of a payload's block and of which only a covered gap
makes use, like 128 (`encode_reads_back_shortest_gap`).
-/

namespace BlockRing
namespace Varint

/-- The bytes are a numeral for a number, with nothing behind it. -/
def Spells (xs : List UInt8) (n : Nat) : Prop := Delimits xs xs.length ∧ n = valueOf xs xs.length

variable {xs : List UInt8} {n : Nat}

/-- What is written for a number is a numeral for it. -/
theorem spells_encode (n : Nat) : Spells (encode n) n := by
  have hread := decodeWithin_encode_append (Nat.le_refl (width n)) []
  rw [List.append_nil] at hread
  obtain ⟨hd, _, hv⟩ := decodeWithin_eq_some_iff.mp hread
  exact ⟨hd, hv⟩

/-- No numeral for a number is shorter than the written one. -/
theorem Spells.width_le (h : Spells xs n) : width n ≤ xs.length := by
  obtain ⟨hd, hv⟩ := h
  have hlt := valueOf_lt xs xs.length
  rw [← hv, Nat.pow_mul, ← Nat.sub_add_cancel hd.pos] at hlt
  have hw := (width_le_iff (xs.length - 1) n).mpr hlt
  rwa [Nat.sub_add_cancel hd.pos] at hw

/-- **What is written for a machine word.** It has at least one byte and at most ten; it is a numeral for the word, and
there is no shorter one; and it reads back, whatever follows it. If the word is the size of a block, it fits into the
block, and wherever a buffer has room for the block and holds these bytes a block of that size is found, whose payload
is all that lies behind them. -/
theorem encode_reads_back_shortest (hn : n < Word.bound) :
    (0 < (encode n).length ∧ (encode n).length ≤ maxWidth) ∧
      (Spells (encode n) n ∧ ∀ xs, Spells xs n → (encode n).length ≤ xs.length) ∧
      (∀ rest, decode? (encode n ++ rest) = some (n, (encode n).length)) ∧
      (0 < n → (encode n).length ≤ n ∧ ∀ (b : Buffer) (offset : Nat), offset + n ≤ b.size →
        b.window offset (encode n).length = encode n → ∃ block, Block.at? b offset = some block ∧ block.size = n ∧
          block.payloadStart = offset + (encode n).length ∧ block.stop = offset + n ∧
          block.payload b = .ok (b.bytes.extract (offset + (encode n).length) (offset + n)).toList) := by
  refine ⟨⟨width_pos n, width_le hn⟩, ⟨spells_encode n, fun xs h => h.width_le⟩, decode?_encode_append hn, fun h0 => ?_⟩
  have hw : width n ≤ n := width_le_self h0
  refine ⟨hw, fun b offset hb he => ?_⟩
  have hat : Block.at? b offset = some (Block.written offset n) := Block.at?_of_window hw hb he
  exact ⟨_, hat, rfl, rfl, rfl, Block.payload_eq_ok hat⟩

/-- A block of 128 bytes with its size in two of them, which no payload has: that of 126 bytes has a block of 127, and
that of 127 bytes one of 129. -/
theorem encode_reads_back_shortest_gap : Block.sizeFor 126 = .ok 127 ∧ Block.sizeFor 127 = .ok 129 ∧
    128 < Word.bound ∧ encode 128 = [0x80, 0x01] ∧ decode? [0x80, 0x01, 0xff] = some (128, 2) ∧
    ∃ b : Buffer, 1 + 128 ≤ b.size ∧ b.window 1 2 = encode 128 ∧ ∃ block, Block.at? b 1 = some block ∧
      block.size = 128 ∧ block.payloadStart = 3 ∧ block.stop = 129 := by
  have he : encode 128 = [0x80, 0x01] := by
    rw [encode_of_le (by decide), encode_of_lt (by decide)]
    rfl
  obtain ⟨b, hb, hw⟩ : ∃ b : Buffer, 1 + 128 ≤ b.size ∧ b.window 1 2 = [0x80, 0x01] :=
    ⟨⟨#[0, 0x80, 0x01] ++ Array.replicate 126 7, by decide +kernel⟩, by decide +kernel, by decide +kernel⟩
  obtain ⟨_, _, hread, hblock⟩ := encode_reads_back_shortest (show 128 < Word.bound by decide)
  rw [he] at hread hblock ⊢
  obtain ⟨block, hat, hsize, hstart, hstop, _⟩ := (hblock (by decide)).2 b 1 hb hw
  exact ⟨rfl, rfl, by decide, rfl, hread [0xff], b, hb, hw, block, hat, hsize, hstart, hstop⟩

end Varint
end BlockRing
