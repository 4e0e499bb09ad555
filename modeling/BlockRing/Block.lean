import BlockRing.Buffer
import BlockRing.Varint

/-!
# Blocks

An entry lies in a buffer as a block: its size as a variable-width number, which counts the bytes of that number too,
and then its payload. Offset 0 holds no block, so 0 can stand for "no entry".

`sizeFor` gives the block size of a payload. `at?` finds the block at any offset of any buffer: it is refused if the
size is unreadable, smaller than its own header or larger than what is left of the buffer (`at?_eq_some_iff`). So the
payload of a block that was found can be read (`payload_eq_ok`).
-/

namespace BlockRing

/-- The bytes of an entry. -/
abbrev Payload := List UInt8

/-- An entry and where its block lies. -/
structure Entry where
  offset : Nat
  payload : Payload
  deriving DecidableEq, Repr

/-- Where a block lies: `size` bytes from `offset` on, the first `header` of which hold the size. -/
structure Block where
  offset : Nat
  header : Nat
  size : Nat
  deriving DecidableEq, Repr

namespace Block

/-- The first offset at which a block can lie. -/
def firstOffset : Nat := 1

/-- The size of the shortest block, that of an empty payload. -/
def minSize : Nat := 1

/-- The header width of a payload: the fewest bytes that can hold the size of both, but never more than five. -/
def headerWidth (length : Nat) : Nat :=
  if length + 1 < 1 <<< 7 then 1
  else if length + 2 < 1 <<< 14 then 2
  else if length + 3 < 1 <<< 21 then 3
  else if length + 4 < 1 <<< 28 then 4
  else 5

/-- The size of the block of a payload. -/
def sizeFor (length : Nat) : Except Fault Nat := Word.add length (headerWidth length)

/-- The offset behind a block. -/
def stop (block : Block) : Nat := block.offset + block.size

/-- The offset of a block's payload. -/
def payloadStart (block : Block) : Nat := block.offset + block.header

/-- The block at an offset, if the bytes there describe one inside the buffer. -/
def at? (b : Buffer) (offset : Nat) : Option Block := do
  let (size, header) ← Varint.decode? (b.window offset Varint.maxWidth)
  if header ≤ size ∧ offset + size ≤ b.size then some { offset, header, size } else none

/-- The payload of a block. -/
def payload (b : Buffer) (block : Block) : Except Fault Payload := b.slice block.payloadStart block.stop

theorem sizeFor_zero : sizeFor 0 = .ok minSize := rfl

/-- What it takes for the bytes at an offset to be a block. -/
theorem at?_eq_some_iff {b : Buffer} {offset : Nat} {block : Block} :
    at? b offset = some block ↔
      block.offset = offset ∧ Varint.decode? (b.window offset Varint.maxWidth) = some (block.size, block.header) ∧
        block.header ≤ block.size ∧ block.stop ≤ b.size := by
  unfold at? stop
  rcases Varint.decode? (b.window offset Varint.maxWidth) with _ | ⟨size, header⟩
  · simp
  · obtain ⟨o, h, s⟩ := block
    simp only [Option.bind_eq_bind, Option.bind_some, Option.ite_none_right_eq_some, Option.some.injEq, mk.injEq,
      Prod.mk.injEq]
    constructor
    · rintro ⟨⟨h1, h2⟩, rfl, rfl, rfl⟩
      exact ⟨rfl, ⟨rfl, rfl⟩, h1, h2⟩
    · rintro ⟨rfl, ⟨rfl, rfl⟩, h1, h2⟩
      exact ⟨⟨h1, h2⟩, rfl, rfl, rfl⟩

/-- The payload of a block that was found can be read. -/
theorem payload_eq_ok {b : Buffer} {offset : Nat} {block : Block} (h : at? b offset = some block) :
    payload b block = .ok (b.bytes.extract block.payloadStart block.stop).toList := by
  obtain ⟨_, _, hw, hs⟩ := at?_eq_some_iff.mp h
  exact Buffer.slice_eq_ok (by unfold payloadStart stop; omega) hs

end Block
end BlockRing
