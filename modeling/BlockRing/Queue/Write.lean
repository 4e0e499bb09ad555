import BlockRing.Queue.Basic

/-!
# Writing blocks

A block is written at the tail, its size first and then its payload, and the cursors take it in. The size of the buffer,
the ceiling and the reporting stay as they are (`capacity_writeBlock`, `writeBlock_keeps`).
-/

namespace BlockRing
namespace Queue

/-- Writes a block of `size` bytes at the tail. -/
def writeBlock (q : Queue) (size : Nat) (payload : Payload) : Except Fault Queue := do
  let header ← Varint.header size
  let start := q.cursors.tail
  let payloadStart ← Word.add start header.length
  let stop ← Word.add start size
  let buffer ← q.buffer.replace start payloadStart header
  let buffer ← buffer.replace payloadStart stop payload
  let cursors ← q.cursors.append stop
  return { q with buffer, cursors }

/-- A block is written inside the buffer. -/
theorem capacity_writeBlock {q r : Queue} {size : Nat} {payload : Payload} (h : q.writeBlock size payload = .ok r) :
    r.capacity = q.capacity := by
  simp only [writeBlock, bind, Except.bind] at h
  iterate 3 (split at h; · cases h)
  split at h; · cases h
  rename_i written hw
  split at h; · cases h
  rename_i filled hf
  split at h <;> cases h
  show filled.size = q.buffer.size
  rw [Buffer.size_replace hf, Buffer.size_replace hw]

/-- Writing a block changes only the buffer and the cursors. -/
theorem writeBlock_keeps {q r : Queue} {size : Nat} {payload : Payload} (h : q.writeBlock size payload = .ok r) :
    r.ceiling = q.ceiling ∧ r.reporting = q.reporting := by
  simp only [writeBlock, bind, Except.bind] at h
  iterate 6 (split at h; · cases h)
  cases h
  exact ⟨rfl, rfl⟩

end Queue
end BlockRing
