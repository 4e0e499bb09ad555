import BlockRing.Queue.Growth

/-!
# Appending entries

A new entry goes where the cursors have room for it (`Cursors.slot?`). Without room the buffer grows, unless the entry
would take the queue to its ceiling: then the entry is refused, and nothing changes. The reply to an entry that was
taken is the offset of its block.
-/

namespace BlockRing
namespace Queue

/-- The ceiling, if a block of `need` bytes that has no room would take the buffer there or beyond. -/
def ceilingMet? (q : Queue) (need : Nat) : Option Nat :=
  q.ceiling.filter (· ≤ Word.addSat q.capacity need)

/-- Writes the entry at the tail, in a block of `need` bytes. -/
def appendAtTail (q : Queue) (need : Nat) (payload : Payload) : Except Fault Queue := do
  let q ← q.writeBlock need payload
  q.cursors.audit q.capacity
  return q

/-- Appends an entry. The reply is its offset. -/
def push (q : Queue) (payload : Payload) : Except Fault (Outcome (Except Refusal Nat)) := do
  let need ← Block.sizeFor payload.length
  match ← q.cursors.slot? q.capacity need with
  | some offset =>
    let pushed ← { q with cursors.tail := offset : Queue }.appendAtTail need payload
    return { reply := .ok offset, queue := pushed }
  | none =>
    match q.ceilingMet? need with
    | some ceiling => return { reply := .error (.noRoom need q.capacity ceiling), queue := q }
    | none =>
      let grown ← q.grow need
      let offset := grown.queue.cursors.tail
      let pushed ← grown.queue.appendAtTail need payload
      return { reply := .ok offset, queue := pushed, reports := grown.reports }

end Queue
end BlockRing
