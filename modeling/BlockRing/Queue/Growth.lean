import BlockRing.Queue.Write

/-!
# Growing the buffer

A growing queue moves into a larger buffer, in which every block keeps its offset. Blocks that had wrapped around are
put in line: the free gap before the head is covered by a block of zeros, the first block of the buffer becomes the
oldest and the tail moves behind the last one. Thus the order of the entries changes: first those that had wrapped
around, then the covered gap, then the others.

`grownCapacity` is the size of the larger buffer: it is at least doubled, unless the ceiling is met.
-/

namespace BlockRing
namespace Queue

/-- The size of the buffer after a growth for a block of `need` bytes: twice the larger of that and the old size, but no
more than the ceiling. -/
def grownCapacity (q : Queue) (need : Nat) : Nat :=
  let wanted := Word.doubleSat (max q.capacity need)
  match q.ceiling with
  | none => wanted
  | some ceiling => min wanted ceiling

/-- Covers the free gap before the head, if there is one, by a block of zeros. -/
def coverGap (q : Queue) : Except Fault Queue :=
  if q.cursors.tail = q.cursors.head then .ok q
  else do
    let gap ← Word.sub q.cursors.head q.cursors.tail
    if gap < Block.minSize then throw (.gapTooShort gap)
    q.writeBlock gap (List.replicate (gap - Varint.width gap) 0)

/-- Puts blocks that have wrapped around in line. -/
def straighten (q : Queue) : Except Fault Queue := do
  let q ← q.coverGap
  return { q with cursors := q.cursors.putInLine }

/-- Moves the bytes below the margin into another buffer, and tells whether the blocks had to be put in line. -/
def moveInto (q : Queue) (buffer : Buffer) : Except Fault (Queue × Bool) :=
  if q.cursors.margin = Block.firstOffset then .ok ({ q with buffer }, false)
  else do
    let used ← q.buffer.slice 0 q.cursors.margin
    let buffer ← buffer.replace 0 q.cursors.margin used
    let q := { q with buffer }
    if q.cursors.tail ≤ q.cursors.head then return (← q.straighten, true)
    return (q, false)

/-- Grows the buffer to make room for a block of `need` bytes at the tail. -/
def grow (q : Queue) (need : Nat) : Except Fault (Outcome Unit) := do
  let capacity := q.grownCapacity need
  let buffer ← Buffer.allocate capacity
  let (moved, wrapped) ← q.moveInto buffer
  return {
    reply := ()
    queue := { moved with cursors.saturated := false }
    reports := q.reporting.reports { previousCapacity := q.capacity, capacity, wrapped } }

end Queue
end BlockRing
