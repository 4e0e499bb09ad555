import BlockRing.Block

/-!
# Cursors

Cursors say which bytes of a buffer are in use. The oldest block starts at `head`, the next one will be written at
`tail`, and no block reaches beyond `margin`. Where the head does not lie after the tail, the blocks lie in line from
head to tail. Otherwise they wrap around: the older ones lie from head to margin, the newer ones from the start of the
buffer to the tail. If those fill the gap before the head, head and tail meet as in an empty buffer, and only
`saturated` tells the two apart.

`slot?` finds the place for a new block, `append` and `release` are what the cursors do when a block is written at the
tail or removed at the head. A gap before the head is filled completely or keeps room for the shortest block, so it
can always be covered by one.
-/

namespace BlockRing

/-- Which bytes of a buffer are in use. Fresh cursors say: none. -/
structure Cursors where
  head : Nat := Block.firstOffset
  tail : Nat := Block.firstOffset
  margin : Nat := Block.firstOffset
  count : Nat := 0
  saturated : Bool := false
  deriving DecidableEq, Repr

namespace Cursors

/-- A gap before the head takes a block that fills it, or that leaves room for another block. -/
def gapTakes (gap need : Nat) : Except Fault Bool :=
  if gap = need then .ok true
  else do
    let reserved ← Word.add need Block.minSize
    return decide (reserved ≤ gap)

/-- Whether a block of `need` bytes can be written at the tail. -/
def fitsAtTail (c : Cursors) (capacity need : Nat) : Except Fault Bool :=
  if c.saturated then .ok false
  else if c.head ≤ c.tail then do
    let free ← Word.sub capacity c.tail
    return decide (need ≤ free)
  else do
    gapTakes (← Word.sub c.head c.tail) need

/-- Whether a block of `need` bytes can be written before the head once the tail is at the start of the buffer. -/
def fitsBeforeHead (c : Cursors) (need : Nat) : Except Fault Bool :=
  if c.saturated then .ok false
  else do
    gapTakes (← Word.sub c.head (if c.head ≤ c.tail then Block.firstOffset else c.tail)) need

/-- The offset for a block of `need` bytes in a buffer of `capacity` bytes, if there is room: at the tail, or else at
the start of the buffer. -/
def slot? (c : Cursors) (capacity need : Nat) : Except Fault (Option Nat) := do
  if ← c.fitsAtTail capacity need then return some c.tail
  if ← c.fitsBeforeHead need then return some Block.firstOffset
  return none

/-- A block that ends at `stop` has been written at the tail. -/
def append (c : Cursors) (stop : Nat) : Except Fault Cursors := do
  let count ← Word.add c.count 1
  return { c with
    tail := stop
    margin := if c.head < stop then stop else c.margin
    count
    saturated := c.saturated || stop == c.head }

/-- The head has come as far as the margin: what has wrapped around is all that is left, and it lies in line. -/
def rewind (c : Cursors) : Cursors :=
  if c.head = c.margin then
    let tail := if c.tail = c.margin then Block.firstOffset else c.tail
    { c with head := Block.firstOffset, tail, margin := tail }
  else c

/-- The block of `size` bytes at the head has been removed. -/
def release (c : Cursors) (size : Nat) : Except Fault Cursors := do
  let head ← Word.add c.head size
  let count ← Word.sub c.count 1
  return { ({ c with head, count } : Cursors).rewind with saturated := false }

/-- The blocks that had wrapped around become the first ones, and the tail moves behind all others. -/
def putInLine (c : Cursors) : Cursors :=
  { c with head := Block.firstOffset, tail := c.margin }

/-- Cursors that stay inside a buffer of `capacity` bytes and do not contradict each other. -/
def Consistent (c : Cursors) (capacity : Nat) : Prop :=
  (Block.firstOffset ≤ c.head ∧ c.head ≤ capacity) ∧ (Block.firstOffset ≤ c.tail ∧ c.tail ≤ capacity) ∧
    c.margin ≤ capacity ∧ (c.count = 0 ↔ c.head = c.tail ∧ c.saturated = false) ∧
    (c.head ≤ c.tail → c.saturated = false → c.tail ≤ c.margin)

instance (c : Cursors) (capacity : Nat) : Decidable (c.Consistent capacity) := by
  unfold Consistent; infer_instance

/-- Stops at cursors that are not consistent. -/
def audit (c : Cursors) (capacity : Nat) : Except Fault Unit :=
  if c.Consistent capacity then .ok () else .error .brokenCursors

/-! ## Room -/

/-- A block fits into a gap that is at least as long: leaving room for another block asks for no more than one byte. -/
theorem gapTakes_eq {gap need : Nat} (h : need + Block.minSize < Word.bound) :
    gapTakes gap need = .ok (decide (need ≤ gap)) := by
  unfold gapTakes
  split
  · rename_i hg; simp [hg]
  · rename_i hg
    have hi : need + Block.minSize ≤ gap ↔ need ≤ gap := by unfold Block.minSize; omega
    rw [Word.add_eq_ok h]
    simp only [bind, Except.bind, pure, Except.pure, hi]

/-- Consistent cursors pass the audit. -/
theorem audit_eq_ok_iff {c : Cursors} {capacity : Nat} : c.audit capacity = .ok () ↔ c.Consistent capacity := by
  unfold audit; split <;> simp_all

end Cursors
end BlockRing
