import BlockRing.Queue.Basic

/-!
# Walks over the entries

A walk visits the entries of a queue in the order in which they would be removed, and leaves the queue alone. It knows
how many entries are left, and ends early only at bytes that are no block.
-/

namespace BlockRing

/-- A walk that goes on at `position` and has `remaining` entries left. -/
structure Walk where
  buffer : Buffer
  margin : Nat
  position : Nat
  remaining : Nat
  deriving DecidableEq

/-- The walk over all entries of a queue. -/
def Queue.walk (q : Queue) : Walk where
  buffer := q.buffer
  margin := q.cursors.margin
  position := q.cursors.head
  remaining := q.len

/-- What a walk shows: how many items it promises, the item of each of some steps with the number then left, and the
items that are still to come after these steps. -/
structure Tour (α : Type) where
  promised : Nat
  steps : List (Option α × Nat)
  rest : List α
  deriving DecidableEq, Repr

/-- A tour with every item changed. -/
def Tour.map {α β : Type} (f : α → β) (tour : Tour α) : Tour β where
  promised := tour.promised
  steps := tour.steps.map fun (item, left) => (item.map f, left)
  rest := tour.rest.map f

namespace Walk

/-- The offset of the next block: behind the last block before the margin comes the first one of the buffer. -/
def here (w : Walk) : Nat := if w.position = w.margin then Block.firstOffset else w.position

/-- The next entry, and the walk behind it. -/
def next (w : Walk) : Except Fault (Option Entry × Walk) :=
  if w.remaining = 0 then .ok (none, w)
  else
    match Block.at? w.buffer w.here with
    | none => .ok (none, { w with position := w.here, remaining := 0 })
    | some block => do
      let position ← Word.add block.offset block.size
      let payload ← block.payload w.buffer
      return (some { offset := block.offset, payload }, { w with position, remaining := w.remaining - 1 })

/-- The next entries, up to `n`. -/
def take : Nat → Walk → Except Fault (List Entry)
  | 0, _ => .ok []
  | n + 1, w => do
    match ← w.next with
    | (none, _) => return []
    | (some entry, w) => return entry :: (← take n w)

/-- All entries that are left. -/
def toList (w : Walk) : Except Fault (List Entry) := w.take w.remaining

/-- Takes `n` steps, each with its entry and the number of entries left after it, and gives the walk behind them. -/
def visit : Nat → Walk → Except Fault (List (Option Entry × Nat) × Walk)
  | 0, w => .ok ([], w)
  | n + 1, w => do
    let (entry, w) ← w.next
    let (steps, last) ← visit n w
    return ((entry, w.remaining) :: steps, last)

/-- The tour of a walk by `n` steps. -/
def tour (w : Walk) (n : Nat) : Except Fault (Tour Entry) := do
  let (steps, last) ← w.visit n
  return { promised := w.remaining, steps, rest := ← last.toList }

end Walk

namespace Queue

/-- The entries in the order in which they would be removed. -/
def toList (q : Queue) : Except Fault (List Entry) := q.walk.toList

/-- The offset of the oldest entry. -/
def front? (q : Queue) : Except Fault (Option Nat) := do
  let (entry, _) ← q.walk.next
  return entry.map (·.offset)

end Queue
end BlockRing
