import BlockRing.Cursors
import BlockRing.Refusal
import BlockRing.Report

/-!
# Queues of byte entries

A queue keeps its entries as blocks in one buffer, with cursors that say which bytes are in use. The buffer may grow up
to a ceiling, if there is one. A new queue is empty; one without a byte of buffer or with a ceiling below its buffer is
refused (`create_eq_refused_iff`).

An operation on a queue yields an `Outcome`: its reply, the queue as it is then, and what has been reported meanwhile.
A refusal is a reply, a fault is none.
-/

namespace BlockRing

/-- A first-in, first-out queue of byte entries in one buffer. -/
structure Queue where
  buffer : Buffer
  ceiling : Option Nat := none
  cursors : Cursors := {}
  reporting : Reporting := {}
  deriving DecidableEq

/-- What an operation replies, the queue that it leaves, and its reports in order. -/
structure Outcome (α : Type) where
  reply : α
  queue : Queue
  reports : List Report := []
  deriving DecidableEq

namespace Queue

/-- A new queue with a buffer of `capacity` bytes that may grow to `maxCapacity` bytes. A maximum of 0 sets no limit. -/
def create (capacity maxCapacity : Nat) (verbose : Bool) : Except Fault (Except Refusal Queue) :=
  if capacity = 0 then .ok (.error (.badSetting .capacity capacity))
  else if 0 < maxCapacity ∧ maxCapacity < capacity then .ok (.error (.badSetting .maxCapacity maxCapacity))
  else do
    let buffer ← Buffer.allocate capacity
    let ceiling := if maxCapacity = 0 then none else some maxCapacity
    return .ok { buffer, ceiling, reporting := { verbose } }

/-- A new queue that grows without limit and is not verbose. -/
def withCapacity (capacity : Nat) : Except Fault (Except Refusal Queue) := create capacity 0 false

/-- The size of the buffer. -/
def capacity (q : Queue) : Nat := q.buffer.size

/-- The largest size that the buffer may have, or 0 if there is no limit. -/
def maxCapacity (q : Queue) : Nat := q.ceiling.getD 0

/-- The number of entries. -/
def len (q : Queue) : Nat := q.cursors.count

/-- Whether there is no entry. -/
def isEmpty (q : Queue) : Bool := q.len == 0

/-- Whether the tail has come up to the head, with no free byte between them. -/
def isFull (q : Queue) : Bool := q.cursors.saturated

/-- Drops all entries at once. The bytes of the buffer stay as they are. -/
def reset (q : Queue) : Queue := { q with cursors := {} }

/-- Has the growths from now on noticed to the observer that goes by `tag`, and to no other. -/
def observe (q : Queue) (tag : Nat) : Queue := { q with reporting.observer := some tag }

/-- Has the growths from now on noticed to no observer. -/
def unobserve (q : Queue) : Queue := { q with reporting.observer := none }

/-- A queue is refused if it has no byte of buffer or a ceiling below its buffer, and for no other reason. -/
theorem create_eq_refused_iff {capacity maxCapacity : Nat} {verbose : Bool} :
    (∃ r, create capacity maxCapacity verbose = .ok (.error r)) ↔
      capacity = 0 ∨ 0 < maxCapacity ∧ maxCapacity < capacity := by
  unfold create
  split
  · simp_all
  split
  · simp_all
  · rename_i h0 h1
    simp only [h0, h1, or_self, iff_false, not_exists]
    intro r h
    cases hb : Buffer.allocate capacity with
    | error f => simp [hb, bind, Except.bind] at h
    | ok b => simp [hb, bind, Except.bind, pure, Except.pure] at h

end Queue
end BlockRing
