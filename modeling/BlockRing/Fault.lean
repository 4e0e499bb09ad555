/-!
# Faults

A fault is a broken assumption of the library itself: a sum that leaves the machine word, a slice that leaves its
buffer, cursors that contradict each other. A computation that meets one stops and has no further state. What a caller
can do wrong is a `Refusal` instead, and leaves the queue in use.
-/

namespace BlockRing

/-- Why a computation stops for good. -/
inductive Fault
  /-- A sum does not fit into a machine word. -/
  | addOverflow
  /-- A difference is negative. -/
  | subOverflow
  /-- A buffer is too large for the address space. -/
  | capacityOverflow
  /-- There is no byte at `index` in an array of `size` bytes. -/
  | badIndex (index size : Nat)
  /-- The range from `start` to `stop` is no slice of a buffer of `size` bytes. -/
  | badSlice (start stop size : Nat)
  /-- A slice of `expected` bytes was to be filled with `actual` bytes. -/
  | lengthMismatch (expected actual : Nat)
  /-- The gap to be covered is shorter than the shortest block. -/
  | gapTooShort (gap : Nat)
  /-- The cursors of a queue contradict each other or leave its buffer. -/
  | brokenCursors
  deriving DecidableEq, Repr

namespace Fault

/-- The text that reports a fault. -/
def message : Fault → String
  | addOverflow => "attempt to add with overflow"
  | subOverflow => "attempt to subtract with overflow"
  | capacityOverflow => "capacity overflow"
  | badIndex index size =>
    "index out of bounds: the len is " ++ Nat.repr size ++ " but the index is " ++ Nat.repr index
  | badSlice start stop size =>
    "range " ++ Nat.repr start ++ ".." ++ Nat.repr stop ++ " out of range for slice of length " ++ Nat.repr size
  | lengthMismatch expected actual =>
    "source slice length (" ++ Nat.repr actual ++ ") does not match destination slice length (" ++
      Nat.repr expected ++ ")"
  | gapTooShort gap => "gap of " ++ Nat.repr gap ++ " bytes cannot hold a block"
  | brokenCursors => "queue cursors are inconsistent"

end Fault
end BlockRing
