import BlockRing.Queue.Basic

/-!
# Reading entries by offset

The block at an offset is looked for only in a queue with entries, and at an offset other than 0 inside the buffer
(`checkOffset`, in this order of refusals). Any such offset may be asked for, also one at which no entry lies any more:
the answer is then what the bytes there spell, or that they spell no block. Reading what was found never fails
(`get_eq_ok`).
-/

namespace BlockRing
namespace Queue

/-- Refuses an offset at which no entry can lie. -/
def checkOffset (q : Queue) (offset : Nat) : Except Refusal Unit :=
  if q.len = 0 then .error .empty
  else if offset = 0 then .error .reservedOffset
  else if q.capacity ≤ offset then .error (.beyondBuffer offset q.capacity)
  else .ok ()

/-- The block at an offset. -/
def locate (q : Queue) (offset : Nat) : Except Refusal Block := do
  q.checkOffset offset
  match Block.at? q.buffer offset with
  | some block => return block
  | none => throw (.malformed offset)

/-- The entry at an offset. -/
def get (q : Queue) (offset : Nat) : Except Fault (Except Refusal Payload) :=
  match q.locate offset with
  | .error refusal => .ok (.error refusal)
  | .ok block => .ok <$> block.payload q.buffer

/-- The oldest entry. -/
def peek (q : Queue) : Except Fault (Except Refusal Payload) := q.get q.cursors.head

/-- The entries at all offsets from `start` up to `stop`. -/
def scan (q : Queue) (start stop : Nat) : Except Fault (List (Except Refusal Payload)) :=
  (List.range' start (stop - start)).mapM q.get

/-- An offset at which an entry may lie passes the check. -/
theorem checkOffset_eq_ok_iff {q : Queue} {offset : Nat} :
    q.checkOffset offset = .ok () ↔ q.len ≠ 0 ∧ offset ≠ 0 ∧ offset < q.capacity := by
  unfold checkOffset
  split
  · simp_all
  split
  · simp_all
  split
  · simp_all
  · simp_all

/-- A block that is located is one that the buffer holds at that offset. -/
theorem locate_eq_ok_iff {q : Queue} {offset : Nat} {block : Block} :
    q.locate offset = .ok block ↔ q.checkOffset offset = .ok () ∧ Block.at? q.buffer offset = some block := by
  unfold locate
  cases q.checkOffset offset with
  | error r => simp [bind, Except.bind]
  | ok u =>
    cases Block.at? q.buffer offset with
    | none => simp [bind, Except.bind, throw, throwThe, MonadExceptOf.throw]
    | some found => simp [bind, Except.bind, pure, Except.pure]

/-- **Reading never fails**: an offset is refused or its block can be read. -/
theorem get_eq_ok (q : Queue) (offset : Nat) : ∃ answer, q.get offset = .ok answer := by
  unfold get
  split
  · exact ⟨_, rfl⟩
  · rename_i block h
    rw [Block.payload_eq_ok (locate_eq_ok_iff.mp h).2]
    exact ⟨_, rfl⟩

end Queue
end BlockRing
