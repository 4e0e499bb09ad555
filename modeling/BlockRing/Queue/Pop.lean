import BlockRing.Queue.Read

/-!
# Removing entries

The oldest entry is removed by moving the head behind its block; the bytes of the buffer stay as they are. A queue is
drained by removing one entry after the other until that is refused.
-/

namespace BlockRing
namespace Queue

/-- Removes the oldest entry. The reply is the entry. -/
def pop (q : Queue) : Except Fault (Outcome (Except Refusal Payload)) :=
  match q.locate q.cursors.head with
  | .error refusal => .ok { reply := .error refusal, queue := q }
  | .ok block => do
    let cursors ← q.cursors.release block.size
    cursors.audit q.capacity
    let payload ← block.payload q.buffer
    return { reply := .ok payload, queue := { q with cursors } }

/-- Removes up to `n` entries. The reply is the entries, and why there were no more of them. -/
def popUpTo : Nat → Queue → Except Fault (Outcome (List Payload × Option Refusal))
  | 0, q => .ok { reply := ([], none), queue := q }
  | n + 1, q => do
    let ⟨reply, q, _⟩ ← q.pop
    match reply with
    | .error refusal => return { reply := ([], some refusal), queue := q }
    | .ok payload =>
      let ⟨(payloads, refusal?), q, _⟩ ← popUpTo n q
      return { reply := (payload :: payloads, refusal?), queue := q }

/-- Removes entries until that is refused, at the latest when no entry is left. -/
def drain (q : Queue) : Except Fault (Outcome (List Payload × Refusal)) := do
  let ⟨(payloads, refusal?), q, _⟩ ← popUpTo q.len q
  return { reply := (payloads, refusal?.getD .empty), queue := q }

end Queue
end BlockRing
