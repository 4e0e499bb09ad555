import BlockRing.Queue.Pop
import BlockRing.Queue.Push
import BlockRing.Queue.Text
import BlockRing.Walk

/-!
# Sessions

A session puts one request after the other to a queue. Its transcript holds for each of them the reply, a snapshot of
the queue afterwards and the reports, and ends where a fault stops it.
-/

namespace BlockRing

/-- What can be asked of a queue. -/
inductive Request
  | push (payload : Payload)
  | pop
  | peek
  | get (offset : Nat)
  | checkOffset (offset : Nat)
  | scan (start stop : Nat)
  | drain
  | tourPayloads (steps : Nat)
  | tourEntries (steps : Nat)
  | payloads
  | reset
  | observe (tag : Nat)
  | unobserve
  | maxCapacity
  | describe
  deriving DecidableEq, Repr

/-- The answer to a request that was not turned down. -/
inductive Answer
  | done
  | number (n : Nat)
  | payload (payload : Payload)
  | payloads (payloads : List Payload)
  | scanned (entries : List (Except Refusal Payload))
  | drained (payloads : List Payload) (refusal : Refusal)
  | payloadTour (tour : Tour Payload)
  | entryTour (tour : Tour Entry)
  | text (text : String)

/-- The reply to a request: an answer, or why there is none. -/
abbrev Reply := Except Refusal Answer

/-- What can be seen of a queue without asking for an entry. -/
structure Snapshot where
  len : Nat
  capacity : Nat
  isEmpty : Bool
  isFull : Bool
  front : Option Nat
  deriving DecidableEq, Repr

/-- One request of a session, done. -/
structure Step where
  reply : Reply
  snapshot : Snapshot
  reports : List Report

/-- A reply from a refusal or what `f` makes an answer of. -/
def Reply.of {α : Type} (f : α → Answer) (reply : Except Refusal α) : Reply := f <$> reply

/-- An outcome with its reply changed. -/
def Outcome.map {α β : Type} (f : α → β) (outcome : Outcome α) : Outcome β where
  reply := f outcome.reply
  queue := outcome.queue
  reports := outcome.reports

namespace Queue

/-- A queue that has answered and has not changed. -/
def unchanged (q : Queue) (reply : Reply) : Outcome Reply := { reply, queue := q }

/-- Puts a request to a queue. -/
def ask (q : Queue) : Request → Except Fault (Outcome Reply)
  | .push payload => return (← q.push payload).map (Reply.of .number)
  | .pop => return (← q.pop).map (Reply.of .payload)
  | .peek => return q.unchanged (Reply.of .payload (← q.peek))
  | .get offset => return q.unchanged (Reply.of .payload (← q.get offset))
  | .checkOffset offset => return q.unchanged (Reply.of (fun _ => .done) (q.checkOffset offset))
  | .scan start stop => return q.unchanged (.ok (.scanned (← q.scan start stop)))
  | .drain => return (← q.drain).map fun (payloads, refusal) => .ok (.drained payloads refusal)
  | .tourPayloads steps => return q.unchanged (.ok (.payloadTour ((← q.walk.tour steps).map (·.payload))))
  | .tourEntries steps => return q.unchanged (.ok (.entryTour (← q.walk.tour steps)))
  | .payloads => return q.unchanged (.ok (.payloads ((← q.toList).map (·.payload))))
  | .reset => return { reply := .ok .done, queue := q.reset }
  | .observe tag => return { reply := .ok .done, queue := q.observe tag }
  | .unobserve => return { reply := .ok .done, queue := q.unobserve }
  | .maxCapacity => return q.unchanged (.ok (.number q.maxCapacity))
  | .describe => return q.unchanged (.ok (.text q.describe))

/-- What can be seen of a queue now. -/
def snapshot (q : Queue) : Except Fault Snapshot :=
  return {
    len := q.len
    capacity := q.capacity
    isEmpty := q.isEmpty
    isFull := q.isFull
    front := ← q.front? }

/-- Puts a request to a queue and looks at the queue afterwards. -/
def step (q : Queue) (request : Request) : Except Fault (Step × Queue) := do
  let outcome ← q.ask request
  let snapshot ← outcome.queue.snapshot
  return ({ reply := outcome.reply, snapshot, reports := outcome.reports }, outcome.queue)

/-- The steps of a session, and the fault that stopped it, if one did. -/
def transcript (q : Queue) : List Request → List Step × Option Fault
  | [] => ([], none)
  | request :: requests =>
    match q.step request with
    | .error fault => ([], some fault)
    | .ok (done, q) =>
      let (steps, fault?) := q.transcript requests
      (done :: steps, fault?)

end Queue
end BlockRing
