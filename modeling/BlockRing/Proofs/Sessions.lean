import BlockRing.Proofs.Reach

/-!
# Sessions without faults

- A session in which every request is admitted when it is its turn runs to its end: from a queue with a layout
  (`transcript_of_admits`), and so from every new queue (`transcript_of_create`).
- Where only the payloads are known to be below the limit, a session can stop for one reason: a growth asks for a buffer
  that cannot be allocated (`fault_of_transcript`).
-/

namespace BlockRing
namespace Queue

variable {q : Queue} {shape : Shape} {blocks : List Block} {request : Request} {requests : List Request}
  {payload : Payload} {capacity maxCapacity : Nat}

/-- A queue with a layout can be looked at. -/
theorem exists_snapshot (h : Layout q.buffer q.cursors shape blocks) : ∃ snapshot, q.snapshot = .ok snapshot := by
  have hf := front?_of_layout h
  exact ⟨_, by simp only [snapshot, hf, bind, Except.bind, pure, Except.pure]; rfl⟩

/-- An admitted request is a step of a session. -/
theorem exists_step (h : Layout q.buffer q.cursors shape blocks) (ha : q.Admits request) :
    ∃ outcome done shape' blocks', q.ask request = .ok outcome ∧ q.step request = .ok (done, outcome.queue) ∧
      Layout outcome.queue.buffer outcome.queue.cursors shape' blocks' := by
  obtain ⟨outcome, shape', blocks', ho, _, h'⟩ := ask_of_layout h ha
  obtain ⟨snapshot, hs⟩ := exists_snapshot h'
  refine ⟨outcome, { reply := outcome.reply, snapshot, reports := outcome.reports }, shape', blocks', ho, ?_, h'⟩
  rw [step, ho]
  simp only [bind, Except.bind, hs, pure, Except.pure]

/-- **A session of admitted requests runs to its end.** -/
theorem transcript_of_admits : ∀ {requests : List Request} {q : Queue} {shape : Shape} {blocks : List Block},
    Layout q.buffer q.cursors shape blocks → q.Along Admits requests →
      ∃ steps, q.transcript requests = (steps, none) ∧ steps.length = requests.length
  | [], _, _, _, _, _ => ⟨[], rfl, rfl⟩
  | request :: requests, q, _, _, h, ha => by
    obtain ⟨outcome, done, shape', blocks', ho, hs, h'⟩ := exists_step h ha.1
    obtain ⟨steps, ht, hl⟩ := transcript_of_admits h' (ha.2 outcome ho)
    refine ⟨done :: steps, ?_, by rw [List.length_cons, List.length_cons, hl]⟩
    rw [transcript, hs]
    simp only [ht]

/-- **No session of a new queue stops with a fault**, as long as its requests are admitted. -/
theorem transcript_of_create (hc : 0 < capacity) (hm : maxCapacity = 0 ∨ capacity ≤ maxCapacity)
    (hs : capacity ≤ Buffer.maxSize) (verbose : Bool) (requests : List Request) :
    ∃ q, Queue.create capacity maxCapacity verbose = .ok (.ok q) ∧
      (q.Along Admits requests → ∃ steps, q.transcript requests = (steps, none) ∧ steps.length = requests.length) := by
  obtain ⟨q, hq⟩ := exists_create hc hm hs verbose
  exact ⟨q, hq, transcript_of_admits (layout_of_create hq)⟩

/-- A session with an entry that wraps around, a growth that puts it in line, and a pop beyond the last entry. -/
theorem transcript_of_create_growing : ∃ q steps,
    Queue.create 8 0 false = .ok (.ok q) ∧
      q.transcript [.push [1, 2], .push [3, 4], .pop, .push [5], .push [6, 7, 8], .payloads, .drain, .pop] =
        (steps, none) ∧ steps.length = 8 := by
  obtain ⟨q, hq, h⟩ := @transcript_of_create 8 0 (by decide) (.inl rfl) (by decide) false
    [.push [1, 2], .push [3, 4], .pop, .push [5], .push [6, 7, 8], .payloads, .drain, .pop]
  cases hq
  obtain ⟨steps, ht, hl⟩ := h (by decide +kernel)
  exact ⟨_, steps, rfl, ht, hl⟩

/-! ## The only fault -/

/-- A push that asks for too large a buffer stops. -/
theorem push_of_not_allocates (hp : payload.length < Payload.limit) (ha : ¬ q.Allocates payload.need) :
    q.push payload = .error .capacityOverflow := by
  have hneed : Block.sizeFor payload.length = .ok payload.need := Block.sizeFor_eq_ok hp
  unfold Allocates at ha
  obtain ⟨hslot, ha⟩ := Classical.not_imp.mp ha
  obtain ⟨hm, hlarge⟩ := Classical.not_imp.mp ha
  have hgrow : q.grow payload.need = .error .capacityOverflow := by
    simp only [grow, Buffer.allocate, dif_neg hlarge, bind, Except.bind]
  simp only [push, hneed, hslot, hm, hgrow, bind, Except.bind]

/-- **A session with payloads below the limit can only stop where a buffer is too large.** -/
theorem fault_of_transcript : ∀ {requests : List Request} {q : Queue} {shape : Shape} {blocks : List Block},
    Layout q.buffer q.cursors shape blocks →
      (∀ payload, Request.push payload ∈ requests → payload.length < Payload.limit) →
      (q.transcript requests).2 = none ∨ (q.transcript requests).2 = some .capacityOverflow
  | [], _, _, _, _, _ => .inl rfl
  | request :: requests, q, _, _, h, hp => by
    by_cases ha : q.Admits request
    · obtain ⟨outcome, done, shape', blocks', _, hs, h'⟩ := exists_step h ha
      have ih := fault_of_transcript h' fun payload hm => hp payload (List.mem_cons_of_mem _ hm)
      rw [transcript, hs]
      exact ih
    · cases request with
      | push payload =>
        have hshort := hp payload List.mem_cons_self
        have hstop := push_of_not_allocates hshort fun hall => ha ⟨hshort, hall⟩
        have hs : q.step (.push payload) = .error .capacityOverflow := by
          simp only [step, ask, hstop, bind, Except.bind]
        rw [transcript, hs]
        exact .inr rfl
      | _ => exact absurd trivial ha

end Queue
end BlockRing
