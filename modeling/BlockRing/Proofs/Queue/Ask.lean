import BlockRing.Proofs.Queue.Pop
import BlockRing.Proofs.Queue.Push
import BlockRing.Proofs.Walk
import BlockRing.Session

/-!
# What a request does

`Answered` lists the ways in which a request ends, each with the blocks that are in use then.

- A request that is admitted ends in one of these ways, with a layout again (`ask_of_layout`). Only a push needs to be
  admitted: its payload has to be below the limit, and the buffer that it may ask for has to be allocatable
  (`Queue.Admits`).
- A request that succeeds has ended in one of these ways, whether it was admitted or not (`answered_of_ask`).
-/

namespace BlockRing

/-- The requests that leave a queue as it is. -/
def Request.Reads : Request → Prop
  | .push _ | .pop | .drain | .reset | .observe _ | .unobserve => False
  | _ => True

namespace Queue

/-- A payload that is pushed is below the limit, and the buffer that it may ask for can be allocated. -/
def Admits (q : Queue) : Request → Prop
  | .push payload => payload.length < Payload.limit ∧ q.Allocates payload.need
  | _ => True

instance (q : Queue) : (request : Request) → Decidable (q.Admits request)
  | .push payload => inferInstanceAs (Decidable (payload.length < Payload.limit ∧ q.Allocates payload.need))
  | .pop | .peek | .get _ | .checkOffset _ | .scan _ _ | .drain | .tourPayloads _ | .tourEntries _ | .payloads | .reset
  | .observe _ | .unobserve | .maxCapacity | .describe => inferInstanceAs (Decidable True)

/-- **The ways in which a request ends**, and the blocks that are in use then. -/
inductive Answered (q : Queue) (shape : Shape) (blocks : List Block) :
    Request → Outcome Reply → List Block → Prop
  | push {payload : Payload} {pushed : Outcome (Except Refusal Nat)} {blocks' : List Block}
      (h : Pushed q payload shape blocks pushed blocks') :
      Answered q shape blocks (.push payload) (pushed.map (Reply.of .number)) blocks'
  /-- There is nothing to pop. -/
  | popNone (h : blocks = []) : Answered q shape blocks .pop (q.unchanged (.error .empty)) []
  | pop {block : Block} {rest : List Block} (h : blocks = block :: rest) :
      Answered q shape blocks .pop
        { reply := .ok (.payload (block.contents q.buffer)), queue := q.popped block.size } rest
  | drain : Answered q shape blocks .drain
      { reply := .ok (.drained (blocks.map (Block.contents q.buffer)) .empty), queue := q.reset } []
  | reset : Answered q shape blocks .reset { reply := .ok .done, queue := q.reset } []
  | observe {tag : Nat} :
      Answered q shape blocks (.observe tag) { reply := .ok .done, queue := q.observe tag } blocks
  | unobserve : Answered q shape blocks .unobserve { reply := .ok .done, queue := q.unobserve } blocks
  | read {request : Request} {reply : Reply} (hr : request.Reads) :
      Answered q shape blocks request (q.unchanged reply) blocks

variable {q : Queue} {shape : Shape} {blocks : List Block} {request : Request} {outcome : Outcome Reply}

/-- Reading succeeds with every layout. -/
theorem ask_of_reads (h : Layout q.buffer q.cursors shape blocks) (hr : request.Reads) :
    ∃ reply, q.ask request = .ok (q.unchanged reply) := by
  have htour := tour_of_layout h
  have hlist := toList_of_layout h
  cases request with
  | push payload => cases hr
  | pop => cases hr
  | peek =>
    obtain ⟨answer, ha⟩ := q.get_eq_ok q.cursors.head
    exact ⟨_, by rw [ask, peek, ha]; rfl⟩
  | get offset =>
    obtain ⟨answer, ha⟩ := q.get_eq_ok offset
    exact ⟨_, by rw [ask, ha]; rfl⟩
  | checkOffset offset => exact ⟨_, rfl⟩
  | scan start stop =>
    obtain ⟨entries, he⟩ := q.exists_scan start stop
    exact ⟨_, by rw [ask, he]; rfl⟩
  | drain => cases hr
  | tourPayloads steps => exact ⟨_, by rw [ask, htour]; rfl⟩
  | tourEntries steps => exact ⟨_, by rw [ask, htour]; rfl⟩
  | payloads => exact ⟨_, by rw [ask, hlist]; rfl⟩
  | reset => cases hr
  | observe tag => cases hr
  | unobserve => cases hr
  | maxCapacity => exact ⟨_, rfl⟩
  | describe => exact ⟨_, rfl⟩

theorem ask_pop (h : Layout q.buffer q.cursors shape blocks) :
    ∃ outcome shape' blocks', q.ask .pop = .ok outcome ∧ Answered q shape blocks .pop outcome blocks' ∧
      Layout outcome.queue.buffer outcome.queue.cursors shape' blocks' := by
  cases blocks with
  | nil =>
    refine ⟨_, shape, _, ?_, .popNone rfl, h⟩
    simp only [ask, pop_of_nil h, bind, Except.bind, pure, Except.pure]
    rfl
  | cons block rest =>
    obtain ⟨hp, shape', h'⟩ := pop_of_cons h
    refine ⟨_, shape', _, ?_, .pop rfl, h'⟩
    simp only [ask, hp, bind, Except.bind, pure, Except.pure]
    rfl

/-- **A request that is admitted ends in one of its ways.** -/
theorem ask_of_layout (h : Layout q.buffer q.cursors shape blocks) (ha : q.Admits request) :
    ∃ outcome shape' blocks', q.ask request = .ok outcome ∧ Answered q shape blocks request outcome blocks' ∧
      Layout outcome.queue.buffer outcome.queue.cursors shape' blocks' := by
  by_cases hr : request.Reads
  · obtain ⟨reply, hq⟩ := ask_of_reads h hr
    exact ⟨_, shape, blocks, hq, .read hr, h⟩
  cases request with
  | push payload =>
    obtain ⟨pushed, shape', blocks', hp, hpushed, h'⟩ := push_of_layout h ha.1 ha.2
    refine ⟨_, shape', blocks', ?_, .push hpushed, h'⟩
    simp only [ask, hp, bind, Except.bind, pure, Except.pure]
  | pop => exact ask_pop h
  | drain =>
    refine ⟨_, .empty, _, ?_, .drain, layout_reset h⟩
    simp only [ask, drain_of_layout h, bind, Except.bind, pure, Except.pure]
    rfl
  | reset => exact ⟨_, .empty, _, rfl, .reset, layout_reset h⟩
  | observe tag => exact ⟨_, shape, blocks, rfl, .observe, h⟩
  | unobserve => exact ⟨_, shape, blocks, rfl, .unobserve, h⟩
  | _ => exact absurd trivial hr

/-- **A request that succeeds has ended in one of its ways.** -/
theorem answered_of_ask (h : Layout q.buffer q.cursors shape blocks) (ho : q.ask request = .ok outcome) :
    ∃ shape' blocks', Answered q shape blocks request outcome blocks' ∧
      Layout outcome.queue.buffer outcome.queue.cursors shape' blocks' := by
  by_cases ha : q.Admits request
  · obtain ⟨outcome', shape', blocks', ho', hans, h'⟩ := ask_of_layout h ha
    cases ho.symm.trans ho'
    exact ⟨shape', blocks', hans, h'⟩
  · -- Only a push may not be admitted.
    cases request with
    | push payload =>
      simp only [ask, bind_eq_ok_iff, pure, Except.pure, Except.ok.injEq] at ho
      obtain ⟨pushed, hp, rfl⟩ := ho
      obtain ⟨shape', blocks', hpushed, h'⟩ := pushed_of_push h hp
      exact ⟨shape', blocks', .push hpushed, h'⟩
    | _ => exact absurd trivial ha

end Queue
end BlockRing
