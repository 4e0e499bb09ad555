import BlockRing.Proofs.Queue.Ask

/-!
# What holds of every run

- `Queue.after` is the queue that a list of requests leaves, and `Queue.Along` says that each of them has a property of
  the queue that it is put to.
- `Queue.Reachable` are the queues that a run comes to: a new one, and what a request leaves that has not stopped with a
  fault. They are just the ones that a list of requests leaves of a new queue (`reachable_iff`).
- Each of them has a layout (`Reachable.layout`): a new queue has no block (`layout_of_create`), and what a request
  leaves has a layout if the queue had one before (`Queue.answered_of_ask`). It is the only one, and its blocks are
  sound (`exists_unique_layout`).
- Their ceiling is the one that they were created with, and the buffer never exceeds it (`Reachable.ceiling_eq`,
  `Reachable.capacity_le_ceiling`).
-/

namespace BlockRing
namespace Queue

/-! ## Runs -/

/-- The queue that a list of requests leaves. -/
def after : Queue → List Request → Except Fault Queue
  | q, [] => .ok q
  | q, request :: requests => do (← q.ask request).queue.after requests

/-- Each request has a property of the queue that it is put to, one after the other. -/
def Along (p : Queue → Request → Prop) : Queue → List Request → Prop
  | _, [] => True
  | q, request :: requests => p q request ∧ ∀ outcome, q.ask request = .ok outcome → outcome.queue.Along p requests

instance decidableAlong {p : Queue → Request → Prop} [∀ q request, Decidable (p q request)] :
    ∀ (requests : List Request) (q : Queue), Decidable (q.Along p requests)
  | [], _ => inferInstanceAs (Decidable True)
  | request :: requests, q =>
    match ha : q.ask request with
    | .error _ => decidable_of_iff (p q request) (by simp [Along, ha])
    | .ok outcome =>
      have := decidableAlong (p := p) requests outcome.queue
      decidable_of_iff (p q request ∧ outcome.queue.Along p requests) (by simp [Along, ha])

theorem after_append {r s : Queue} : ∀ {front back : List Request} {q : Queue}, q.after front = .ok r →
    r.after back = .ok s → q.after (front ++ back) = .ok s
  | [], _, _, hf, hb => by
    cases hf
    exact hb
  | request :: front, back, q, hf, hb => by
    obtain ⟨outcome, ho, hf⟩ := bind_eq_ok_iff.mp hf
    exact bind_eq_ok_iff.mpr ⟨outcome, ho, after_append hf hb⟩

/-! ## Reachable queues -/

/-- The queues that a run comes to. -/
inductive Reachable : Queue → Prop
  | create {capacity maxCapacity : Nat} {verbose : Bool} {q : Queue}
      (hq : Queue.create capacity maxCapacity verbose = .ok (.ok q)) : Reachable q
  | ask {q : Queue} {request : Request} {outcome : Outcome Reply} (h : Reachable q)
      (ho : q.ask request = .ok outcome) : Reachable outcome.queue

variable {q r : Queue} {capacity maxCapacity : Nat} {verbose : Bool}

theorem Reachable.after : ∀ {requests : List Request} {q : Queue}, Reachable q → q.after requests = .ok r → Reachable r
  | [], _, h, hr => by
    cases hr
    exact h
  | _ :: _, _, h, hr => by
    obtain ⟨outcome, ho, hr⟩ := bind_eq_ok_iff.mp hr
    exact Reachable.after (h.ask ho) hr

/-- The reachable queues are those that requests leave of a new queue. -/
theorem reachable_iff : Reachable r ↔ ∃ capacity maxCapacity verbose q requests,
    Queue.create capacity maxCapacity verbose = .ok (.ok q) ∧ q.after requests = .ok r := by
  constructor
  · intro h
    induction h with
    | create hq => exact ⟨_, _, _, _, [], hq, rfl⟩
    | @ask _ request outcome _ ho ih =>
      obtain ⟨capacity, maxCapacity, verbose, q, requests, hq, hr⟩ := ih
      refine ⟨capacity, maxCapacity, verbose, q, requests ++ [request], hq, after_append hr ?_⟩
      exact bind_eq_ok_iff.mpr ⟨outcome, ho, rfl⟩
  · rintro ⟨_, _, _, _, _, hq, hr⟩
    exact (Reachable.create hq).after hr

/-- A queue can be created with a buffer of at least one byte that its ceiling and the address space allow. -/
theorem exists_create (hc : 0 < capacity) (hm : maxCapacity = 0 ∨ capacity ≤ maxCapacity)
    (hs : capacity ≤ Buffer.maxSize) (verbose : Bool) :
    ∃ q, Queue.create capacity maxCapacity verbose = .ok (.ok q) := by
  obtain ⟨b, hb⟩ := Buffer.exists_allocate.mpr hs
  have h1 : ¬ capacity = 0 := by omega
  have h2 : ¬ (0 < maxCapacity ∧ maxCapacity < capacity) := by omega
  let ceiling := if maxCapacity = 0 then none else some maxCapacity
  refine ⟨{ buffer := b, ceiling := ceiling, reporting := { verbose := verbose } }, ?_⟩
  rw [Queue.create, if_neg h1, if_neg h2, hb]
  rfl

/-- What a new queue is like. -/
theorem fields_of_create (hq : Queue.create capacity maxCapacity verbose = .ok (.ok q)) :
    0 < capacity ∧ (maxCapacity = 0 ∨ capacity ≤ maxCapacity) ∧ q.capacity = capacity ∧
      q.ceiling = (if maxCapacity = 0 then none else some maxCapacity) ∧ q.cursors = {} ∧
      q.reporting = { verbose } := by
  unfold Queue.create at hq
  split at hq
  · cases hq
  split at hq
  · cases hq
  · rename_i h0 hm
    obtain ⟨b, hb, he⟩ := bind_eq_ok_iff.mp hq
    cases he
    exact ⟨by omega, by omega, Buffer.size_allocate hb, rfl, rfl, rfl⟩

theorem maxCapacity_of_create (hq : Queue.create capacity maxCapacity verbose = .ok (.ok q)) :
    q.maxCapacity = maxCapacity := by
  obtain ⟨_, _, _, hc, _⟩ := fields_of_create hq
  rw [Queue.maxCapacity, hc]
  split
  · rename_i h0
    exact h0.symm
  · rfl

/-- A new queue has no block. -/
theorem layout_of_create (hq : Queue.create capacity maxCapacity verbose = .ok (.ok q)) :
    Layout q.buffer q.cursors .empty [] := by
  obtain ⟨h0, _, hk, _, hc, _⟩ := fields_of_create hq
  exact .empty (show 1 ≤ q.capacity by omega) hc

/-- **Every reachable queue has a layout.** -/
theorem Reachable.layout (h : Reachable q) : ∃ shape blocks, Layout q.buffer q.cursors shape blocks := by
  induction h with
  | create hq => exact ⟨_, _, layout_of_create hq⟩
  | ask _ ho ih =>
    obtain ⟨shape, blocks, h⟩ := ih
    obtain ⟨shape', blocks', _, h'⟩ := answered_of_ask h ho
    exact ⟨shape', blocks', h'⟩

/-! ## The ceiling -/

/-- No request changes the ceiling. -/
theorem Answered.ceiling_eq {shape : Shape} {blocks blocks' : List Block} {request : Request} {outcome : Outcome Reply}
    (ha : Answered q shape blocks request outcome blocks') : outcome.queue.ceiling = q.ceiling := by
  cases ha with
  | push hp => exact hp.keeps_settings.1
  | _ => rfl

theorem Answered.maxCapacity_eq {shape : Shape} {blocks blocks' : List Block} {request : Request}
    {outcome : Outcome Reply} (ha : Answered q shape blocks request outcome blocks') :
    outcome.queue.maxCapacity = q.maxCapacity := by
  rw [maxCapacity, ha.ceiling_eq]
  rfl

/-- The size of the buffer stays, or becomes that of a growth. -/
theorem Answered.capacity_eq_or {shape : Shape} {blocks blocks' : List Block} {request : Request}
    {outcome : Outcome Reply} (ha : Answered q shape blocks request outcome blocks') :
    outcome.queue.capacity = q.capacity ∨ ∃ need, outcome.queue.capacity = q.grownCapacity need := by
  cases ha with
  | push hp => exact hp.capacity_eq_or.imp id fun h => ⟨_, h⟩
  | _ => exact .inl rfl

/-- The buffer of a reachable queue never exceeds the ceiling. -/
theorem Reachable.capacity_le_ceiling {ceiling : Nat} (h : Reachable q) (hc : q.ceiling = some ceiling) :
    q.capacity ≤ ceiling := by
  induction h with
  | create hq =>
    obtain ⟨_, hm, hk, hceil, _⟩ := fields_of_create hq
    rw [hceil] at hc
    split at hc <;> cases hc
    omega
  | ask hq ho ih =>
    obtain ⟨shape, blocks, hlay⟩ := hq.layout
    obtain ⟨_, _, ha, _⟩ := answered_of_ask hlay ho
    rw [ha.ceiling_eq] at hc
    rcases ha.capacity_eq_or with hk | ⟨need, hk⟩
    · rw [hk]
      exact ih hc
    · rw [hk]
      exact grownCapacity_le_ceiling hc

/-- A maximum of 0 stands for no ceiling, and every other one for itself. -/
theorem Reachable.ceiling_eq (h : Reachable q) :
    q.ceiling = if q.maxCapacity = 0 then none else some q.maxCapacity := by
  obtain ⟨_, _, hlay⟩ := h.layout
  have hfirst : Block.firstOffset ≤ q.capacity := hlay.first_le_size
  unfold Block.firstOffset at hfirst
  unfold maxCapacity
  cases hc : q.ceiling with
  | none => rfl
  | some ceiling =>
    have hle := h.capacity_le_ceiling hc
    exact (if_neg (show ¬ ceiling = 0 by omega)).symm

/-! ## A queue that wraps around -/

/-- Two entries in a buffer of eight bytes, the newer of which has wrapped around and leaves one byte before the older
one. -/
def wrappedAround : Queue where
  buffer := ⟨#[0, 2, 5, 2, 3, 3, 4, 0], by decide⟩
  cursors := { head := 4, tail := 3, margin := 7, count := 2 }

theorem reachable_wrappedAround : Reachable wrappedAround :=
  reachable_iff.mpr ⟨8, 0, false, { buffer := ⟨Array.replicate 8 0, by decide⟩ },
    [.push [1, 2], .push [3, 4], .pop, .push [5]], by cbv, by cbv⟩

/-- This queue once it has grown for an entry of three bytes: its entries are in line, and the free byte is covered. -/
def grownInLine : Queue where
  buffer := ⟨#[0, 2, 5, 1, 3, 3, 4, 4, 6, 7, 8, 0, 0, 0, 0, 0], by decide⟩
  cursors := { head := 1, tail := 11, margin := 11, count := 4 }

theorem push_wrappedAround : wrappedAround.push [6, 7, 8] =
    .ok { reply := .ok 7, queue := grownInLine, reports := wrappedAround.reporting.reports ⟨8, 16, true⟩ } := by cbv

/-! ## The only layout -/

/-- **The blocks of a reachable queue lie in just one way**, empty, linear or wrapped. There are as many as the queue
counts; each is found at its offset, with a header no wider than the block, and lies between the first offset and the
margin inside the buffer; and no two of them have a byte in common. -/
theorem exists_unique_layout (h : Reachable q) :
    ∃ shape blocks, Layout q.buffer q.cursors shape blocks ∧
      (∀ shape' blocks', Layout q.buffer q.cursors shape' blocks' → shape' = shape ∧ blocks' = blocks) ∧
      q.len = blocks.length ∧
      (∀ block ∈ blocks, Block.at? q.buffer block.offset = some block ∧ 0 < block.header ∧
        block.header ≤ block.size ∧ Block.firstOffset ≤ block.offset ∧ block.stop ≤ q.cursors.margin ∧
        block.stop ≤ q.capacity) ∧
      blocks.Pairwise Block.Apart := by
  obtain ⟨shape, blocks, h⟩ := h.layout
  refine ⟨shape, blocks, h, fun shape' blocks' h' => h'.unique h, h.count_eq, ?_, h.apart⟩
  intro block hm
  obtain ⟨hat, hf, hs⟩ := h.mem block hm
  exact ⟨hat, Block.header_pos hat, Block.header_le_size hat, hf, hs, Block.stop_le_size hat⟩

/-- Three blocks in a buffer of eight bytes, the last of which has wrapped around once the first is gone. -/
theorem exists_unique_layout_wrapped : ∃ q : Queue,
    q.cursors = { head := 4, tail := 3, margin := 7, count := 2 } ∧ Reachable q ∧
      ∃ shape blocks, Layout q.buffer q.cursors shape blocks ∧ q.len = blocks.length ∧
        blocks.Pairwise Block.Apart := by
  obtain ⟨shape, blocks, hl, _, hlen, _, ha⟩ := exists_unique_layout reachable_wrappedAround
  exact ⟨_, rfl, reachable_wrappedAround, shape, blocks, hl, hlen, ha⟩

end Queue
end BlockRing
