import BlockRing.Proofs.Placement

/-!
# How far a queue grows

- The buffer becomes twice as large as the larger of itself and the block, but no larger than the ceiling
  (`grownCapacity_eq`). A growth leaves the tail so far from the end of the buffer that the block is written there
  without looking for a place again (`exists_growth`).
- A queue at its ceiling stays as large as it is: no push grows it (`reports_of_push_at_ceiling`), and no run changes
  its capacity (`capacity_of_after_at_ceiling`).
- **Every growth makes room for the block that it was made for, up to the ceiling; and without a ceiling every push is
  taken** (`growth_makes_room`).
-/

namespace BlockRing
namespace Queue

/-- **What a push that grows makes of the capacity**: it is doubled, for the block if that is larger than the buffer,
or comes to the ceiling; and once the queue has grown, the block is written at its tail as it is. -/
structure GrowsWithRoom (q : Queue) (payload : Payload) (pushed : Outcome (Except Refusal Nat)) : Prop where
  capacity_eq : pushed.queue.capacity =
    if 0 < q.maxCapacity ∧ q.maxCapacity < 2 * max q.capacity payload.need then q.maxCapacity
    else 2 * max q.capacity payload.need
  capacity_lt : q.capacity < pushed.queue.capacity
  capacity_le : 0 < q.maxCapacity → pushed.queue.capacity ≤ q.maxCapacity
  double_le : pushed.queue.capacity ≠ q.maxCapacity → 2 * q.capacity ≤ pushed.queue.capacity
  room : ∃ grown, q.grow payload.need = .ok grown ∧ grown.queue.capacity = pushed.queue.capacity ∧
    payload.need ≤ grown.queue.capacity - grown.queue.cursors.tail ∧
    grown.queue.appendAtTail payload.need payload = .ok pushed.queue ∧ pushed.reply = .ok grown.queue.cursors.tail

variable {q r : Queue} {payload : Payload} {size need : Nat} {request : Request} {outcome : Outcome Reply}
  {pushed : Outcome (Except Refusal Nat)}

/-! ## The larger buffer -/

theorem capacity_appendAtTail (h : q.appendAtTail size payload = .ok r) : r.capacity = q.capacity := by
  simp only [appendAtTail, bind_eq_ok_iff] at h
  obtain ⟨written, hw, _, _, hr⟩ := h
  cases hr
  exact capacity_writeBlock hw

/-- **The size of the larger buffer.** -/
theorem grownCapacity_eq (hq : Reachable q) (hp : payload.length < Payload.limit) :
    q.grownCapacity payload.need =
      if 0 < q.maxCapacity ∧ q.maxCapacity < 2 * max q.capacity payload.need then q.maxCapacity
      else 2 * max q.capacity payload.need := by
  have hdouble : Word.doubleSat (max q.capacity payload.need) = 2 * max q.capacity payload.need := by
    have h1 := Payload.need_lt hp
    have h2 : q.capacity ≤ Buffer.maxSize := q.buffer.size_le_maxSize
    unfold Buffer.maxSize at h2
    exact Word.doubleSat_eq (by unfold Word.bound; omega)
  rw [grownCapacity, hdouble, hq.ceiling_eq]
  by_cases h0 : q.maxCapacity = 0
  · rw [if_pos h0, if_neg (by omega)]
  · rw [if_neg h0]
    show min (2 * max q.capacity payload.need) q.maxCapacity = _
    split <;> omega

/-- A growth ends with the tail where the margin was and the block written behind it. -/
theorem exists_growth (hq : Reachable q) (hp : payload.length < Payload.limit) (ha : q.Allocates payload.need)
    (h : ¬ q.HasRoom payload.need) (hm : ¬ q.MeetsCeiling payload.need) :
    ∃ grown pushed, q.grow payload.need = .ok grown ∧ grown.queue.capacity = q.grownCapacity payload.need ∧
      grown.queue.cursors.tail = q.cursors.margin ∧ q.push payload = .ok pushed ∧
      grown.queue.appendAtTail payload.need payload = .ok pushed.queue ∧
      pushed.reply = .ok grown.queue.cursors.tail := by
  obtain ⟨shape, blocks, hlay⟩ := hq.layout
  have hneed : Block.sizeFor payload.length = .ok payload.need := Block.sizeFor_eq_ok hp
  have hslot : q.cursors.slot? q.capacity payload.need = .ok none :=
    (hlay.slot?_eq_none_iff payload.need_pos (Payload.need_add_lt hp)).mpr h
  have hceil := ceilingMet?_eq hq hp
  rw [if_neg hm] at hceil
  have hcap := add_le_grownCapacity (q.capacity_add_need_lt hp) hceil
  obtain ⟨g, _, hgrow, hg⟩ := grow_of_layout hlay (by omega) (ha hslot hceil)
  obtain ⟨pushed, _, _, hpush, _⟩ := push_of_layout hlay hp ha
  have hdone := hpush
  simp only [push, hneed, hslot, hceil, hgrow, bind_eq_ok_iff, Except.ok.injEq, exists_eq_left'] at hdone
  obtain ⟨placed, hplaced, hout⟩ := hdone
  cases hout
  exact ⟨_, _, hgrow, hg.capacity_eq, hg.tail_eq, hpush, hplaced, rfl⟩

/-- A growth makes room for its block. -/
theorem growsWithRoom_of_not_meetsCeiling (hq : Reachable q) (hp : payload.length < Payload.limit)
    (ha : q.Allocates payload.need) (h : ¬ q.HasRoom payload.need) (hm : ¬ q.MeetsCeiling payload.need) :
    ∃ pushed, q.push payload = .ok pushed ∧ q.GrowsWithRoom payload pushed := by
  obtain ⟨grown, pushed, hgrow, hk, ht, hpush, happ, hr⟩ := exists_growth hq hp ha h hm
  obtain ⟨_, _, hlay⟩ := hq.layout
  have hmargin : q.cursors.margin ≤ q.capacity := hlay.margin_le_size
  have hpos := payload.need_pos
  have hcapacity : pushed.queue.capacity = grown.queue.capacity := capacity_appendAtTail happ
  have heq := hcapacity.trans (hk.trans (grownCapacity_eq hq hp))
  have hceil := ceilingMet?_eq hq hp
  rw [if_neg hm] at hceil
  have hroom := add_le_grownCapacity (q.capacity_add_need_lt hp) hceil
  refine ⟨pushed, hpush, heq, by omega, ?_, ?_, grown, hgrow, hcapacity.symm, by omega, happ, hr⟩
  · intro hmax
    rw [heq]
    split <;> omega
  · intro hne
    rw [heq] at hne ⊢
    split at hne
    · exact absurd rfl hne
    · rename_i hlarge
      rw [if_neg hlarge]
      omega

/-! ## At the ceiling -/

/-- No push grows a queue at its ceiling. -/
theorem reports_of_push_at_ceiling (hq : Reachable q) (hc : q.capacity = q.maxCapacity)
    (hpush : q.push payload = .ok pushed) : pushed.reports = [] ∧ pushed.queue.capacity = q.capacity := by
  obtain ⟨_, _, hlay⟩ := hq.layout
  have hfirst : 0 < q.capacity := hlay.first_le_size
  have hlt : q.capacity < Word.bound := Buffer.lt_bound (Nat.le_refl q.buffer.size)
  obtain ⟨_, _, hpushed, _⟩ := pushed_of_push hlay hpush
  cases hpushed with
  | placed hslot w => exact ⟨rfl, q.capacity_placed _ payload⟩
  | refused hslot hm => exact ⟨rfl, rfl⟩
  | grown hslot hm hg w =>
    have hmet : q.ceilingMet? payload.need = some q.maxCapacity :=
      (ceilingMet?_eq_some_iff hq (by omega) (by omega)).mpr (by omega)
    cases hm.symm.trans hmet

/-- A request leaves a queue at its ceiling there. -/
theorem capacity_of_ask_at_ceiling (hq : Reachable q) (hc : q.capacity = q.maxCapacity)
    (ho : q.ask request = .ok outcome) :
    outcome.queue.capacity = q.capacity ∧ outcome.queue.maxCapacity = q.maxCapacity := by
  obtain ⟨_, _, hlay⟩ := hq.layout
  obtain ⟨_, _, ha, _⟩ := answered_of_ask hlay ho
  have hmax : outcome.queue.maxCapacity = q.maxCapacity := by rw [maxCapacity, ha.ceiling_eq, maxCapacity]
  refine ⟨?_, hmax⟩
  cases request with
  | push payload =>
    simp only [ask, bind_eq_ok_iff, pure, Except.pure, Except.ok.injEq] at ho
    obtain ⟨pushed, hpush, rfl⟩ := ho
    exact (reports_of_push_at_ceiling hq hc hpush).2
  | _ => cases ha <;> rfl

/-- **A run leaves a queue at its ceiling there.** -/
theorem capacity_of_after_at_ceiling : ∀ {requests : List Request} {q : Queue}, Reachable q →
    q.capacity = q.maxCapacity → q.after requests = .ok r → r.capacity = q.capacity ∧ r.maxCapacity = q.maxCapacity
  | [], _, _, _, hr => by
    cases hr
    exact ⟨rfl, rfl⟩
  | _ :: _, _, hq, hc, hr => by
    obtain ⟨outcome, ho, hr⟩ := bind_eq_ok_iff.mp hr
    obtain ⟨hk, hm⟩ := capacity_of_ask_at_ceiling hq hc ho
    obtain ⟨hk', hm'⟩ := capacity_of_after_at_ceiling (hq.ask ho) (by omega) hr
    exact ⟨hk'.trans hk, hm'.trans hm⟩

/-! ## All growths -/

/-- **Every growth makes room for its block.** A push succeeds, and if it reports anything or changes the capacity, the
queue has grown with room for the block. A queue at its ceiling never grows again, whatever it is asked; and a queue
without a ceiling takes every payload. -/
theorem growth_makes_room (hq : Reachable q) (hp : payload.length < Payload.limit) (ha : q.Allocates payload.need) :
    (∃ pushed, q.push payload = .ok pushed ∧
      (pushed.reports ≠ [] ∨ pushed.queue.capacity ≠ q.capacity → q.GrowsWithRoom payload pushed)) ∧
      (q.capacity = q.maxCapacity → ∀ requests r, q.after requests = .ok r → r.capacity = q.capacity ∧
        ∀ payload' pushed', r.push payload' = .ok pushed' →
          pushed'.reports = [] ∧ pushed'.queue.capacity = r.capacity) ∧
      (q.maxCapacity = 0 → ∃ pushed offset, q.push payload = .ok pushed ∧ pushed.reply = .ok offset) := by
  refine ⟨?_, fun hc requests r hr => ?_, fun h0 => ?_⟩
  · rcases push_cases hq hp ha with ⟨_, _, pushed, hpush, _, hk, hnone⟩ | ⟨_, _, hpush⟩ | ⟨hno, hm, _⟩
    · exact ⟨pushed, hpush, fun hgrown => by simp [hnone, hk] at hgrown⟩
    · exact ⟨_, hpush, fun hgrown => by simp at hgrown⟩
    · obtain ⟨pushed, hpush, hroom⟩ := growsWithRoom_of_not_meetsCeiling hq hp ha (place?_eq_none_iff.mp hno) hm
      exact ⟨pushed, hpush, fun _ => hroom⟩
  · obtain ⟨hk, hmax⟩ := capacity_of_after_at_ceiling hq hc hr
    exact ⟨hk, fun _ _ hpush => reports_of_push_at_ceiling (hq.after hr) (by omega) hpush⟩
  · rcases push_cases hq hp ha with ⟨offset, _, pushed, hpush, hr, _⟩ | ⟨_, hm, _⟩ | ⟨_, _, pushed, _, hpush, hr, _⟩
    · exact ⟨pushed, offset, hpush, hr⟩
    · have := hm.1
      omega
    · exact ⟨pushed, _, hpush, hr⟩

/-- A queue that wraps around, with a gap too short for the entry, grows with room for it. -/
theorem growth_makes_room_wrapped : ∃ (q : Queue) (pushed : Outcome (Except Refusal Nat)),
    q.cursors = { head := 4, tail := 3, margin := 7, count := 2 } ∧ Reachable q ∧
      q.push [6, 7, 8] = .ok pushed ∧ q.GrowsWithRoom [6, 7, 8] pushed ∧ pushed.queue.capacity = 16 := by
  obtain ⟨⟨pushed, hpush, hroom⟩, _⟩ :=
    @growth_makes_room wrappedAround [6, 7, 8] reachable_wrappedAround (by decide) (by decide)
  cases hpush.symm.trans push_wrappedAround
  exact ⟨_, _, rfl, reachable_wrappedAround, hpush, hroom (.inr (by decide)), rfl⟩

end Queue
end BlockRing
