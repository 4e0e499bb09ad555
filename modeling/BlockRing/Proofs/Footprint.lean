import BlockRing.Proofs.GrowthSize

/-!
# The bytes that an operation changes

Only a push writes to the buffer, and what it writes is known byte by byte.

- A block that is placed without a growth is all that changes (`PlacedBytes`): it lies inside the buffer and apart from
  the blocks in use.
- A growth carries every byte below the margin over, except that the gap of wrapped entries is covered, and leaves zeros
  behind (`Carries`, `carries_of_grow`). The block is then written from the old margin on (`GrownBytes`).
- The first byte of the buffer is never written and stays 0 (`Reachable.get?_zero`). So even a growth of an emptied
  queue, which copies nothing, leaves the byte below the margin as it was.
- **These are all the bytes that an operation changes** (`changes_only_own_bytes`).
-/

namespace BlockRing

/-- A byte between the tail and the head of wrapped entries, which no block uses. -/
def Cursors.InGap (c : Cursors) (i : Nat) : Prop := c.Wraps ∧ c.tail ≤ i ∧ i < c.head

/-- The head does not lie behind the margin. -/
theorem Layout.head_le_margin {b : Buffer} {c : Cursors} {shape : Shape} {blocks : List Block}
    (h : Layout b c shape blocks) : c.head ≤ c.margin := by
  cases h with
  | empty hb hc => exact hc ▸ Nat.le_refl _
  | linear h =>
    have := h.head_lt_tail
    have := h.tail_eq_margin
    omega
  | wrapped h => exact Nat.le_of_lt h.head_lt_margin

namespace Queue

/-! ## What is left of the bytes -/

/-- A buffer with the block of a payload, and elsewhere the bytes of the queue. The block lies inside the buffer and
apart from the blocks in use. -/
structure PlacedBytes (q : Queue) (blocks : List Block) (payload : Payload) (offset : Nat) (b : Buffer) : Prop where
  first_le : Block.firstOffset ≤ offset
  stop_le : offset + payload.need ≤ q.capacity
  apart : ∀ block ∈ blocks, block.Apart (Block.written offset payload.need)
  block : b.window offset payload.need = Block.bytes payload.need payload
  outside : ∀ i, i < offset ∨ offset + payload.need ≤ i → b.get? i = q.buffer.get? i

/-- A buffer with the bytes of the queue below its margin, but with the gap of wrapped entries covered by a block of
zeros; from `stop` on there are zeros only. -/
structure Carries (q : Queue) (b : Buffer) (stop : Nat) : Prop where
  kept : ∀ i < q.cursors.margin, ¬ q.cursors.InGap i → b.get? i = q.buffer.get? i
  gap : q.cursors.Wraps → q.cursors.tail < q.cursors.head →
    b.window q.cursors.tail (q.cursors.head - q.cursors.tail) =
      Block.bytes (q.cursors.head - q.cursors.tail) (Payload.zeros (q.cursors.head - q.cursors.tail))
  zeros : ∀ i, stop ≤ i → i < b.size → b.get? i = some 0

/-- A buffer with what a growth carries over, the block of a payload from the margin on, and zeros behind it. -/
structure GrownBytes (q : Queue) (payload : Payload) (b : Buffer) : Prop extends
    q.Carries b (q.cursors.margin + payload.need) where
  block : b.window q.cursors.margin payload.need = Block.bytes payload.need payload

/-- **What a push leaves of the bytes**: all of them if it is refused, all but those of its block if it does not grow
the queue, and what a growth carries over otherwise. -/
structure LeavesBytes (q : Queue) (blocks : List Block) (payload : Payload) (pushed : Outcome (Except Refusal Nat)) :
    Prop where
  refused : ∀ refusal, pushed.reply = .error refusal → pushed.queue.buffer = q.buffer
  placed : ∀ offset, pushed.reply = .ok offset → pushed.queue.capacity = q.capacity →
    q.PlacedBytes blocks payload offset pushed.queue.buffer
  grown : ∀ offset, pushed.reply = .ok offset → pushed.queue.capacity ≠ q.capacity →
    offset = q.cursors.margin ∧ q.GrownBytes payload pushed.queue.buffer

variable {q r : Queue} {shape : Shape} {blocks older newer : List Block} {payload : Payload} {offset size need : Nat}
  {b fresh : Buffer} {pushed : Outcome (Except Refusal Nat)} {request : Request}

/-! ## Growing -/

/-- The bytes below the margin are copied to a fresh buffer, which holds zeros behind them. -/
theorem get?_copyInto (hm : q.cursors.margin ≤ q.capacity) (hmf : q.cursors.margin ≤ fresh.size)
    (hf : Buffer.allocate size = .ok fresh) (b : Buffer) (hb : b = q.buffer.copyInto fresh q.cursors.margin) :
    (∀ i < q.cursors.margin, b.get? i = q.buffer.get? i) ∧
      ∀ i, q.cursors.margin ≤ i → i < b.size → b.get? i = some 0 := by
  subst hb
  refine ⟨fun i hi => Buffer.agree_copy hm hmf i (Nat.zero_le _) hi, fun i hi hs => ?_⟩
  have hl : (q.buffer.window 0 q.cursors.margin).length = q.cursors.margin := by
    rw [Buffer.length_window]
    unfold capacity at hm
    omega
  rw [Buffer.size_copyInto, Buffer.size_allocate hf] at hs
  rw [Buffer.copyInto, Buffer.get?_fill_of_le (by omega), Buffer.get?_allocate hf, if_pos hs]

/-- Covering the gap changes no byte outside of it. -/
theorem get?_covered (hle : q.cursors.tail ≤ q.cursors.head) {i : Nat}
    (hi : ¬ (q.cursors.tail ≤ i ∧ i < q.cursors.head)) : q.covered.buffer.get? i = q.buffer.get? i := by
  unfold covered
  split
  · rfl
  · rename_i hne
    have hpos : 0 < q.cursors.head - q.cursors.tail := by omega
    have hlen := Block.length_bytes (Payload.length_zeros hpos)
    rcases Nat.lt_or_ge i q.cursors.tail with hlt | hge
    · exact Buffer.get?_fill_of_lt _ hlt
    · exact Buffer.get?_fill_of_le (by omega)

/-- A covered gap holds a block of zeros that just fills it. -/
theorem window_covered (hlt : q.cursors.tail < q.cursors.head) (hb : q.cursors.head ≤ q.capacity) :
    q.covered.buffer.window q.cursors.tail (q.cursors.head - q.cursors.tail) =
      Block.bytes (q.cursors.head - q.cursors.tail) (Payload.zeros (q.cursors.head - q.cursors.tail)) := by
  unfold covered
  rw [if_neg (Nat.ne_of_lt hlt)]
  unfold capacity at hb
  exact Block.window_written (Payload.length_zeros (by omega)) (by omega)

/-- Entries that do not wrap around are only copied. -/
theorem carries_of_copy (hw : ¬ q.cursors.Wraps) (hm : q.cursors.margin ≤ q.capacity)
    (hmf : q.cursors.margin ≤ fresh.size) (hf : Buffer.allocate size = .ok fresh) :
    q.Carries (q.buffer.copyInto fresh q.cursors.margin) q.cursors.margin := by
  obtain ⟨hkept, hzeros⟩ := get?_copyInto hm hmf hf _ rfl
  exact ⟨fun i hi _ => hkept i hi, fun h => absurd h hw, hzeros⟩

/-- Wrapped entries are copied, and then their gap is covered. -/
theorem carries_of_covered (h : Wrapped q.buffer q.cursors older newer) (hmf : q.cursors.margin ≤ fresh.size)
    (hf : Buffer.allocate size = .ok fresh) {moved : Queue}
    (hmoved : moved = { q with buffer := q.buffer.copyInto fresh q.cursors.margin }) :
    q.Carries moved.covered.buffer q.cursors.margin := by
  have hwraps : q.cursors.Wraps := (Layout.wrapped h).wraps_iff.mpr rfl
  have hlt := h.head_lt_margin
  have hcur : moved.cursors = q.cursors := by rw [hmoved]
  obtain ⟨hkept, hzeros⟩ := get?_copyInto h.margin_le_size hmf hf moved.buffer (by rw [hmoved])
  have hsize : moved.capacity = fresh.size := by
    rw [hmoved]
    exact Buffer.size_copyInto _ _ _
  have hcap : moved.covered.buffer.size = moved.buffer.size := moved.covered_keeps.1
  have hle := h.tail_le_head
  rw [← hcur] at hle
  refine ⟨fun i hi hgap => ?_, fun _ hgap => ?_, fun i hi hs => ?_⟩
  · rw [get?_covered hle (by rw [hcur]; exact fun hin => hgap ⟨hwraps, hin⟩)]
    exact hkept i hi
  · have hwindow := window_covered (q := moved) (by rw [hcur]; exact hgap) (by rw [hcur]; omega)
    rwa [hcur] at hwindow
  · rw [get?_covered hle (by rw [hcur]; omega)]
    exact hzeros i hi (by omega)

/-- **A growth carries the bytes below the margin over.** -/
theorem carries_of_grow (h : Layout q.buffer q.cursors shape blocks) (h0 : q.buffer.get? 0 = some 0)
    (hc : q.capacity ≤ q.grownCapacity need) {grown : Outcome Unit} (hg : q.grow need = .ok grown) :
    q.Carries grown.queue.buffer q.cursors.margin := by
  obtain ⟨fresh, hf, _⟩ := bind_eq_ok_iff.mp hg
  have hsize := Buffer.size_allocate hf
  have hm := h.margin_le_size
  have hmf : q.cursors.margin ≤ fresh.size := by unfold capacity at hc; omega
  have hwraps := h.wraps_iff
  cases h with
  | empty hb hcur =>
    have hmargin : q.cursors.margin = 1 := by rw [hcur]; rfl
    have hmove : q.moveInto fresh = .ok ({ q with buffer := fresh }, false) := if_pos hmargin
    cases hg.symm.trans (grow_of_moveInto hf hmove)
    refine ⟨fun i hi _ => ?_, fun hw => (by cases hwraps.mp hw), fun i _ hs => ?_⟩
    · -- Nothing is copied, but the only byte below the margin is the first one.
      have hi0 : i = 0 := by omega
      rw [hi0, h0]
      exact (Buffer.get?_allocate hf 0).trans (if_pos (by omega))
    · exact (Buffer.get?_allocate hf i).trans (if_pos (by rw [← hsize]; exact hs))
  | linear h =>
    cases hg.symm.trans (grow_of_moveInto hf (moveInto_linear h hmf))
    exact carries_of_copy (fun hw => by cases hwraps.mp hw) hm hmf hf
  | @wrapped older newer h =>
    let moved : Queue := { q with buffer := q.buffer.copyInto fresh q.cursors.margin }
    have hw : Wrapped moved.buffer moved.cursors older newer :=
      h.copy (Buffer.agree_copy hm hmf) (by rw [Buffer.size_copyInto]; exact hmf)
    cases hg.symm.trans (grow_of_moveInto hf (moveInto_wrapped h hmf rfl hw))
    exact carries_of_covered h hmf hf rfl

/-- A block behind the margin leaves what a growth has carried over. -/
theorem Carries.write (h : q.Carries b q.cursors.margin) (hp : payload.length < Payload.limit)
    (hle : q.cursors.head ≤ q.cursors.margin) (hs : q.cursors.margin + payload.need ≤ b.size) :
    q.GrownBytes payload (b.fill q.cursors.margin (Block.bytes payload.need payload)) := by
  have hl := Payload.length_add_width hp
  have hlen := Block.length_bytes hl
  refine ⟨⟨fun i hi hgap => ?_, fun hw hlt => ?_, fun i hi hi' => ?_⟩, Block.window_written hl hs⟩
  · rw [Buffer.get?_fill_of_lt _ hi]
    exact h.kept i hi hgap
  · rw [← h.gap hw hlt]
    exact (Buffer.agree_fill_before b q.cursors.margin _ (by omega) _).window_eq
  · rw [Buffer.size_fill] at hi'
    rw [Buffer.get?_fill_of_le (by omega)]
    exact h.zeros i (by omega) hi'

/-! ## Pushing -/

/-- A block that is written at the tail is all that changes. -/
theorem buffer_appendAtTail (h : q.appendAtTail size payload = .ok r) :
    r.buffer = q.buffer.fill q.cursors.tail (Block.bytes size payload) ∧ q.cursors.tail + size ≤ q.capacity := by
  simp only [appendAtTail, writeBlock, bind_eq_ok_iff] at h
  obtain ⟨_, ⟨header, hheader, start, hstart, stop, hstop, b, hb, c, hc, _, _, hr⟩, _, _, hrr⟩ := h
  cases hr
  cases hrr
  obtain rfl := Varint.eq_encode_of_header hheader
  obtain ⟨rfl, _, _, _⟩ := Buffer.eq_fill_of_replace hb
  obtain ⟨rfl, _, hle, _⟩ := Buffer.eq_fill_of_replace hc
  rw [Buffer.size_fill] at hle
  refine ⟨?_, by rw [← Word.eq_of_add hstop]; exact hle⟩
  rw [Word.eq_of_add hstart, Block.bytes, Buffer.fill_append]

/-- A block that is placed leaves the other bytes. -/
theorem placedBytes_of_slot (h : Layout q.buffer q.cursors shape blocks) (hp : payload.length < Payload.limit)
    (hslot : q.cursors.slot? q.capacity payload.need = .ok (some offset)) :
    q.PlacedBytes blocks payload offset (q.placed offset payload).buffer := by
  obtain ⟨_, w, shape', h'⟩ := appendAtTail_of_slot h hp hslot
  have hl := Payload.length_add_width hp
  have hlen := Block.length_bytes hl
  have hb := add_le_of_slot h payload.need_pos (Payload.need_add_lt hp) hslot
  have hm : Block.written offset payload.need ∈ blocks ++ [Block.written offset payload.need] :=
    List.mem_append_right _ List.mem_cons_self
  have ha := (List.pairwise_append.mp h'.apart).2.2
  refine ⟨(h'.mem _ hm).2.1, hb, fun x hx => ha x hx _ List.mem_cons_self, Block.window_written hl hb, ?_⟩
  rintro i (hi | hi)
  · exact Buffer.get?_fill_of_lt _ hi
  · exact Buffer.get?_fill_of_le (show offset + (Block.bytes payload.need payload).length ≤ i by omega)

/-- A push that grows leaves what the growth has carried over. -/
theorem grownBytes_of_push (hq : Reachable q) (h0 : q.buffer.get? 0 = some 0) (hp : payload.length < Payload.limit)
    (ha : q.Allocates payload.need) (hroom : ¬ q.HasRoom payload.need) (hceil : ¬ q.MeetsCeiling payload.need)
    (hpush : q.push payload = .ok pushed) : q.GrownBytes payload pushed.queue.buffer := by
  obtain ⟨shape, blocks, h⟩ := hq.layout
  obtain ⟨grown, pushed', hgrow, hk, ht, hpush', happ, _⟩ := exists_growth hq hp ha hroom hceil
  cases hpush.symm.trans hpush'
  obtain ⟨hbuf, hs⟩ := buffer_appendAtTail happ
  have hmet := ceilingMet?_eq hq hp
  rw [if_neg hceil] at hmet
  have hcap := add_le_grownCapacity (q.capacity_add_need_lt hp) hmet
  have hcarries := carries_of_grow h h0 (by omega) hgrow
  rw [ht] at hbuf hs
  rw [hbuf]
  exact hcarries.write hp h.head_le_margin hs

/-- **A push leaves the bytes that it does not write.** -/
theorem leavesBytes_of_push (hq : Reachable q) (h : Layout q.buffer q.cursors shape blocks)
    (h0 : q.buffer.get? 0 = some 0) (hp : payload.length < Payload.limit) (hpush : q.push payload = .ok pushed) :
    q.LeavesBytes blocks payload pushed := by
  have ha := allocates_of_push hp hpush
  obtain ⟨pushed', _, _, hpush', hpushed, _⟩ := push_of_layout h hp ha
  cases hpush.symm.trans hpush'
  cases hpushed with
  | placed hslot w =>
    have hbytes := placedBytes_of_slot h hp hslot
    refine ⟨fun _ hr => (by cases hr), fun offset hr _ => ?_, fun _ _ hk => absurd (q.capacity_placed _ payload) hk⟩
    cases hr
    exact hbytes
  | refused hslot hm => exact ⟨fun _ _ => rfl, fun _ hr => (by cases hr), fun _ hr => (by cases hr)⟩
  | @grown g _ hslot hm hg w =>
    have hlt : q.capacity < (g.placed q.cursors.margin payload).capacity := by
      rw [capacity_placed]
      exact hg.capacity_lt hm w
    have hroom : ¬ q.HasRoom payload.need :=
      (h.slot?_eq_none_iff payload.need_pos (Payload.need_add_lt hp)).mp hslot
    have hceil : ¬ q.MeetsCeiling payload.need := by
      intro hmeets
      have hmet := ceilingMet?_eq hq hp
      rw [if_pos hmeets, hm] at hmet
      cases hmet
    have hbytes := grownBytes_of_push hq h0 hp ha hroom hceil hpush
    refine ⟨fun _ hr => (by cases hr), fun _ _ hk => absurd hk (Nat.ne_of_gt hlt), fun offset hr _ => ?_⟩
    cases hr
    exact ⟨rfl, hbytes⟩

/-! ## All operations -/

/-- Every request but a push succeeds and leaves the buffer as it is. -/
theorem buffer_of_ask (h : Layout q.buffer q.cursors shape blocks) (hr : ∀ payload, request ≠ .push payload) :
    ∃ outcome, q.ask request = .ok outcome ∧ outcome.queue.buffer = q.buffer := by
  have ha : q.Admits request := by
    cases request with
    | push payload => exact absurd rfl (hr payload)
    | _ => trivial
  obtain ⟨outcome, _, _, ho, hans, _⟩ := ask_of_layout h ha
  refine ⟨outcome, ho, ?_⟩
  cases hans with
  | push hp => exact absurd rfl (hr _)
  | _ => rfl

/-- A push leaves the first byte as it is. -/
theorem LeavesBytes.get?_zero (hb : q.LeavesBytes blocks payload pushed) (h : Layout q.buffer q.cursors shape blocks) :
    pushed.queue.buffer.get? 0 = q.buffer.get? 0 := by
  obtain ⟨⟨hf, _⟩, ⟨ht, _⟩, _⟩ := h.consistent
  have hm := h.head_le_margin
  unfold Block.firstOffset at hf ht
  cases hr : pushed.reply with
  | error refusal => rw [hb.refused refusal hr]
  | ok offset =>
    by_cases hk : pushed.queue.capacity = q.capacity
    · have hplaced := hb.placed offset hr hk
      have hfirst := hplaced.first_le
      exact hplaced.outside 0 (.inl (by unfold Block.firstOffset at hfirst; omega))
    · refine (hb.grown offset hr hk).2.kept 0 (by omega) fun hgap => ?_
      have := hgap.2.1
      omega

/-- A new queue has a fresh buffer. -/
theorem allocate_of_create {capacity maxCapacity : Nat} {verbose : Bool}
    (hq : Queue.create capacity maxCapacity verbose = .ok (.ok q)) : Buffer.allocate capacity = .ok q.buffer := by
  unfold Queue.create at hq
  split at hq
  · cases hq
  split at hq
  · cases hq
  · obtain ⟨b, hb, he⟩ := bind_eq_ok_iff.mp hq
    cases he
    exact hb

/-- **The first byte of a reachable queue is 0.** -/
theorem Reachable.get?_zero (h : Reachable q) : q.buffer.get? 0 = some 0 := by
  induction h with
  | create hq =>
    obtain ⟨hpos, _⟩ := fields_of_create hq
    exact (Buffer.get?_allocate (allocate_of_create hq) 0).trans (if_pos hpos)
  | @ask q request outcome hq ho ih =>
    obtain ⟨shape, blocks, h⟩ := hq.layout
    by_cases hr : ∃ payload, request = .push payload
    · obtain ⟨payload, rfl⟩ := hr
      simp only [Queue.ask, bind_eq_ok_iff, pure, Except.pure, Except.ok.injEq] at ho
      obtain ⟨pushed, hpush, rfl⟩ := ho
      rcases Nat.lt_or_ge payload.length Payload.limit with hp | hp
      · exact ((leavesBytes_of_push hq h ih hp hpush).get?_zero h).trans ih
      · have hsame : pushed.queue = q ∧ Pushed q payload shape blocks pushed blocks := pushed_of_limit_le hp hpush
        rw [Outcome.map, hsame.1]
        exact ih
    · obtain ⟨outcome', ho', hb⟩ := buffer_of_ask h fun payload hp => hr ⟨payload, hp⟩
      cases ho.symm.trans ho'
      rw [hb]
      exact ih

/-- **What an operation changes of the bytes.** The first byte is always 0. Only a push changes any byte at all: those
of its block if it does not grow the queue; and if it does, those of its block and of a covered gap, with zeros in the
rest of the new buffer. -/
theorem changes_only_own_bytes (hq : Reachable q) : q.buffer.get? 0 = some 0 ∧
    (∀ request, (∀ payload, request ≠ .push payload) →
      ∃ outcome, q.ask request = .ok outcome ∧ outcome.queue.buffer = q.buffer) ∧
    ∃ shape blocks, Layout q.buffer q.cursors shape blocks ∧
      ∀ payload : Payload, payload.length < Payload.limit → q.Allocates payload.need →
        ∃ pushed, q.push payload = .ok pushed ∧ q.LeavesBytes blocks payload pushed := by
  obtain ⟨shape, blocks, h⟩ := hq.layout
  refine ⟨hq.get?_zero, fun request hr => buffer_of_ask h hr, shape, blocks, h, fun payload hp ha => ?_⟩
  obtain ⟨pushed, _, _, hpush, _⟩ := push_of_layout h hp ha
  exact ⟨pushed, hpush, leavesBytes_of_push hq h hq.get?_zero hp hpush⟩

/-- A queue that wraps around with two free bytes before its head, both of them stale: a push that needs more grows it,
covers them with a header and a zero, and goes behind the margin. -/
theorem changes_only_own_bytes_covering : ∃ (q : Queue) (blocks : List Block) (pushed : Outcome (Except Refusal Nat)),
    q.cursors = { head := 5, tail := 3, margin := 8, count := 2 } ∧ q.buffer.window 3 2 = [3, 3] ∧ Reachable q ∧
      q.push [6, 7, 8] = .ok pushed ∧ q.LeavesBytes blocks [6, 7, 8] pushed ∧ pushed.queue.capacity = 18 ∧
      pushed.queue.buffer.window 3 2 = [2, 0] := by
  let q : Queue := {
    buffer := ⟨#[0, 2, 5, 3, 3, 3, 3, 4, 0], by decide⟩
    cursors := { head := 5, tail := 3, margin := 8, count := 2 } }
  have hq : Reachable q := reachable_iff.mpr ⟨9, 0, false, { buffer := ⟨Array.replicate 9 0, by decide⟩ },
    [.push [1, 3, 3], .push [3, 4], .pop, .push [5]], by cbv, by cbv⟩
  obtain ⟨_, _, _, blocks, _, hall⟩ := changes_only_own_bytes hq
  obtain ⟨pushed, hpush, hbytes⟩ := hall [6, 7, 8] (by decide) (by decide)
  have hgrown : ∃ pushed', q.push [6, 7, 8] = .ok pushed' ∧ pushed'.reply = .ok 8 ∧ pushed'.queue.capacity = 18 :=
    ⟨_, by cbv, by rfl, by rfl⟩
  obtain ⟨pushed', hpush', hr, hk⟩ := hgrown
  cases hpush.symm.trans hpush'
  have hgap := (hbytes.grown 8 hr (by rw [hk]; decide)).2.gap (by decide) (by decide)
  exact ⟨q, blocks, pushed, rfl, by decide, hq, hpush, hbytes, hk, hgap.trans (by cbv)⟩

end Queue
end BlockRing
