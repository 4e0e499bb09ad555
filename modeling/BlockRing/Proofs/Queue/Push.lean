import BlockRing.Proofs.Queue.Growth

/-!
# What a push does

`Pushed` lists the three ways in which a push ends: the block is placed where the cursors have room, the push is refused
and nothing changes, or the queue grows and the block is placed behind all others.

- A push of a payload below the limit succeeds if the buffer that it may ask for can be allocated (`Allocates`), and
  ends in one of these ways with a layout again (`push_of_layout`).
- A push that succeeds has ended in one of these ways, whatever the payload (`pushed_of_push`): the block of a payload
  beyond the limit is never written.
-/

namespace BlockRing

/-- A sequence of two computations succeeds if both do. -/
theorem bind_eq_ok_iff {α β : Type} {x : Except Fault α} {f : α → Except Fault β} {z : β} :
    (x >>= f) = .ok z ↔ ∃ y, x = .ok y ∧ f y = .ok z := by
  cases x <;> simp [bind, Except.bind]

theorem Word.eq_of_add {a b n : Nat} (h : Word.add a b = .ok n) : n = a + b := by
  unfold Word.add at h
  split at h <;> cases h
  rfl

namespace Payload

/-- The size of the block of a payload. -/
def need (payload : Payload) : Nat := payload.length + Block.headerWidth payload.length

variable {payload : Payload}

theorem need_pos (payload : Payload) : 0 < payload.need := by
  have := Block.headerWidth_bounds payload.length
  unfold need
  omega

theorem need_lt (h : payload.length < limit) : payload.need < 2 ^ 35 := by
  have := Block.headerWidth_bounds payload.length
  unfold limit at h
  unfold need
  omega

theorem need_add_lt (h : payload.length < limit) : payload.need + Block.minSize < Word.bound := by
  have := need_lt h
  unfold Block.minSize Word.bound
  omega

/-- Payload and header fill the block. -/
theorem length_add_width (h : payload.length < limit) : payload.length + Varint.width payload.need = payload.need := by
  unfold need
  rw [Block.width_add_headerWidth h]

/-- A payload beyond the limit leaves no room for its header. -/
theorem length_add_width_ne (h : limit ≤ payload.length) :
    payload.length + Varint.width payload.need ≠ payload.need := by
  have := Block.headerWidth_lt_width h
  unfold need
  omega

end Payload

namespace Queue

variable {q g : Queue} {shape : Shape} {blocks blocks' : List Block} {offset ceiling size : Nat} {payload : Payload}

/-- The queue once a payload has been placed at an offset. -/
def placed (q : Queue) (offset : Nat) (payload : Payload) : Queue :=
  ({ q with cursors.tail := offset } : Queue).extended payload.need payload

theorem capacity_placed (q : Queue) (offset : Nat) (payload : Payload) :
    (q.placed offset payload).capacity = q.capacity := Buffer.size_fill _ _ _

/-- **The ways in which a push ends**, and the blocks that are in use then. -/
inductive Pushed (q : Queue) (payload : Payload) (shape : Shape) (blocks : List Block) :
    Outcome (Except Refusal Nat) → List Block → Prop
  /-- The cursors have room. -/
  | placed {offset : Nat} (hslot : q.cursors.slot? q.capacity payload.need = .ok (some offset))
      (w : Writes q.buffer (q.placed offset payload).buffer (Block.written offset payload.need) payload) :
      Pushed q payload shape blocks { reply := .ok offset, queue := q.placed offset payload }
        (blocks ++ [Block.written offset payload.need])
  /-- There is no room, and the ceiling is in the way. -/
  | refused {ceiling : Nat} (hslot : q.cursors.slot? q.capacity payload.need = .ok none)
      (hm : q.ceilingMet? payload.need = some ceiling) :
      Pushed q payload shape blocks { reply := .error (.noRoom payload.need q.capacity ceiling), queue := q } blocks
  /-- There is no room, and the queue grows. -/
  | grown {g : Queue} {blocks' : List Block} (hslot : q.cursors.slot? q.capacity payload.need = .ok none)
      (hm : q.ceilingMet? payload.need = none) (hg : Grown q payload.need shape blocks g blocks')
      (w : Writes g.buffer (g.placed q.cursors.margin payload).buffer
        (Block.written q.cursors.margin payload.need) payload) :
      Pushed q payload shape blocks
        { reply := .ok q.cursors.margin
          queue := g.placed q.cursors.margin payload
          reports := q.reporting.reports (q.growthFor payload.need shape) }
        (blocks' ++ [Block.written q.cursors.margin payload.need])

/-- A push leaves the ceiling and the reporting as they are. -/
theorem Pushed.keeps_settings {pushed : Outcome (Except Refusal Nat)}
    (hp : Pushed q payload shape blocks pushed blocks') :
    pushed.queue.ceiling = q.ceiling ∧ pushed.queue.reporting = q.reporting := by
  cases hp with
  | placed hslot w => exact ⟨rfl, rfl⟩
  | refused hslot hm => exact ⟨rfl, rfl⟩
  | grown hslot hm hg w => exact ⟨hg.ceiling_eq, hg.reporting_eq⟩

/-- A push leaves the buffer its size, or makes it as large as a growth does. -/
theorem Pushed.capacity_eq_or {pushed : Outcome (Except Refusal Nat)}
    (hp : Pushed q payload shape blocks pushed blocks') :
    pushed.queue.capacity = q.capacity ∨ pushed.queue.capacity = q.grownCapacity payload.need := by
  cases hp with
  | placed hslot w => exact .inl (q.capacity_placed _ payload)
  | refused hslot hm => exact .inl rfl
  | @grown g _ hslot hm hg w => exact .inr ((g.capacity_placed _ payload).trans hg.capacity_eq)

/-- The buffer that a push may ask for can be allocated. -/
def Allocates (q : Queue) (need : Nat) : Prop :=
  q.cursors.slot? q.capacity need = .ok none → q.ceilingMet? need = none → q.grownCapacity need ≤ Buffer.maxSize

instance (q : Queue) (need : Nat) : Decidable (q.Allocates need) :=
  match hs : q.cursors.slot? q.capacity need, hm : q.ceilingMet? need with
  | .ok none, none => decidable_of_iff (q.grownCapacity need ≤ Buffer.maxSize) (by simp [Allocates, hs, hm])
  | .ok none, some _ => isTrue (by simp [Allocates, hm])
  | .ok (some _), _ => isTrue (by simp [Allocates, hs])
  | .error _, _ => isTrue (by simp [Allocates, hs])

/-- A growth makes the buffer larger if the block that it was made for is written then. -/
theorem Grown.capacity_lt {b : Buffer} (hg : Grown q payload.need shape blocks g blocks')
    (hm : q.ceilingMet? payload.need = none) (w : Writes g.buffer b (Block.written offset payload.need) payload) :
    q.capacity < g.capacity := by
  have hfit : offset + payload.need ≤ g.buffer.size := w.stop_le_size
  have hlt : q.capacity + payload.need < Word.bound :=
    Buffer.add_lt_bound (c := g.buffer) (Nat.le_refl q.buffer.size) (by omega)
  have hle := add_le_grownCapacity hlt hm
  have hpos := payload.need_pos
  rw [hg.capacity_eq]
  omega

/-! ## Placing a block -/

/-- A place that was found reaches no farther than the buffer. -/
theorem add_le_of_slot (h : Layout q.buffer q.cursors shape blocks) (hp : 0 < size)
    (hn : size + Block.minSize < Word.bound) (hslot : q.cursors.slot? q.capacity size = .ok (some offset)) :
    offset + size ≤ q.capacity := by
  unfold capacity at *
  cases h with
  | empty hb hc =>
    rw [hc, slot?_empty hb hp hn] at hslot
    split at hslot <;> cases hslot
    assumption
  | linear h =>
    have h1 := h.head_lt_tail
    have h2 := h.tail_eq_margin
    have h3 := h.margin_le_size
    rw [h.slot?_eq hn] at hslot
    split at hslot
    · cases hslot
      assumption
    split at hslot <;> cases hslot
    omega
  | wrapped h =>
    have h1 := h.head_lt_margin
    have h2 := h.margin_le_size
    rw [h.slot?_eq hp hn] at hslot
    split at hslot <;> cases hslot
    omega

theorem appendAtTail_eq_ok (hw : q.writeBlock size payload = .ok g) (hg : g.cursors.Consistent g.capacity) :
    q.appendAtTail size payload = .ok g := by
  have ha := Cursors.audit_eq_ok_iff.mpr hg
  simp only [appendAtTail, hw, ha, bind, Except.bind]
  rfl

/-- A block for which there is room is written, and becomes the last one. -/
theorem appendAtTail_of_slot (h : Layout q.buffer q.cursors shape blocks) (hp : payload.length < Payload.limit)
    (hslot : q.cursors.slot? q.capacity payload.need = .ok (some offset)) :
    ({ q with cursors.tail := offset } : Queue).appendAtTail payload.need payload = .ok (q.placed offset payload) ∧
      Writes q.buffer (q.placed offset payload).buffer (Block.written offset payload.need) payload ∧
      ∃ shape', Layout (q.placed offset payload).buffer (q.placed offset payload).cursors shape'
        (blocks ++ [Block.written offset payload.need]) := by
  have hl := Payload.length_add_width hp
  have hb := add_le_of_slot h payload.need_pos (Payload.need_add_lt hp) hslot
  have hw : ({ q with cursors.tail := offset } : Queue).writeBlock payload.need payload =
      .ok (q.placed offset payload) := writeBlock_eq_ok hl hb h.count_lt
  have w : Writes q.buffer (q.placed offset payload).buffer (Block.written offset payload.need) payload :=
    writes_extended { q with cursors.tail := offset } hl hb
  obtain ⟨shape', h'⟩ := h.place w (Payload.need_add_lt hp) hslot
  exact ⟨appendAtTail_eq_ok hw h'.consistent, w, shape', h'⟩

/-- A queue that has grown takes the block at its tail if the buffer reaches far enough behind the old margin. -/
theorem slot?_of_grown (hg : Grown q payload.need shape blocks g blocks')
    (hp : payload.length < Payload.limit) (hc : q.cursors.margin + payload.need ≤ q.grownCapacity payload.need) :
    g.cursors.slot? g.capacity payload.need = .ok (some q.cursors.margin) := by
  have hn := Payload.need_add_lt hp
  have hcap := hg.capacity_eq
  have htail := hg.tail_eq
  obtain ⟨shape', hns, hg'⟩ := hg.layout
  have hroom : g.cursors.tail + payload.need ≤ g.buffer.size := by
    unfold capacity at *
    omega
  rw [← htail]
  cases hg' with
  | empty hb hcur =>
    rw [hcur] at hroom ⊢
    exact (slot?_empty hb payload.need_pos hn).trans (congrArg Except.ok (if_pos hroom))
  | linear hg' => exact (hg'.slot?_eq hn).trans (congrArg Except.ok (if_pos hroom))
  | wrapped hg' => exact absurd rfl hns

/-! ## Pushing -/

/-- A payload below the limit is far from leaving the machine word on top of the buffer. -/
theorem capacity_add_need_lt (q : Queue) (hp : payload.length < Payload.limit) :
    q.capacity + payload.need < Word.bound := by
  have h1 := Payload.need_lt hp
  have h2 := q.buffer.size_le_maxSize
  unfold Buffer.maxSize at h2
  unfold capacity Word.bound
  omega

/-- **A push of a payload below the limit ends in one of its ways**, if what it asks for can be allocated. -/
theorem push_of_layout (h : Layout q.buffer q.cursors shape blocks) (hp : payload.length < Payload.limit)
    (ha : q.Allocates payload.need) :
    ∃ outcome shape' blocks', q.push payload = .ok outcome ∧ Pushed q payload shape blocks outcome blocks' ∧
      Layout outcome.queue.buffer outcome.queue.cursors shape' blocks' := by
  have hneed : Block.sizeFor payload.length = .ok payload.need := Block.sizeFor_eq_ok hp
  have hn := Payload.need_add_lt hp
  obtain ⟨slot, hslot⟩ : ∃ slot, q.cursors.slot? q.capacity payload.need = .ok slot :=
    h.exists_slot? payload.need_pos hn
  cases slot with
  | some offset =>
    obtain ⟨hw, w, shape', h'⟩ := appendAtTail_of_slot h hp hslot
    refine ⟨_, shape', _, ?_, .placed hslot w, h'⟩
    simp only [push, hneed, hslot, hw, bind, Except.bind, pure, Except.pure]
  | none =>
    cases hm : q.ceilingMet? payload.need with
    | some ceiling =>
      refine ⟨_, shape, _, ?_, .refused hslot hm, h⟩
      simp only [push, hneed, hslot, hm, bind, Except.bind, pure, Except.pure]
    | none =>
      have hc := add_le_grownCapacity (q.capacity_add_need_lt hp) hm
      obtain ⟨g, blocks', hgrow, hg⟩ := grow_of_layout h (by omega) (ha hslot hm)
      have hm' : q.cursors.margin ≤ q.capacity := h.margin_le_size
      have hslot' := slot?_of_grown hg hp (by omega)
      obtain ⟨shape', _, hg'⟩ := id hg.layout
      obtain ⟨hw, w, shape'', h'⟩ := appendAtTail_of_slot hg' hp hslot'
      refine ⟨_, shape'', _, ?_, .grown hslot hm hg w, h'⟩
      have htail : ({ g with cursors.tail := q.cursors.margin } : Queue) = g := by rw [← hg.tail_eq]
      rw [htail] at hw
      simp only [push, hneed, hslot, hm, hgrow, hw, hg.tail_eq, bind, Except.bind, pure, Except.pure]

/-! ## Pushes that succeed -/

/-- A block is written only if its header and its payload fill it. -/
theorem length_of_writeBlock (h : q.writeBlock size payload = .ok g) :
    payload.length + Varint.width size = size := by
  simp only [writeBlock, bind_eq_ok_iff] at h
  obtain ⟨header, hheader, start, hstart, stop, hstop, b, _, c, hc, _⟩ := h
  obtain rfl := Varint.eq_encode_of_header hheader
  have h1 := Word.eq_of_add hstart
  have h2 := Word.eq_of_add hstop
  obtain ⟨_, hle, _, hl⟩ := Buffer.eq_fill_of_replace hc
  have hw : (Varint.encode size).length = Varint.width size := rfl
  omega

theorem length_of_appendAtTail (h : q.appendAtTail size payload = .ok g) :
    payload.length + Varint.width size = size := by
  simp only [appendAtTail, bind_eq_ok_iff] at h
  obtain ⟨_, hw, _⟩ := h
  exact length_of_writeBlock hw

/-- A push that grows has been given the buffer that it asked for. -/
theorem allocates_of_push {outcome : Outcome (Except Refusal Nat)} (hp : payload.length < Payload.limit)
    (h : q.push payload = .ok outcome) : q.Allocates payload.need := by
  intro hslot hm
  have hneed : Block.sizeFor payload.length = .ok payload.need := Block.sizeFor_eq_ok hp
  simp only [push, hneed, hslot, hm, bind_eq_ok_iff, Except.ok.injEq, exists_eq_left'] at h
  obtain ⟨grown, hgrow, _⟩ := h
  simp only [grow, bind_eq_ok_iff] at hgrow
  obtain ⟨fresh, hfresh, _⟩ := hgrow
  exact Buffer.exists_allocate.mp ⟨fresh, hfresh⟩

/-- A payload beyond the limit can only be refused. -/
theorem pushed_of_limit_le {outcome : Outcome (Except Refusal Nat)} (hp : Payload.limit ≤ payload.length)
    (h : q.push payload = .ok outcome) : outcome.queue = q ∧ Pushed q payload shape blocks outcome blocks := by
  simp only [push, bind_eq_ok_iff] at h
  obtain ⟨need, hneed, slot, hslot, h⟩ := h
  have he : need = payload.need := Block.eq_of_sizeFor hneed
  subst he
  cases slot with
  | some offset =>
    obtain ⟨_, hw, _⟩ := bind_eq_ok_iff.mp h
    exact absurd (length_of_appendAtTail hw) (Payload.length_add_width_ne hp)
  | none =>
    cases hm : q.ceilingMet? payload.need with
    | some ceiling =>
      simp only [hm] at h
      cases h
      exact ⟨rfl, .refused hslot hm⟩
    | none =>
      simp only [hm, bind_eq_ok_iff] at h
      obtain ⟨_, _, _, hw, _⟩ := h
      exact absurd (length_of_appendAtTail hw) (Payload.length_add_width_ne hp)

/-- **A push that succeeds has ended in one of its ways.** -/
theorem pushed_of_push {outcome : Outcome (Except Refusal Nat)} (h : Layout q.buffer q.cursors shape blocks)
    (hpush : q.push payload = .ok outcome) :
    ∃ shape' blocks', Pushed q payload shape blocks outcome blocks' ∧
      Layout outcome.queue.buffer outcome.queue.cursors shape' blocks' := by
  rcases Nat.lt_or_ge payload.length Payload.limit with hp | hp
  · obtain ⟨outcome', shape', blocks', hpush', hpushed, h'⟩ := push_of_layout h hp (allocates_of_push hp hpush)
    cases hpush.symm.trans hpush'
    exact ⟨shape', blocks', hpushed, h'⟩
  · obtain ⟨hq, hpushed⟩ := pushed_of_limit_le hp hpush
    exact ⟨shape, blocks, hpushed, by rw [hq]; exact h⟩

end Queue
end BlockRing
