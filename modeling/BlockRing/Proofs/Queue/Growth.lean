import BlockRing.Proofs.Change
import BlockRing.Queue.Push

/-!
# Queues that grow

- A block can be written at the tail wherever the buffer reaches far enough (`writeBlock_eq_ok`).
- A gap before the head is covered by a block of zeros that just fills it (`Wrapped.coverGap_eq_ok`,
  `Wrapped.covered`).
- A growth succeeds if the larger buffer can be allocated (`grow_of_layout`). It leaves what `Grown` says: every block
  keeps its offset and its entry, the tail comes to where the margin was, and only wrapped blocks change their order.
- The larger buffer has room for the block that it was made for (`add_le_grownCapacity`).
-/

namespace BlockRing

/-- The payload of a block of zeros that fills a gap. -/
def Payload.zeros (gap : Nat) : Payload := List.replicate (gap - Varint.width gap) 0

/-- The gap between tail and head as a block, if there is one. -/
def Cursors.filler (c : Cursors) : List Block :=
  if c.tail = c.head then [] else [Block.written c.tail (c.head - c.tail)]

/-- The entry that covers the gap between tail and head, if there is one. -/
def Cursors.fillerEntry (c : Cursors) : List Entry :=
  if c.tail = c.head then [] else [{ offset := c.tail, payload := Payload.zeros (c.head - c.tail) }]

theorem Payload.length_zeros {gap : Nat} (h : 0 < gap) : (zeros gap).length + Varint.width gap = gap := by
  have := Varint.width_le_self h
  rw [zeros, List.length_replicate]
  omega

namespace Queue

variable {q : Queue} {shape : Shape} {blocks older newer : List Block} {size need : Nat} {payload : Payload}

/-! ## Writing at the tail -/

/-- The queue once a block has been written at its tail. -/
def extended (q : Queue) (size : Nat) (payload : Payload) : Queue :=
  { q with
    buffer := q.buffer.fill q.cursors.tail (Block.bytes size payload)
    cursors := q.cursors.extend (q.cursors.tail + size) }

/-- A block can be written where the buffer reaches far enough. -/
theorem writeBlock_eq_ok (hl : payload.length + Varint.width size = size) (hb : q.cursors.tail + size ≤ q.capacity)
    (hc : q.cursors.count + 1 < Word.bound) : q.writeBlock size payload = .ok (q.extended size payload) := by
  have hw : (Varint.encode size).length = Varint.width size := rfl
  have hlt : q.cursors.tail + size < Word.bound := Buffer.lt_bound hb
  unfold capacity at hb
  have h0 : Varint.header size = .ok (Varint.encode size) := Varint.header_eq_ok (by omega)
  have h1 : Word.add q.cursors.tail (Varint.width size) = .ok (q.cursors.tail + Varint.width size) :=
    Word.add_eq_ok (by omega)
  have h2 : Word.add q.cursors.tail size = .ok (q.cursors.tail + size) := Word.add_eq_ok hlt
  have h3 : q.buffer.replace q.cursors.tail (q.cursors.tail + Varint.width size) (Varint.encode size) =
      .ok (q.buffer.fill q.cursors.tail (Varint.encode size)) := by
    rw [← hw]
    exact Buffer.replace_eq_ok (by omega)
  have h4 : (q.buffer.fill q.cursors.tail (Varint.encode size)).replace (q.cursors.tail + Varint.width size)
      (q.cursors.tail + size) payload = .ok (q.buffer.fill q.cursors.tail (Block.bytes size payload)) := by
    rw [show q.cursors.tail + size = q.cursors.tail + Varint.width size + payload.length by omega, Block.bytes,
      Buffer.fill_append, hw]
    exact Buffer.replace_eq_ok (by rw [Buffer.size_fill]; omega)
  have h5 : q.cursors.append (q.cursors.tail + size) = .ok (q.cursors.extend (q.cursors.tail + size)) :=
    Cursors.append_eq_ok hc
  simp only [writeBlock, h0, hw, h1, h2, h3, h4, h5, bind, Except.bind, pure, Except.pure]
  rfl

theorem writes_extended (q : Queue) (hl : payload.length + Varint.width size = size)
    (hb : q.cursors.tail + size ≤ q.capacity) :
    Writes q.buffer (q.extended size payload).buffer (Block.written q.cursors.tail size) payload :=
  writes_fill hl hb

/-! ## Covering the gap -/

/-- The queue once the gap between tail and head has been covered. -/
def covered (q : Queue) : Queue :=
  if q.cursors.tail = q.cursors.head then q
  else q.extended (q.cursors.head - q.cursors.tail) (Payload.zeros (q.cursors.head - q.cursors.tail))

end Queue

section Cover

variable {q : Queue} {older newer : List Block}

theorem Wrapped.coverGap_eq_ok (h : Wrapped q.buffer q.cursors older newer) : q.coverGap = .ok q.covered := by
  have hcount := (Layout.wrapped h).count_lt
  obtain ⟨_, hle, hlt, hm, _, _, _, _⟩ := h
  unfold Queue.coverGap Queue.covered
  split
  · rfl
  · rename_i hne
    have hpos : 0 < q.cursors.head - q.cursors.tail := by omega
    have hmin : ¬ q.cursors.head - q.cursors.tail < Block.minSize := by unfold Block.minSize; omega
    simp only [Word.sub_eq_ok hle, bind, Except.bind, if_neg hmin]
    exact Queue.writeBlock_eq_ok (Payload.length_zeros hpos) (by unfold Queue.capacity; omega) hcount

/-- Covering the gap closes it, and keeps all blocks. -/
theorem Wrapped.covered (h : Wrapped q.buffer q.cursors older newer) :
    Wrapped q.covered.buffer q.covered.cursors older (newer ++ q.cursors.filler) ∧
      q.covered.cursors.tail = q.covered.cursors.head ∧
      (∀ x ∈ older ++ newer, Block.entry q.covered.buffer x = Block.entry q.buffer x) ∧
      q.cursors.filler.map (Block.entry q.covered.buffer) = q.cursors.fillerEntry := by
  have hle := h.tail_le_head
  have hlt := h.head_lt_margin
  have hm := h.margin_le_size
  unfold Queue.covered Cursors.filler Cursors.fillerEntry
  split
  · rename_i he
    rw [List.append_nil]
    exact ⟨h, he, fun _ _ => rfl, rfl⟩
  · rename_i hne
    have hpos : 0 < q.cursors.head - q.cursors.tail := by omega
    have hstop : q.cursors.tail + (q.cursors.head - q.cursors.tail) = q.cursors.head := by omega
    have w := q.writes_extended (Payload.length_zeros hpos) (by unfold Queue.capacity; omega)
    have h' := h.extend w rfl (show q.cursors.tail + (q.cursors.head - q.cursors.tail) ≤ q.cursors.head by omega)
    have hall := Layout.wrapped h'
    rw [← List.append_assoc] at hall
    refine ⟨h', hstop, (Layout.wrapped h).entry_of_writes w hall, ?_⟩
    rw [List.map_singleton, w.entry_written]
    rfl

theorem Queue.covered_keeps (q : Queue) : q.covered.capacity = q.capacity ∧ q.covered.ceiling = q.ceiling ∧
    q.covered.reporting = q.reporting := by
  unfold Queue.covered
  split
  · exact ⟨rfl, rfl, rfl⟩
  · exact ⟨Buffer.size_fill _ _ _, rfl, rfl⟩

theorem Wrapped.covered_margin (h : Wrapped q.buffer q.cursors older newer) :
    q.covered.cursors.margin = q.cursors.margin := by
  have hle := h.tail_le_head
  unfold Queue.covered
  split
  · rfl
  · exact Cursors.extend_margin_of_le (by omega)

end Cover

/-! ## Growing -/

namespace Queue

/-- How the order of the blocks of `q` changes in the queue `g` that it grows to. -/
inductive Reordered (q g : Queue) : Shape → List Block → List Block → Prop
  /-- Blocks that do not wrap around stay in order. -/
  | kept {shape : Shape} {blocks : List Block} (h : shape ≠ .wrapped) : Reordered q g shape blocks blocks
  /-- Wrapped ones are put in line: the newer ones, the covered gap, the older ones. -/
  | inLine {older newer : List Block} (h : Wrapped q.buffer q.cursors older newer)
      (hf : q.cursors.filler.map (Block.entry g.buffer) = q.cursors.fillerEntry) :
      Reordered q g .wrapped (older ++ newer) (newer ++ q.cursors.filler ++ older)

/-- What a queue with given blocks becomes when it grows for a block of `need` bytes. -/
structure Grown (q : Queue) (need : Nat) (shape : Shape) (blocks : List Block) (g : Queue) (blocks' : List Block) :
    Prop where
  capacity_eq : g.capacity = q.grownCapacity need
  ceiling_eq : g.ceiling = q.ceiling
  reporting_eq : g.reporting = q.reporting
  tail_eq : g.cursors.tail = q.cursors.margin
  layout : ∃ shape', shape' ≠ .wrapped ∧ Layout g.buffer g.cursors shape' blocks'
  entry_eq : ∀ x ∈ blocks, Block.entry g.buffer x = Block.entry q.buffer x
  order : Reordered q g shape blocks blocks'

/-- The growth that a queue reports when its blocks have a given shape. -/
def growthFor (q : Queue) (need : Nat) (shape : Shape) : Growth where
  previousCapacity := q.capacity
  capacity := q.grownCapacity need
  wrapped := decide (shape = .wrapped)

variable {q : Queue} {shape : Shape} {blocks : List Block} {need : Nat} {fresh : Buffer}

theorem grow_of_moveInto {moved : Queue} {wrapped : Bool} (hf : Buffer.allocate (q.grownCapacity need) = .ok fresh)
    (hm : q.moveInto fresh = .ok (moved, wrapped)) :
    q.grow need = .ok {
      reply := ()
      queue := { moved with cursors.saturated := false }
      reports := q.reporting.reports
        { previousCapacity := q.capacity, capacity := q.grownCapacity need, wrapped } } := by
  simp only [grow, hf, hm, bind, Except.bind, pure, Except.pure]

/-- Bytes below the margin are copied to a larger buffer. -/
theorem slice_replace_margin (hm : q.cursors.margin ≤ q.capacity) (hf : q.cursors.margin ≤ fresh.size) :
    q.buffer.slice 0 q.cursors.margin = .ok (q.buffer.window 0 q.cursors.margin) ∧
      fresh.replace 0 q.cursors.margin (q.buffer.window 0 q.cursors.margin) =
        .ok (q.buffer.copyInto fresh q.cursors.margin) := by
  have hl : (q.buffer.window 0 q.cursors.margin).length = q.cursors.margin := by
    rw [Buffer.length_window]
    unfold capacity at hm
    omega
  have hr : fresh.replace 0 (0 + (q.buffer.window 0 q.cursors.margin).length) (q.buffer.window 0 q.cursors.margin) =
      .ok (fresh.fill 0 (q.buffer.window 0 q.cursors.margin)) := Buffer.replace_eq_ok (by omega)
  rw [hl, Nat.zero_add] at hr
  exact ⟨Buffer.slice_eq_window (Nat.zero_le _) hm, hr⟩

/-- A queue that does not wrap around only moves. -/
theorem moveInto_linear (h : Linear q.buffer q.cursors blocks) (hf : q.cursors.margin ≤ fresh.size) :
    q.moveInto fresh = .ok ({ q with buffer := q.buffer.copyInto fresh q.cursors.margin }, false) := by
  obtain ⟨hs, hr⟩ := slice_replace_margin h.margin_le_size hf
  have h1 : ¬ q.cursors.margin = Block.firstOffset := by
    have := h.first_le_head
    have := h.head_lt_tail
    have := h.tail_eq_margin
    omega
  have h2 : ¬ q.cursors.tail ≤ q.cursors.head := Nat.not_le.mpr h.head_lt_tail
  simp only [moveInto, if_neg h1, hs, hr, if_neg h2, bind, Except.bind, pure, Except.pure]

/-- A queue that wraps around moves, and then its gap is covered and its blocks are put in line. -/
theorem moveInto_wrapped {older newer : List Block} (h : Wrapped q.buffer q.cursors older newer)
    (hf : q.cursors.margin ≤ fresh.size) {moved : Queue}
    (hm : moved = { q with buffer := q.buffer.copyInto fresh q.cursors.margin })
    (hw : Wrapped moved.buffer moved.cursors older newer) :
    q.moveInto fresh = .ok ({ moved.covered with cursors := moved.covered.cursors.putInLine }, true) := by
  obtain ⟨hs, hr⟩ := slice_replace_margin h.margin_le_size hf
  have h1 : ¬ q.cursors.margin = Block.firstOffset := by
    have := h.first_lt_tail
    have := h.tail_le_head
    have := h.head_lt_margin
    omega
  have hc := hw.coverGap_eq_ok
  rw [hm] at hc ⊢
  simp only [moveInto, if_neg h1, hs, hr, if_pos h.tail_le_head, straighten, hc, bind, Except.bind, pure, Except.pure]

/-- **A growth succeeds if the larger buffer can be allocated**, and leaves what `Grown` says. -/
theorem grow_of_layout (h : Layout q.buffer q.cursors shape blocks) (hc : q.capacity ≤ q.grownCapacity need)
    (ha : q.grownCapacity need ≤ Buffer.maxSize) :
    ∃ g blocks',
      q.grow need = .ok { reply := (), queue := g, reports := q.reporting.reports (q.growthFor need shape) } ∧
        Grown q need shape blocks g blocks' := by
  obtain ⟨fresh, hf⟩ := Buffer.exists_allocate.mpr ha
  have hsize := Buffer.size_allocate hf
  have hm := h.margin_le_size
  have hmf : q.cursors.margin ≤ fresh.size := by unfold capacity at hc; omega
  have hcopy := Buffer.agree_copy hm hmf
  have hcopysize := Buffer.size_copyInto q.buffer fresh q.cursors.margin
  cases h with
  | empty hb hcur =>
    have hmove : q.moveInto fresh = .ok ({ q with buffer := fresh }, false) := if_pos (by rw [hcur])
    refine ⟨_, _, grow_of_moveInto hf hmove, hsize, rfl, rfl, by rw [hcur], ?_, by simp, .kept (by decide)⟩
    refine ⟨_, by decide, .empty ?_ (by rw [hcur])⟩
    show Block.firstOffset ≤ fresh.size
    unfold capacity at hc
    omega
  | linear h =>
    refine ⟨_, _, grow_of_moveInto hf (moveInto_linear h hmf), hcopysize.trans hsize, rfl, rfl, h.tail_eq_margin, ?_,
      (Layout.linear h).entry_of_copy hcopy, .kept (by decide)⟩
    have h' := h.copy hcopy (by rw [hcopysize]; exact hmf)
    exact ⟨_, by decide, .linear { h' with not_saturated := rfl }⟩
  | @wrapped older newer h =>
    let moved : Queue := { q with buffer := q.buffer.copyInto fresh q.cursors.margin }
    have hw : Wrapped moved.buffer moved.cursors older newer := h.copy hcopy (by rw [hcopysize]; exact hmf)
    obtain ⟨hcov, hgap, hentry, hfill⟩ := hw.covered
    obtain ⟨k1, k2, k3⟩ := moved.covered_keeps
    refine ⟨_, newer ++ q.cursors.filler ++ older, grow_of_moveInto hf (moveInto_wrapped h hmf rfl hw),
      k1.trans (hcopysize.trans hsize), k2, k3, hw.covered_margin, ?_, ?_, .inLine h hfill⟩
    · exact ⟨_, by decide, .linear (hcov.inLine hgap)⟩
    · intro x hx
      exact (hentry x hx).trans ((Layout.wrapped h).entry_of_copy hcopy x hx)

/-! ## The size of the larger buffer -/

/-- No growth goes beyond the ceiling. -/
theorem grownCapacity_le_ceiling {ceiling : Nat} (hc : q.ceiling = some ceiling) : q.grownCapacity need ≤ ceiling := by
  rw [grownCapacity, hc]
  exact Nat.min_le_right _ _

/-- The ceiling that is met is one that the block, on top of the whole buffer, comes to. -/
theorem of_ceilingMet? {ceiling : Nat} (hm : q.ceilingMet? need = some ceiling) :
    q.ceiling = some ceiling ∧ ceiling ≤ q.capacity + need := by
  obtain ⟨hc, hle⟩ := Option.filter_eq_some_iff.mp hm
  exact ⟨hc, Nat.le_trans (of_decide_eq_true hle) (Nat.min_le_left _ _)⟩

/-- The ceiling that is met is the largest size of the buffer. -/
theorem maxCapacity_of_ceilingMet? {ceiling : Nat} (hm : q.ceilingMet? need = some ceiling) :
    q.maxCapacity = ceiling := by
  rw [maxCapacity, (of_ceilingMet? hm).1]
  rfl

/-- Without the ceiling in the way the larger buffer has room for the block behind the old one. -/
theorem add_le_grownCapacity (hn : q.capacity + need < Word.bound) (hm : q.ceilingMet? need = none) :
    q.capacity + need ≤ q.grownCapacity need := by
  have hd : q.capacity + need ≤ Word.doubleSat (max q.capacity need) := by
    unfold Word.doubleSat Word.largest
    omega
  unfold grownCapacity
  unfold ceilingMet? at hm
  split
  · exact hd
  · rename_i ceiling hceiling
    rw [hceiling, Word.addSat_eq hn] at hm
    have hlt : ¬ ceiling ≤ q.capacity + need := by simpa [Option.filter] using hm
    exact Nat.le_min.mpr ⟨hd, by omega⟩

end Queue
end BlockRing
