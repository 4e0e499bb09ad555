import BlockRing.Proofs.Room

/-!
# Layouts under change

What the cursors do keeps a layout:

- a block that is written (`Writes`) into a free place becomes the last one (`Layout.place`), and the other entries stay
  (`Layout.entry_of_writes`);
- the first block can be removed (`Layout.release`);
- the bytes below the margin can move to another buffer (`Linear.copy`, `Wrapped.copy`);
- wrapped blocks without a gap can be put in line, the newer ones first (`Wrapped.inLine`).
-/

namespace BlockRing

variable {b b' : Buffer} {c : Cursors} {shape : Shape} {blocks older newer : List Block} {block : Block}
  {payload : Payload} {start stop : Nat}

/-! ## Writing a block -/

/-- A block has been written: it is found with its payload, and all other bytes are as before. -/
structure Writes (b b' : Buffer) (block : Block) (payload : Payload) : Prop where
  size_eq : b'.size = b.size
  found : Block.at? b' block.offset = some block
  contents_eq : block.contents b' = payload
  before : b.Agree b' 0 block.offset
  behind : b.Agree b' block.stop b.size

/-- Filling in the bytes of a block writes it. -/
theorem writes_fill {offset size : Nat} (hl : payload.length + Varint.width size = size) (hb : offset + size ≤ b.size) :
    Writes b (b.fill offset (Block.bytes size payload)) (Block.written offset size) payload where
  size_eq := Buffer.size_fill _ _ _
  found := Block.at?_fill hl hb
  contents_eq := Block.contents_fill hl hb
  before := Buffer.agree_fill_before b offset _ (Nat.le_refl _) 0
  behind := Buffer.agree_fill_behind b (by rw [Block.length_bytes hl]; exact Nat.le_refl _) _

theorem Writes.entry_written (w : Writes b b' block payload) :
    Block.entry b' block = { offset := block.offset, payload } := by
  rw [Block.entry, w.contents_eq]

theorem Writes.stop_le_size (w : Writes b b' block payload) : block.stop ≤ b.size := by
  rw [← w.size_eq]
  exact Block.stop_le_size w.found

theorem Writes.offset_lt_stop (w : Writes b b' block payload) : block.offset < block.stop :=
  Block.offset_lt_stop w.found

theorem Writes.tiles_written (w : Writes b b' block payload) : Tiles b' block.offset [block] block.stop :=
  Tiles.single w.found

theorem Writes.tiles_before (w : Writes b b' block payload) (h : Tiles b start blocks stop) (hs : stop ≤ block.offset) :
    Tiles b' start blocks stop := by
  have h1 := w.stop_le_size
  have h2 := w.offset_lt_stop
  exact h.of_agree (w.before.mono (Nat.zero_le _) hs) (by rw [w.size_eq]; omega)

theorem Writes.tiles_behind (w : Writes b b' block payload) (h : Tiles b start blocks stop) (hs : block.stop ≤ start)
    (hb : stop ≤ b.size) : Tiles b' start blocks stop :=
  h.of_agree (w.behind.mono hs hb) (by rw [w.size_eq]; exact hb)

/-- A block that the written one is apart from keeps its entry. -/
theorem Writes.entry_eq (w : Writes b b' block payload) {x : Block} (hx : Block.at? b x.offset = some x)
    (ha : x.Apart block) : Block.entry b' x = Block.entry b x := by
  have hs := Block.stop_le_size hx
  have h : b.Agree b' x.offset x.stop := by
    rcases ha with ha | ha
    · exact w.before.mono (Nat.zero_le _) ha
    · exact w.behind.mono ha hs
  rw [Block.entry, Block.entry, Block.contents_of_agree hx h]

/-- The entries of the other blocks of a layout stay. -/
theorem Layout.entry_of_writes {c' : Cursors} {shape' : Shape} (h : Layout b c shape blocks)
    (w : Writes b b' block payload) (h' : Layout b' c' shape' (blocks ++ [block])) :
    ∀ x ∈ blocks, Block.entry b' x = Block.entry b x := by
  intro x hx
  have ha := (List.pairwise_append.mp h'.apart).2.2
  exact w.entry_eq (h.mem x hx).1 (ha x hx block List.mem_cons_self)

/-! ## A block at the tail -/

/-- The cursors once a block that ends at `stop` has been written at the tail. -/
def Cursors.extend (c : Cursors) (stop : Nat) : Cursors :=
  { c with
    tail := stop
    margin := if c.head < stop then stop else c.margin
    count := c.count + 1
    saturated := c.saturated || stop == c.head }

theorem Cursors.append_eq_ok (h : c.count + 1 < Word.bound) : c.append stop = .ok (c.extend stop) := by
  rw [append, Word.add_eq_ok h]
  rfl

theorem Cursors.extend_margin (h : c.head < stop) : (c.extend stop).margin = stop := if_pos h

theorem Cursors.extend_margin_of_le (h : stop ≤ c.head) : (c.extend stop).margin = c.margin :=
  if_neg (Nat.not_lt.mpr h)

/-- The first block of an empty buffer. -/
theorem Writes.linear (w : Writes b b' block payload) (ho : block.offset = Block.firstOffset) :
    Linear b' (({} : Cursors).extend block.stop) [block] := by
  have hlt := w.offset_lt_stop
  rw [ho] at hlt
  have hm := Cursors.extend_margin (c := {}) hlt
  refine ⟨Nat.le_refl _, hlt, hm.symm, ?_, ?_, ?_, rfl⟩
  · rw [hm, w.size_eq]
    exact w.stop_le_size
  · show (false || block.stop == Block.firstOffset) = false
    simp only [Bool.false_or, beq_eq_false_iff_ne]
    omega
  · show Tiles b' Block.firstOffset [block] block.stop
    rw [← ho]
    exact w.tiles_written

theorem Linear.extend (h : Linear b c blocks) (w : Writes b b' block payload) (ho : block.offset = c.tail) :
    Linear b' (c.extend block.stop) (blocks ++ [block]) := by
  obtain ⟨hf, hlt, ht, hm, hs, tiles, hc⟩ := h
  have hlt' := w.offset_lt_stop
  have hm' : (c.extend block.stop).margin = block.stop := Cursors.extend_margin (by omega)
  refine ⟨hf, show c.head < block.stop by omega, hm'.symm, ?_, ?_, ?_, ?_⟩
  · rw [hm', w.size_eq]
    exact w.stop_le_size
  · show (c.saturated || block.stop == c.head) = false
    simp only [hs, Bool.false_or, beq_eq_false_iff_ne]
    omega
  · have hw := w.tiles_written
    rw [ho] at hw
    exact (w.tiles_before tiles (by omega)).append hw
  · show c.count + 1 = (blocks ++ [block]).length
    rw [List.length_append, hc]
    rfl

/-- The first block that wraps around. -/
theorem Linear.wrap (h : Linear b c blocks) (w : Writes b b' block payload) (ho : block.offset = Block.firstOffset)
    (hs : block.stop ≤ c.head) :
    Wrapped b' (({ c with tail := Block.firstOffset } : Cursors).extend block.stop) blocks [block] := by
  obtain ⟨hf, hlt, ht, hm, hns, tiles, hc⟩ := h
  have hlt' := w.offset_lt_stop
  have hm' := Cursors.extend_margin_of_le (c := { c with tail := Block.firstOffset }) hs
  refine ⟨show Block.firstOffset < block.stop by omega, hs, ?_, ?_, ?_, ?_, ?_, ?_⟩
  · rw [hm']
    show c.head < c.margin
    omega
  · rw [hm', w.size_eq]
    exact hm
  · show (c.saturated || block.stop == c.head) = true ↔ block.stop = c.head
    simp only [hns, Bool.false_or, beq_iff_eq]
  · rw [hm']
    rw [ht] at tiles
    exact w.tiles_behind tiles hs hm
  · show Tiles b' Block.firstOffset [block] block.stop
    rw [← ho]
    exact w.tiles_written
  · show c.count + 1 = blocks.length + 1
    rw [hc]

theorem Wrapped.extend (h : Wrapped b c older newer) (w : Writes b b' block payload) (ho : block.offset = c.tail)
    (hs : block.stop ≤ c.head) : Wrapped b' (c.extend block.stop) older (newer ++ [block]) := by
  obtain ⟨hf, hle, hlt, hm, hsat, tiles, tiles', hc⟩ := h
  have hlt' := w.offset_lt_stop
  have hm' := Cursors.extend_margin_of_le hs
  have hns : c.saturated = false := by
    rw [← Bool.not_eq_true, hsat]
    omega
  refine ⟨show Block.firstOffset < block.stop by omega, hs, ?_, ?_, ?_, ?_, ?_, ?_⟩
  · rw [hm']
    exact hlt
  · rw [hm', w.size_eq]
    exact hm
  · show (c.saturated || block.stop == c.head) = true ↔ block.stop = c.head
    simp only [hns, Bool.false_or, beq_iff_eq]
  · rw [hm']
    exact w.tiles_behind tiles hs hm
  · have hw := w.tiles_written
    rw [ho] at hw
    exact (w.tiles_before tiles' (by omega)).append hw
  · show c.count + 1 = older.length + (newer ++ [block]).length
    rw [List.length_append, hc]
    rfl

/-- **A block written into a free place becomes the last one.** -/
theorem Layout.place (h : Layout b c shape blocks) (w : Writes b b' block payload)
    (hn : block.size + Block.minSize < Word.bound) (hslot : c.slot? b.size block.size = .ok (some block.offset)) :
    ∃ shape', Layout b' (({ c with tail := block.offset } : Cursors).extend block.stop) shape' (blocks ++ [block]) := by
  have hp : 0 < block.size := by
    have := w.offset_lt_stop
    unfold Block.stop at this
    omega
  cases h with
  | empty hb hc =>
    subst hc
    rw [slot?_empty hb hp hn] at hslot
    split at hslot
    · simp only [Except.ok.injEq, Option.some.injEq] at hslot
      rw [← hslot]
      exact ⟨_, .linear (w.linear hslot.symm)⟩
    · cases hslot
  | linear h =>
    rw [h.slot?_eq hn] at hslot
    split at hslot
    · simp only [Except.ok.injEq, Option.some.injEq] at hslot
      rw [← hslot]
      exact ⟨_, .linear (h.extend w hslot.symm)⟩
    split at hslot
    · rename_i hroom
      simp only [Except.ok.injEq, Option.some.injEq] at hslot
      rw [hslot] at hroom
      rw [← hslot]
      exact ⟨_, .wrapped (h.wrap w hslot.symm hroom)⟩
    · cases hslot
  | @wrapped older newer h =>
    rw [h.slot?_eq hp hn] at hslot
    split at hslot
    · rename_i hroom
      simp only [Except.ok.injEq, Option.some.injEq] at hslot
      rw [hslot] at hroom
      rw [← hslot, List.append_assoc]
      exact ⟨_, .wrapped (h.extend w hslot.symm hroom)⟩
    · cases hslot

/-! ## Removing the first block -/

/-- The cursors once the block of `size` bytes at the head has been removed. -/
def Cursors.released (c : Cursors) (size : Nat) : Cursors :=
  { ({ c with head := c.head + size, count := c.count - 1 } : Cursors).rewind with saturated := false }

theorem Cursors.release_eq_ok {size : Nat} (hh : c.head + size < Word.bound) (hc : 1 ≤ c.count) :
    c.release size = .ok (c.released size) := by
  rw [release, Word.add_eq_ok hh, Word.sub_eq_ok hc]
  rfl

/-- Where the head does not come to the margin, only head and count change. -/
theorem Cursors.released_of_ne {size : Nat} (h : c.head + size ≠ c.margin) :
    c.released size = { c with head := c.head + size, count := c.count - 1, saturated := false } := by
  rw [released, rewind, if_neg h]

/-- Where the head comes to the margin, the tail gives the new margin. -/
theorem Cursors.released_of_eq {size : Nat} (h : c.head + size = c.margin) (ht : c.tail ≠ c.margin) :
    c.released size =
      { head := Block.firstOffset, tail := c.tail, margin := c.tail, count := c.count - 1, saturated := false } := by
  rw [released, rewind, if_pos h, if_neg ht]

/-- Where head and tail come to the margin, all of them start again. -/
theorem Cursors.released_of_last {size : Nat} (h : c.head + size = c.margin) (ht : c.tail = c.margin) :
    c.released size = { count := c.count - 1 } := by
  rw [released, rewind, if_pos h, if_pos ht]

theorem Linear.release (h : Linear b c (block :: blocks)) : ∃ shape, Layout b (c.released block.size) shape blocks := by
  obtain ⟨hf, hlt, ht, hm, hs, ⟨hat, tiles⟩, hc⟩ := h
  have hstop : c.head + block.size = block.stop := by rw [Block.stop, Block.offset_of_at? hat]
  have hle := tiles.le
  have hpos := Block.offset_lt_stop hat
  rw [List.length_cons] at hc
  by_cases he : block.stop = c.margin
  · -- The last block is gone, and all cursors are back at the first offset.
    have hnil : blocks = [] := by
      have := tiles.add_length_le
      exact List.length_eq_zero_iff.mp (by omega)
    subst hnil
    refine ⟨_, .empty (by omega) ?_⟩
    rw [Cursors.released_of_last (hstop.trans he) ht, hc]
    rfl
  · refine ⟨_, .linear ?_⟩
    rw [Cursors.released_of_ne (by omega), hstop]
    refine ⟨show Block.firstOffset ≤ block.stop by omega, show block.stop < c.tail by omega, ht, hm, rfl, tiles, ?_⟩
    show c.count - 1 = blocks.length
    omega

theorem Wrapped.release (h : Wrapped b c (block :: older) newer) :
    ∃ shape, Layout b (c.released block.size) shape (older ++ newer) := by
  obtain ⟨hf, hle, hlt, hm, hsat, ⟨hat, tiles⟩, tiles', hc⟩ := h
  have hstop : c.head + block.size = block.stop := by rw [Block.stop, Block.offset_of_at? hat]
  have hle' := tiles.le
  have hpos := Block.offset_lt_stop hat
  rw [List.length_cons] at hc
  by_cases he : block.stop = c.margin
  · -- The last of the older blocks is gone, and the newer ones lie in line.
    have hnil : older = [] := by
      have := tiles.add_length_le
      exact List.length_eq_zero_iff.mp (by omega)
    subst hnil
    refine ⟨_, .linear ?_⟩
    rw [Cursors.released_of_eq (by omega) (by omega)]
    refine ⟨Nat.le_refl _, hf, rfl, show c.tail ≤ b.size by omega, rfl, tiles', ?_⟩
    show c.count - 1 = newer.length
    rw [hc, List.length_nil]
    omega
  · refine ⟨_, .wrapped ?_⟩
    rw [Cursors.released_of_ne (by omega), hstop]
    refine ⟨hf, show c.tail ≤ block.stop by omega, show block.stop < c.margin by omega, hm, ?_, tiles, tiles', ?_⟩
    · show false = true ↔ c.tail = block.stop
      simp only [Bool.false_eq_true, false_iff]
      omega
    · show c.count - 1 = older.length + newer.length
      omega

/-- **The first block can be removed**, and the others stay where they are. -/
theorem Layout.release (h : Layout b c shape (block :: blocks)) :
    c.release block.size = .ok (c.released block.size) ∧ ∃ shape', Layout b (c.released block.size) shape' blocks := by
  have hat := h.at?_head
  have hstop := Block.stop_le_size hat
  rw [Block.stop, Block.offset_of_at? hat] at hstop
  have hcount := h.count_eq
  rw [List.length_cons] at hcount
  refine ⟨Cursors.release_eq_ok (Buffer.lt_bound hstop) (by omega), ?_⟩
  generalize hl : block :: blocks = all at h
  cases h with
  | empty hb hc => cases hl
  | linear h => subst hl; exact h.release
  | @wrapped older newer h =>
    cases older with
    | nil => exact absurd rfl h.older_ne_nil
    | cons x older =>
      cases hl
      exact h.release

/-! ## Moving to another buffer -/

theorem Linear.copy (h : Linear b c blocks) (ha : b.Agree b' 0 c.margin) (hs : c.margin ≤ b'.size) :
    Linear b' c blocks := by
  have ht := h.tail_eq_margin
  exact { h with
    margin_le_size := hs
    tiles := h.tiles.of_agree (ha.mono (Nat.zero_le _) (by omega)) (by omega) }

theorem Wrapped.copy (h : Wrapped b c older newer) (ha : b.Agree b' 0 c.margin) (hs : c.margin ≤ b'.size) :
    Wrapped b' c older newer := by
  have hle := h.tail_le_head
  have hlt := h.head_lt_margin
  exact { h with
    margin_le_size := hs
    older_tiles := h.older_tiles.of_agree (ha.mono (Nat.zero_le _) (Nat.le_refl _)) hs
    newer_tiles := h.newer_tiles.of_agree (ha.mono (Nat.zero_le _) (by omega)) (by omega) }

/-- Blocks below the margin keep their entries. -/
theorem Layout.entry_of_copy (h : Layout b c shape blocks) (ha : b.Agree b' 0 c.margin) :
    ∀ x ∈ blocks, Block.entry b' x = Block.entry b x := by
  intro x hx
  obtain ⟨hat, _, hs⟩ := h.mem x hx
  rw [Block.entry, Block.entry, Block.contents_of_agree hat (ha.mono (Nat.zero_le _) hs)]

/-- **Wrapped blocks without a gap can be put in line**, the newer ones first. -/
theorem Wrapped.inLine (h : Wrapped b c older newer) (hg : c.tail = c.head) :
    Linear b { c.putInLine with saturated := false } (newer ++ older) := by
  obtain ⟨hf, hle, hlt, hm, hsat, tiles, tiles', hc⟩ := h
  rw [← hg] at tiles
  refine ⟨Nat.le_refl _, show Block.firstOffset < c.margin by omega, rfl, hm, rfl, tiles'.append tiles, ?_⟩
  show c.count = (newer ++ older).length
  rw [List.length_append, hc, Nat.add_comm]

end BlockRing
