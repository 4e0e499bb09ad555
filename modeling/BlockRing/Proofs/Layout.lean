import BlockRing.Cursors
import BlockRing.Proofs.Tiling

/-!
# Layouts

The blocks in use lie in a buffer in one of three ways (`Layout`), listed in the order in which they will be removed:

- there is none (`Shape.empty`);
- they tile the bytes from head to tail (`Linear`);
- the older ones tile the bytes from head to margin, the newer ones those from the first offset to the tail (`Wrapped`).

The layout gives the cursors all that they have to satisfy (`Layout.consistent`), keeps the blocks apart
(`Layout.apart`) and is the only one with these cursors and bytes (`Layout.unique`).
-/

namespace BlockRing

/-- The ways in which blocks lie in a buffer. -/
inductive Shape
  | empty
  | linear
  | wrapped
  deriving DecidableEq, Repr

/-- The blocks lie in line from head to tail. -/
structure Linear (b : Buffer) (c : Cursors) (blocks : List Block) : Prop where
  first_le_head : Block.firstOffset ≤ c.head
  head_lt_tail : c.head < c.tail
  tail_eq_margin : c.tail = c.margin
  margin_le_size : c.margin ≤ b.size
  not_saturated : c.saturated = false
  tiles : Tiles b c.head blocks c.tail
  count_eq : c.count = blocks.length

/-- The older blocks lie from head to margin, the newer ones from the first offset to the tail. -/
structure Wrapped (b : Buffer) (c : Cursors) (older newer : List Block) : Prop where
  first_lt_tail : Block.firstOffset < c.tail
  tail_le_head : c.tail ≤ c.head
  head_lt_margin : c.head < c.margin
  margin_le_size : c.margin ≤ b.size
  saturated_iff : c.saturated = true ↔ c.tail = c.head
  older_tiles : Tiles b c.head older c.margin
  newer_tiles : Tiles b Block.firstOffset newer c.tail
  count_eq : c.count = older.length + newer.length

/-- **How blocks lie in a buffer** with given cursors, the first to be removed first. -/
inductive Layout (b : Buffer) (c : Cursors) : Shape → List Block → Prop
  | empty (hb : Block.firstOffset ≤ b.size) (hc : c = {}) : Layout b c .empty []
  | linear {blocks : List Block} (h : Linear b c blocks) : Layout b c .linear blocks
  | wrapped {older newer : List Block} (h : Wrapped b c older newer) : Layout b c .wrapped (older ++ newer)

/-- Neither of two blocks reaches into the other. -/
def Block.Apart (x y : Block) : Prop := x.stop ≤ y.offset ∨ y.stop ≤ x.offset

variable {b b' : Buffer} {c : Cursors} {shape : Shape} {blocks older newer : List Block} {block : Block}

/-! ## What a layout says -/

theorem Layout.first_le_size (h : Layout b c shape blocks) : Block.firstOffset ≤ b.size := by
  cases h with
  | empty hb hc => exact hb
  | linear h =>
    have := h.first_le_head
    have := h.head_lt_tail
    have := h.tail_eq_margin
    have := h.margin_le_size
    omega
  | wrapped h =>
    have := h.first_lt_tail
    have := h.tail_le_head
    have := h.head_lt_margin
    have := h.margin_le_size
    omega

theorem Layout.margin_le_size (h : Layout b c shape blocks) : c.margin ≤ b.size := by
  cases h with
  | empty hb hc => subst hc; exact hb
  | linear h => exact h.margin_le_size
  | wrapped h => exact h.margin_le_size

theorem Layout.count_eq (h : Layout b c shape blocks) : c.count = blocks.length := by
  cases h with
  | empty hb hc => subst hc; rfl
  | linear h => exact h.count_eq
  | wrapped h => rw [h.count_eq, List.length_append]

/-- There are fewer blocks than bytes. -/
theorem Layout.count_le_size (h : Layout b c shape blocks) : c.count ≤ b.size := by
  cases h with
  | empty hb hc => subst hc; exact Nat.zero_le _
  | linear h =>
    have h1 := h.tiles.add_length_le
    have h2 := h.count_eq
    have h3 := h.tail_eq_margin
    have h4 := h.margin_le_size
    omega
  | wrapped h =>
    have h1 := h.older_tiles.add_length_le
    have h2 := h.newer_tiles.add_length_le
    have h3 := h.tail_le_head
    have h4 := h.margin_le_size
    have h5 := h.count_eq
    omega

theorem Layout.count_lt (h : Layout b c shape blocks) : c.count + 1 < Word.bound :=
  Buffer.add_lt_bound h.count_le_size h.first_le_size

theorem Wrapped.older_ne_nil (h : Wrapped b c older newer) : older ≠ [] := h.older_tiles.ne_nil h.head_lt_margin

/-- Cursors with a layout do not contradict each other. -/
theorem Layout.consistent (h : Layout b c shape blocks) : c.Consistent b.size := by
  have hm := h.margin_le_size
  cases h with
  | empty hb hc =>
    subst hc
    exact ⟨⟨Nat.le_refl _, hb⟩, ⟨Nat.le_refl _, hb⟩, hb, by simp, fun _ _ => Nat.le_refl _⟩
  | linear h =>
    have h1 := h.first_le_head
    have h2 := h.head_lt_tail
    have h3 := h.tail_eq_margin
    have h4 := h.count_eq
    have h5 := h.tiles.ne_nil h2
    have h6 := List.length_pos_iff.mpr h5
    exact ⟨by omega, by omega, hm, by omega, by omega⟩
  | wrapped h =>
    have h1 := h.first_lt_tail
    have h2 := h.tail_le_head
    have h3 := h.head_lt_margin
    have h4 := h.count_eq
    have h5 := List.length_pos_iff.mpr h.older_ne_nil
    have h6 := h.saturated_iff
    refine ⟨by omega, by omega, hm, ⟨by omega, fun ⟨he, hs⟩ => ?_⟩, fun _ _ => by omega⟩
    rw [h6.mpr he.symm] at hs
    cases hs

/-- Each block is found at its offset and lies between the first offset and the margin. -/
theorem Layout.mem (h : Layout b c shape blocks) : ∀ block ∈ blocks,
    Block.at? b block.offset = some block ∧ Block.firstOffset ≤ block.offset ∧ block.stop ≤ c.margin := by
  intro block hm
  cases h with
  | empty hb hc => cases hm
  | linear h =>
    obtain ⟨h1, h2, h3⟩ := h.tiles.mem block hm
    have h4 := h.first_le_head
    have h5 := h.tail_eq_margin
    exact ⟨h1, by omega, by omega⟩
  | wrapped h =>
    have h4 := h.first_lt_tail
    have h5 := h.tail_le_head
    have h6 := h.head_lt_margin
    rcases List.mem_append.mp hm with hm | hm
    · obtain ⟨h1, h2, h3⟩ := h.older_tiles.mem block hm
      exact ⟨h1, by omega, by omega⟩
    · obtain ⟨h1, h2, h3⟩ := h.newer_tiles.mem block hm
      exact ⟨h1, by omega, by omega⟩

/-- No two blocks have a byte in common. -/
theorem Layout.apart (h : Layout b c shape blocks) : blocks.Pairwise Block.Apart := by
  cases h with
  | empty hb hc => exact .nil
  | linear h => exact h.tiles.ordered.imp Or.inl
  | wrapped h =>
    refine List.pairwise_append.mpr ⟨h.older_tiles.ordered.imp Or.inl, h.newer_tiles.ordered.imp Or.inl, ?_⟩
    intro x hx y hy
    have h1 := (h.older_tiles.mem x hx).2.1
    have h2 := (h.newer_tiles.mem y hy).2.2
    have h3 := h.tail_le_head
    exact Or.inr (by omega)

/-- The first block lies at the head. -/
theorem Layout.at?_head (h : Layout b c shape (block :: blocks)) : Block.at? b c.head = some block := by
  generalize hl : block :: blocks = all at h
  cases h with
  | empty hb hc => cases hl
  | linear h => subst hl; exact h.tiles.1
  | @wrapped older newer h =>
    cases older with
    | nil => exact absurd rfl h.older_ne_nil
    | cons x older =>
      cases hl
      exact h.older_tiles.1

/-- Cursors leave no choice of the shape, whatever the bytes are. -/
theorem Layout.shape_eq {shape' : Shape} {blocks' : List Block} (h : Layout b c shape blocks)
    (h' : Layout b' c shape' blocks') : shape = shape' := by
  cases h with
  | empty hb hc =>
    subst hc
    cases h' with
    | empty hb' hc' => rfl
    | linear h' => exact absurd h'.head_lt_tail (Nat.lt_irrefl _)
    | wrapped h' => exact absurd h'.head_lt_margin (Nat.lt_irrefl _)
  | linear h =>
    cases h' with
    | empty hb' hc' => subst hc'; exact absurd h.head_lt_tail (Nat.lt_irrefl _)
    | linear h' => rfl
    | wrapped h' => exact absurd h'.tail_le_head (Nat.not_le.mpr h.head_lt_tail)
  | wrapped h =>
    cases h' with
    | empty hb' hc' => subst hc'; exact absurd h.head_lt_margin (Nat.lt_irrefl _)
    | linear h' => exact absurd h.tail_le_head (Nat.not_le.mpr h'.head_lt_tail)
    | wrapped h' => rfl

/-- Cursors and bytes leave no choice: there is one shape, and there is one list of blocks. -/
theorem Layout.unique {shape' : Shape} {blocks' : List Block} (h : Layout b c shape blocks)
    (h' : Layout b c shape' blocks') : shape = shape' ∧ blocks = blocks' := by
  obtain rfl := h.shape_eq h'
  refine ⟨rfl, ?_⟩
  cases h with
  | empty hb hc =>
    cases h' with
    | empty hb' hc' => rfl
  | linear h =>
    cases h' with
    | linear h' => exact h.tiles.unique h'.tiles
  | wrapped h =>
    cases h' with
    | wrapped h' => rw [h.older_tiles.unique h'.older_tiles, h.newer_tiles.unique h'.newer_tiles]

end BlockRing
