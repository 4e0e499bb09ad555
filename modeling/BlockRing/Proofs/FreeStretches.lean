import BlockRing.Proofs.Room
import BlockRing.Queue.Basic

/-!
# Free stretches

Where the next block may lie is read off the cursors: in the gap between tail and head if entries have wrapped around
(`Cursors.Wraps`), otherwise behind the tail or before the head (`Cursors.freeStretches`).

- These stretches lie inside the buffer and meet no block in use (`Layout.of_mem_freeStretches`).
- **A block goes to the first of them that takes it** (`Layout.slot?_eq`), and has no place just if none of them does
  (`Layout.slot?_eq_none_iff`): that a gap keeps room for another block turns none down.
-/

namespace BlockRing

/-- Entries have wrapped around: there are some, and the tail does not lie after the head. -/
def Cursors.Wraps (c : Cursors) : Prop := 0 < c.count ∧ c.tail ≤ c.head

instance (c : Cursors) : Decidable c.Wraps := inferInstanceAs (Decidable (0 < c.count ∧ c.tail ≤ c.head))

/-- The bytes from `start` up to `stop`. -/
structure Stretch where
  start : Nat
  stop : Nat
  deriving DecidableEq, Repr

/-- A block of `need` bytes can lie at the start of a stretch. -/
def Stretch.Takes (stretch : Stretch) (need : Nat) : Prop := stretch.start + need ≤ stretch.stop

instance (stretch : Stretch) (need : Nat) : Decidable (stretch.Takes need) :=
  inferInstanceAs (Decidable (stretch.start + need ≤ stretch.stop))

/-- The free stretches of a buffer of `capacity` bytes, the one at the tail first. -/
def Cursors.freeStretches (c : Cursors) (capacity : Nat) : List Stretch :=
  if c.Wraps then [⟨c.tail, c.head⟩] else [⟨c.tail, capacity⟩, ⟨Block.firstOffset, c.head⟩]

/-- A free stretch takes a block of `need` bytes. -/
def Queue.HasRoom (q : Queue) (need : Nat) : Prop := ∃ stretch ∈ q.cursors.freeStretches q.capacity, stretch.Takes need

instance (q : Queue) (need : Nat) : Decidable (q.HasRoom need) :=
  inferInstanceAs (Decidable (∃ stretch ∈ q.cursors.freeStretches q.capacity, stretch.Takes need))

variable {b : Buffer} {c : Cursors} {shape : Shape} {blocks : List Block} {stretch : Stretch} {need : Nat}

theorem Layout.wraps_iff (h : Layout b c shape blocks) : c.Wraps ↔ shape = .wrapped := by
  have hcount := h.count_eq
  unfold Cursors.Wraps
  cases h with
  | empty hb hc => simp [hc]
  | linear h =>
    have := h.head_lt_tail
    simp only [reduceCtorEq, iff_false]
    omega
  | wrapped h =>
    have hpos := List.length_pos_iff.mpr h.older_ne_nil
    have := h.tail_le_head
    rw [List.length_append] at hcount
    simp only [iff_true]
    omega

theorem Layout.freeStretches_wrapped (h : Layout b c .wrapped blocks) (capacity : Nat) :
    c.freeStretches capacity = [⟨c.tail, c.head⟩] := if_pos (h.wraps_iff.mpr rfl)

theorem Layout.freeStretches_unwrapped (h : Layout b c shape blocks) (hs : shape ≠ .wrapped) (capacity : Nat) :
    c.freeStretches capacity = [⟨c.tail, capacity⟩, ⟨Block.firstOffset, c.head⟩] :=
  if_neg fun hw => hs (h.wraps_iff.mp hw)

/-- Free stretches lie inside the buffer and meet no block in use. -/
theorem Layout.of_mem_freeStretches (h : Layout b c shape blocks) (hm : stretch ∈ c.freeStretches b.size) :
    Block.firstOffset ≤ stretch.start ∧ stretch.stop ≤ b.size ∧
      ∀ block ∈ blocks, block.stop ≤ stretch.start ∨ stretch.stop ≤ block.offset := by
  have hall := h
  cases h with
  | empty hb hc =>
    rw [hall.freeStretches_unwrapped (by decide), hc, List.mem_cons, List.mem_singleton] at hm
    rcases hm with rfl | rfl
    · exact ⟨Nat.le_refl _, Nat.le_refl _, fun block hx => by cases hx⟩
    · exact ⟨Nat.le_refl _, hb, fun block hx => by cases hx⟩
  | linear h =>
    have h1 := h.first_le_head
    have h2 := h.head_lt_tail
    have h3 := h.tail_eq_margin
    have h4 := h.margin_le_size
    rw [hall.freeStretches_unwrapped (by decide), List.mem_cons, List.mem_singleton] at hm
    rcases hm with rfl | rfl
    · exact ⟨show Block.firstOffset ≤ c.tail by omega, Nat.le_refl _, fun x hx => .inl (h.tiles.mem x hx).2.2⟩
    · exact ⟨Nat.le_refl _, show c.head ≤ b.size by omega, fun x hx => .inr (h.tiles.mem x hx).2.1⟩
  | wrapped h =>
    have h1 := h.first_lt_tail
    have h2 := h.head_lt_margin
    have h3 := h.margin_le_size
    rw [hall.freeStretches_wrapped] at hm
    obtain rfl := List.mem_singleton.mp hm
    refine ⟨Nat.le_of_lt h1, show c.head ≤ b.size by omega, fun x hx => ?_⟩
    rcases List.mem_append.mp hx with hx | hx
    · exact .inr (h.older_tiles.mem x hx).2.1
    · exact .inl (h.newer_tiles.mem x hx).2.2

/-- **A block goes to the start of the first free stretch that takes it.** -/
theorem Layout.slot?_eq (h : Layout b c shape blocks) (hp : 0 < need) (hn : need + Block.minSize < Word.bound) :
    c.slot? b.size need =
      .ok (((c.freeStretches b.size).find? fun stretch => stretch.Takes need).map Stretch.start) := by
  have hall := h
  cases h with
  | empty hb hc =>
    have hno : ¬ Block.firstOffset + need ≤ Block.firstOffset := by omega
    rw [hall.freeStretches_unwrapped (by decide), hc, slot?_empty hb hp hn]
    by_cases hfit : Block.firstOffset + need ≤ b.size <;> simp [List.find?, Stretch.Takes, hfit, hno]
  | linear h =>
    rw [hall.freeStretches_unwrapped (by decide), h.slot?_eq hn]
    by_cases htail : c.tail + need ≤ b.size
    · simp [List.find?, Stretch.Takes, htail]
    · by_cases hhead : Block.firstOffset + need ≤ c.head <;> simp [List.find?, Stretch.Takes, htail, hhead]
  | wrapped h =>
    rw [hall.freeStretches_wrapped, h.slot?_eq hp hn]
    by_cases hgap : c.tail + need ≤ c.head <;> simp [List.find?, Stretch.Takes, hgap]

/-- A block has no place just if no free stretch takes it. -/
theorem Layout.slot?_eq_none_iff (h : Layout b c shape blocks) (hp : 0 < need)
    (hn : need + Block.minSize < Word.bound) :
    c.slot? b.size need = .ok none ↔ ¬ ∃ stretch ∈ c.freeStretches b.size, stretch.Takes need := by
  rw [h.slot?_eq hp hn, Except.ok.injEq, Option.map_eq_none_iff, List.find?_eq_none]
  simp

end BlockRing
