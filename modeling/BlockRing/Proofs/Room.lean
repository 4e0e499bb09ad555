import BlockRing.Proofs.Layout

/-!
# Room for another block

What `Cursors.slot?` finds, in each layout: without wrapped blocks the place at the tail if the buffer reaches far
enough, or else the start of the buffer if the head leaves enough room (`slot?_unwrapped`); with wrapped blocks only the
gap between tail and head (`Wrapped.slot?_eq`). A saturated gap is one without a byte. So looking for a place never
fails (`Layout.exists_slot?`).
-/

namespace BlockRing

variable {b : Buffer} {c : Cursors} {shape : Shape} {blocks older newer : List Block} {capacity need : Nat}

/-- Without wrapped blocks there is room at the tail or before the head. -/
theorem Cursors.slot?_unwrapped (hs : c.saturated = false) (hh : Block.firstOffset ≤ c.head) (ht : c.head ≤ c.tail)
    (hc : c.tail ≤ capacity) (hn : need + Block.minSize < Word.bound) :
    c.slot? capacity need = .ok (
      if c.tail + need ≤ capacity then some c.tail
      else if Block.firstOffset + need ≤ c.head then some Block.firstOffset
      else none) := by
  have h1 : c.fitsAtTail capacity need = .ok (decide (c.tail + need ≤ capacity)) := by
    have he : need ≤ capacity - c.tail ↔ c.tail + need ≤ capacity := by omega
    rw [fitsAtTail, if_neg (by simp [hs]), if_pos ht, Word.sub_eq_ok hc]
    simp only [bind, Except.bind, pure, Except.pure, he]
  have h2 : c.fitsBeforeHead need = .ok (decide (Block.firstOffset + need ≤ c.head)) := by
    have he : need ≤ c.head - Block.firstOffset ↔ Block.firstOffset + need ≤ c.head := by
      unfold Block.firstOffset at *; omega
    rw [fitsBeforeHead, if_neg (by simp [hs]), if_pos ht, Word.sub_eq_ok hh]
    simp only [bind, Except.bind, gapTakes_eq hn, he]
  simp only [slot?, h1, h2, bind, Except.bind, pure, Except.pure, decide_eq_true_eq]
  split
  · rfl
  · split <;> rfl

/-- With wrapped blocks there is room in the gap only. -/
theorem Wrapped.slot?_eq (h : Wrapped b c older newer) (hp : 0 < need) (hn : need + Block.minSize < Word.bound) :
    c.slot? capacity need = .ok (if c.tail + need ≤ c.head then some c.tail else none) := by
  have hle := h.tail_le_head
  have hsat := h.saturated_iff
  by_cases hs : c.saturated = true
  · have he := hsat.mp hs
    rw [Cursors.slot?, Cursors.fitsAtTail, Cursors.fitsBeforeHead, if_pos hs, if_pos hs, if_neg (by omega)]
    rfl
  · have hlt : ¬ c.head ≤ c.tail := fun hge => hs (hsat.mpr (by omega))
    have hfits : need ≤ c.head - c.tail ↔ c.tail + need ≤ c.head := by omega
    have h1 : c.fitsAtTail capacity need = .ok (decide (c.tail + need ≤ c.head)) := by
      rw [Cursors.fitsAtTail, if_neg hs, if_neg hlt, Word.sub_eq_ok hle]
      simp only [bind, Except.bind, Cursors.gapTakes_eq hn, hfits]
    have h2 : c.fitsBeforeHead need = .ok (decide (c.tail + need ≤ c.head)) := by
      rw [Cursors.fitsBeforeHead, if_neg hs, if_neg hlt, Word.sub_eq_ok hle]
      simp only [bind, Except.bind, Cursors.gapTakes_eq hn, hfits]
    simp only [Cursors.slot?, h1, h2, bind, Except.bind, pure, Except.pure, decide_eq_true_eq]
    split <;> rfl

theorem Linear.slot?_eq (h : Linear b c blocks) (hn : need + Block.minSize < Word.bound) :
    c.slot? b.size need = .ok (
      if c.tail + need ≤ b.size then some c.tail
      else if Block.firstOffset + need ≤ c.head then some Block.firstOffset
      else none) := by
  obtain ⟨hf, hlt, ht, hm, hs, _, _⟩ := h
  exact Cursors.slot?_unwrapped hs hf (by omega) (by omega) hn

/-- Without any block there is room at the first offset. -/
theorem slot?_empty (hb : Block.firstOffset ≤ b.size) (hp : 0 < need) (hn : need + Block.minSize < Word.bound) :
    ({} : Cursors).slot? b.size need =
      .ok (if Block.firstOffset + need ≤ b.size then some Block.firstOffset else none) := by
  rw [Cursors.slot?_unwrapped rfl (Nat.le_refl _) (Nat.le_refl _) hb hn]
  have hno : ¬ Block.firstOffset + need ≤ Block.firstOffset := by omega
  simp only [if_neg hno]

/-- Looking for a place never fails. -/
theorem Layout.exists_slot? (h : Layout b c shape blocks) (hp : 0 < need) (hn : need + Block.minSize < Word.bound) :
    ∃ slot, c.slot? b.size need = .ok slot := by
  cases h with
  | empty hb hc => subst hc; exact ⟨_, slot?_empty hb hp hn⟩
  | linear h => exact ⟨_, h.slot?_eq hn⟩
  | wrapped h => exact ⟨_, h.slot?_eq hp hn⟩

end BlockRing
