import BlockRing.Proofs.Change
import BlockRing.Queue.Pop

/-!
# What reading and removing do

With a layout,

- an entry that is in use is read by its offset (`get_of_mem`), and the oldest one is peeked at (`peek_of_cons`);
- a pop removes the oldest entry and replies with it (`pop_of_cons`), and is refused only without any entry
  (`pop_of_nil`);
- draining replies with all entries and leaves a queue like a reset one (`drain_of_layout`);
- scanning any offsets succeeds (`exists_scan`).
-/

namespace BlockRing

/-- Without any block the cursors are fresh. -/
theorem Layout.of_nil {b : Buffer} {c : Cursors} {shape : Shape} (h : Layout b c shape []) : c = {} := by
  generalize hl : ([] : List Block) = all at h
  cases h with
  | empty hb hc => exact hc
  | linear h => exact absurd hl.symm (h.tiles.ne_nil h.head_lt_tail)
  | wrapped h => exact absurd (List.append_eq_nil_iff.mp hl.symm).1 h.older_ne_nil

namespace Queue

variable {q : Queue} {shape : Shape} {blocks : List Block} {block : Block}

/-! ## Reading -/

theorem checkOffset_of_nil (h : Layout q.buffer q.cursors shape []) (offset : Nat) :
    q.checkOffset offset = .error .empty := if_pos h.count_eq

/-- A block in use is found by its offset. -/
theorem locate_of_mem (h : Layout q.buffer q.cursors shape blocks) (hm : block ∈ blocks) :
    q.locate block.offset = .ok block := by
  obtain ⟨hat, hf, hs⟩ := h.mem block hm
  have hlt := Block.offset_lt_stop hat
  have hmargin := h.margin_le_size
  have hcount := h.count_eq
  have hpos := List.length_pos_of_mem hm
  unfold Block.firstOffset at hf
  refine locate_eq_ok_iff.mpr ⟨checkOffset_eq_ok_iff.mpr ⟨?_, by omega, ?_⟩, hat⟩
  · unfold len
    omega
  · unfold capacity
    omega

/-- **An entry in use is read by its offset.** -/
theorem get_of_mem (h : Layout q.buffer q.cursors shape blocks) (hm : block ∈ blocks) :
    q.get block.offset = .ok (.ok (block.contents q.buffer)) := by
  have hpay := Block.payload_eq_contents (h.mem block hm).1
  rw [get, locate_of_mem h hm]
  exact congrArg (Except.ok <$> ·) hpay

theorem get_of_nil (h : Layout q.buffer q.cursors shape []) (offset : Nat) :
    q.get offset = .ok (.error .empty) := by
  rw [get, locate, checkOffset_of_nil h]
  rfl

theorem peek_of_nil (h : Layout q.buffer q.cursors shape []) : q.peek = .ok (.error .empty) := get_of_nil h _

theorem offset_eq_head (h : Layout q.buffer q.cursors shape (block :: blocks)) : block.offset = q.cursors.head :=
  Block.offset_of_at? h.at?_head

theorem peek_of_cons (h : Layout q.buffer q.cursors shape (block :: blocks)) :
    q.peek = .ok (.ok (block.contents q.buffer)) := by
  rw [peek, ← offset_eq_head h]
  exact get_of_mem h List.mem_cons_self

/-- Scanning succeeds, whatever lies at the offsets. -/
theorem exists_scan (q : Queue) (start stop : Nat) : ∃ entries, q.scan start stop = .ok entries := by
  unfold scan
  generalize List.range' start (stop - start) = offsets
  induction offsets with
  | nil => exact ⟨[], rfl⟩
  | cons offset offsets ih =>
    obtain ⟨answer, ha⟩ := q.get_eq_ok offset
    obtain ⟨entries, he⟩ := ih
    refine ⟨answer :: entries, ?_⟩
    rw [List.mapM_cons, ha, he]
    rfl

/-! ## Removing -/

/-- The queue once its first block, of `size` bytes, has been removed. -/
def popped (q : Queue) (size : Nat) : Queue := { q with cursors := q.cursors.released size }

/-- A pop is refused without any entry. -/
theorem pop_of_nil (h : Layout q.buffer q.cursors shape []) : q.pop = .ok { reply := .error .empty, queue := q } := by
  rw [pop, locate, checkOffset_of_nil h]
  rfl

/-- **A pop removes the oldest entry** and replies with it. -/
theorem pop_of_cons (h : Layout q.buffer q.cursors shape (block :: blocks)) :
    q.pop = .ok { reply := .ok (block.contents q.buffer), queue := q.popped block.size } ∧
      ∃ shape', Layout q.buffer (q.popped block.size).cursors shape' blocks := by
  obtain ⟨hr, shape', h'⟩ := h.release
  refine ⟨?_, shape', h'⟩
  have hloc := locate_of_mem h List.mem_cons_self
  rw [offset_eq_head h] at hloc
  have haudit : (q.cursors.released block.size).audit q.capacity = .ok () := Cursors.audit_eq_ok_iff.mpr h'.consistent
  have hpay := Block.payload_eq_contents h.at?_head
  simp only [pop, hloc, hr, haudit, hpay, bind, Except.bind, pure, Except.pure, popped]

/-- Removing all entries one after the other leaves fresh cursors. -/
theorem popUpTo_of_layout : ∀ {blocks : List Block} {q : Queue} {shape : Shape},
    Layout q.buffer q.cursors shape blocks →
      popUpTo blocks.length q = .ok { reply := (blocks.map (Block.contents q.buffer), none), queue := q.reset }
  | [], q, _, h => by
    have hq : q.reset = q := by rw [reset, ← h.of_nil]
    rw [hq]
    rfl
  | block :: blocks, q, _, h => by
    obtain ⟨hpop, shape', h'⟩ := pop_of_cons h
    have ih : popUpTo blocks.length (q.popped block.size) =
        .ok { reply := (blocks.map (Block.contents q.buffer), none), queue := q.reset } :=
      popUpTo_of_layout (q := q.popped block.size) h'
    simp only [List.length_cons, popUpTo, hpop, ih, bind, Except.bind, pure, Except.pure, List.map_cons]

/-- **Draining replies with all entries**, and then nothing is left. -/
theorem drain_of_layout (h : Layout q.buffer q.cursors shape blocks) :
    q.drain = .ok { reply := (blocks.map (Block.contents q.buffer), .empty), queue := q.reset } := by
  have hlen : q.len = blocks.length := h.count_eq
  simp only [drain, hlen, popUpTo_of_layout h, bind, Except.bind, pure, Except.pure]
  rfl

/-- A reset queue has no entry. -/
theorem layout_reset (h : Layout q.buffer q.cursors shape blocks) :
    Layout q.reset.buffer q.reset.cursors .empty [] := .empty h.first_le_size rfl

end Queue
end BlockRing
