import BlockRing.Proofs.Layout
import BlockRing.Walk

/-!
# Walks over a layout

`Walk.Meets` says which blocks a walk comes to. A walk that meets given blocks shows their entries in this order
(`take_of_meets`, `visit_of_meets`, `tour_of_meets`), and ends after the last one: it never comes to bytes that are no
block. The walk over a queue with a layout meets the blocks of the layout (`Layout.meets`), so that the entries of the
queue are those of its blocks (`Queue.toList_of_layout`).
-/

namespace BlockRing
namespace Walk

/-- The walk behind a block. -/
def behind (w : Walk) (block : Block) : Walk := { w with position := block.stop, remaining := w.remaining - 1 }

/-- The walk comes to these blocks and to no other. -/
def Meets : Walk → List Block → Prop
  | w, [] => w.remaining = 0
  | w, block :: blocks =>
    w.remaining = blocks.length + 1 ∧ Block.at? w.buffer w.here = some block ∧ Meets (w.behind block) blocks

variable {w : Walk} {block : Block} {blocks front back : List Block}

theorem Meets.remaining_eq : ∀ {blocks : List Block}, w.Meets blocks → w.remaining = blocks.length
  | [], h => h
  | _ :: _, h => h.1

/-! ## What a walk shows -/

theorem next_of_nil (h : w.Meets []) : w.next = .ok (none, w) := if_pos h

theorem next_of_cons (h : w.Meets (block :: blocks)) : w.next = .ok (some (block.entry w.buffer), w.behind block) := by
  obtain ⟨hr, hat, _⟩ := h
  have hne : ¬ w.remaining = 0 := by omega
  have hadd : Word.add block.offset block.size = .ok block.stop :=
    Word.add_eq_ok (Buffer.lt_bound (Block.stop_le_size hat))
  have hpay := Block.payload_eq_contents hat
  simp only [next, if_neg hne, hat, hadd, hpay, bind, Except.bind, pure, Except.pure, behind, Block.entry]

/-- Taking as many entries as are left takes all of them. -/
theorem take_of_meets : ∀ {blocks : List Block} {w : Walk}, w.Meets blocks →
    w.take blocks.length = .ok (blocks.map (Block.entry w.buffer))
  | [], _, _ => rfl
  | block :: blocks, w, h => by
    have ih : (w.behind block).take blocks.length = .ok (blocks.map (Block.entry w.buffer)) := take_of_meets h.2.2
    simp only [List.length_cons, take, next_of_cons h, ih, bind, Except.bind, pure, Except.pure, List.map_cons]

theorem toList_of_meets (h : w.Meets blocks) : w.toList = .ok (blocks.map (Block.entry w.buffer)) := by
  rw [toList, h.remaining_eq]
  exact take_of_meets h

/-- **Each step shows the next entry** and how many are left; after the last one it shows none. -/
theorem visit_of_meets : ∀ (n : Nat) {w : Walk} {blocks : List Block}, w.Meets blocks →
    ∃ last : Walk, last.buffer = w.buffer ∧ last.Meets (blocks.drop n) ∧ w.visit n = .ok
      ((List.range n).map fun i => (blocks[i]?.map (Block.entry w.buffer), blocks.length - (i + 1)), last)
  | 0, w, _, h => ⟨w, rfl, h, rfl⟩
  | n + 1, w, [], h => by
    obtain ⟨last, hb, hm, hv⟩ := visit_of_meets n h
    refine ⟨last, hb, by simpa using hm, ?_⟩
    rw [List.range_succ_eq_map]
    simp only [visit, next_of_nil h, hv, h.remaining_eq, bind, Except.bind, pure, Except.pure]
    simp [Function.comp_def]
  | n + 1, w, block :: blocks, h => by
    obtain ⟨last, hb, hm, hv⟩ := visit_of_meets n h.2.2
    refine ⟨last, hb, hm, ?_⟩
    have hleft : (w.behind block).remaining = blocks.length := h.2.2.remaining_eq
    rw [List.range_succ_eq_map]
    simp only [visit, next_of_cons h, hv, hleft, bind, Except.bind, pure, Except.pure]
    simp [Function.comp_def, behind]

/-- A tour shows what its steps show, and then all entries that are left. -/
theorem tour_of_meets (h : w.Meets blocks) (n : Nat) :
    w.tour n = .ok {
      promised := blocks.length
      steps := (List.range n).map fun i => (blocks[i]?.map (Block.entry w.buffer), blocks.length - (i + 1))
      rest := (blocks.drop n).map (Block.entry w.buffer) } := by
  obtain ⟨last, hb, hm, hv⟩ := visit_of_meets n h
  have hl := toList_of_meets hm
  rw [hb] at hl
  simp only [tour, hv, hl, h.remaining_eq, bind, Except.bind, pure, Except.pure]

/-! ## Where a walk leads -/

/-- Only the place where a walk goes on counts. -/
theorem Meets.of_here {w' : Walk} (hb : w'.buffer = w.buffer) (hm : w'.margin = w.margin)
    (hr : w'.remaining = w.remaining) (hh : w'.here = w.here) :
    ∀ {blocks : List Block}, w.Meets blocks → w'.Meets blocks
  | [], h => hr.trans h
  | block :: blocks, ⟨h1, h2, h3⟩ => by
    refine ⟨hr.trans h1, by rw [hb, hh]; exact h2, ?_⟩
    have he : w'.behind block = w.behind block := by
      unfold behind
      rw [hb, hm, hr]
    rw [he]
    exact h3

/-- A walk comes through a stretch below the margin block by block, and goes on behind it. -/
theorem meets_of_tiles {stop : Nat} : ∀ {front : List Block} {w : Walk}, Tiles w.buffer w.position front stop →
    stop ≤ w.margin → w.remaining = front.length + back.length →
    ({ w with position := stop, remaining := back.length } : Walk).Meets back → w.Meets (front ++ back)
  | [], w, ht, _, hr, hb => by
    cases ht
    rw [List.length_nil, Nat.zero_add] at hr
    rw [← hr] at hb
    exact hb
  | block :: front, w, ⟨hat, ht⟩, hs, hr, hb => by
    have h1 := Block.offset_lt_stop hat
    have h2 := ht.le
    have hhere : w.here = w.position := if_neg (by omega)
    have hl : (front ++ back).length = front.length + back.length := List.length_append
    rw [List.length_cons] at hr
    refine ⟨show w.remaining = (front ++ back).length + 1 by omega, by rw [hhere]; exact hat, ?_⟩
    exact meets_of_tiles (w := w.behind block) ht hs (show w.remaining - 1 = _ by omega) hb

/-- A walk ends behind a stretch below the margin if that holds all entries that are left. -/
theorem meets_of_last {stop : Nat} (ht : Tiles w.buffer w.position blocks stop) (hs : stop ≤ w.margin)
    (hr : w.remaining = blocks.length) : w.Meets blocks := by
  rw [← List.append_nil blocks]
  exact meets_of_tiles ht hs (by simpa using hr) rfl

end Walk

variable {b : Buffer} {c : Cursors} {shape : Shape} {blocks : List Block}

/-- **The walk over a layout meets its blocks.** -/
theorem Layout.meets (h : Layout b c shape blocks) :
    ({ buffer := b, margin := c.margin, position := c.head, remaining := c.count } : Walk).Meets blocks := by
  cases h with
  | empty hb hc =>
    subst hc
    rfl
  | linear h =>
    have ht := h.tail_eq_margin
    exact Walk.meets_of_last h.tiles (show c.tail ≤ c.margin by omega) h.count_eq
  | @wrapped older newer h =>
    have h1 := h.tail_le_head
    have h2 := h.head_lt_margin
    refine Walk.meets_of_tiles h.older_tiles (Nat.le_refl _) h.count_eq ?_
    -- The walk is at the margin, and goes on at the first offset.
    let start : Walk := { buffer := b, margin := c.margin, position := Block.firstOffset, remaining := newer.length }
    have hm : start.Meets newer := Walk.meets_of_last h.newer_tiles (show c.tail ≤ c.margin by omega) rfl
    refine Walk.Meets.of_here (w := start) ?_ ?_ ?_ ?_ hm
    · rfl
    · rfl
    · rfl
    · simp [Walk.here, start]

namespace Queue

variable {q : Queue}

/-- The entries of a queue are those of its blocks, in the same order. -/
theorem toList_of_layout (h : Layout q.buffer q.cursors shape blocks) :
    q.toList = .ok (blocks.map (Block.entry q.buffer)) := Walk.toList_of_meets h.meets

theorem tour_of_layout (h : Layout q.buffer q.cursors shape blocks) (n : Nat) :
    q.walk.tour n = .ok {
      promised := blocks.length
      steps := (List.range n).map fun i => (blocks[i]?.map (Block.entry q.buffer), blocks.length - (i + 1))
      rest := (blocks.drop n).map (Block.entry q.buffer) } := Walk.tour_of_meets h.meets n

/-- The front is the offset of the first block. -/
theorem front?_of_layout (h : Layout q.buffer q.cursors shape blocks) :
    q.front? = .ok (blocks.head?.map Block.offset) := by
  have hm : q.walk.Meets blocks := h.meets
  cases blocks with
  | nil =>
    rw [front?, Walk.next_of_nil hm]
    rfl
  | cons block blocks =>
    rw [front?, Walk.next_of_cons hm]
    rfl

end Queue
end BlockRing
