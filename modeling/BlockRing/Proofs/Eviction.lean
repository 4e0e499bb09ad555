import BlockRing.Proofs.Fullness
import BlockRing.Proofs.Removal

/-!
# Evicting entries

- Removing all entries one by one leaves just what a reset leaves (`draining_is_reset`).
- A pop leaves every free stretch free, inside one that is as long or longer (`Layout.within_release`). So what has room
  before a pop has room after it (`hasRoom_popped`), and since neither the capacity nor the ceiling changes, what is
  accepted before it is accepted after it (`accepts_popped`).
- **Evicting entries until there is room succeeds** for every block that the buffer can hold at all: from some number of
  pops on there is room, and no more of them take it away (`eviction_makes_room`).
-/

namespace BlockRing

/-- A stretch lies inside another one. -/
def Stretch.Within (inner outer : Stretch) : Prop := outer.start ≤ inner.start ∧ inner.stop ≤ outer.stop

/-- What an inner stretch takes, an outer one takes. -/
theorem Stretch.Within.takes {inner outer : Stretch} {need : Nat} (h : inner.Within outer) (ht : inner.Takes need) :
    outer.Takes need := by
  obtain ⟨h1, h2⟩ := h
  unfold Takes at *
  omega

/-! ## Free stretches after a pop -/

section Release

variable {b : Buffer} {c : Cursors} {shape : Shape} {blocks older newer : List Block} {block : Block}
  {stretch : Stretch}

theorem Cursors.tailStretch_mem (c : Cursors) (capacity : Nat) : c.tailStretch capacity ∈ c.freeStretches capacity := by
  unfold tailStretch freeStretches
  split
  · exact List.mem_singleton_self _
  · exact List.mem_cons_self

/-- With entries in line, the stretch before the head becomes longer, or the whole buffer becomes free. -/
theorem Linear.within_release (h : Linear b c (block :: blocks)) (hm : stretch ∈ c.freeStretches b.size) :
    ∃ outer ∈ (c.released block.size).freeStretches b.size, stretch.Within outer := by
  rw [(Layout.linear h).freeStretches_unwrapped (by decide), List.mem_cons, List.mem_singleton] at hm
  obtain ⟨hf, hlt, ht, hb, _, ⟨hat, tiles⟩, hc⟩ := h
  have hstop : c.head + block.size = block.stop := by rw [Block.stop, Block.offset_of_at? hat]
  have hlen := tiles.add_length_le
  rw [List.length_cons] at hc
  by_cases he : c.head + block.size = c.margin
  · -- The last block is gone, so that everything is free.
    have hcount : c.count - 1 = 0 := by omega
    have hw : ¬ ({ count := 0 } : Cursors).Wraps := fun hw => absurd hw.1 (Nat.lt_irrefl _)
    rw [Cursors.released_of_last he ht, hcount]
    refine ⟨_, Cursors.tailStretch_mem _ _, ?_⟩
    rw [Cursors.tailStretch, if_neg hw]
    rcases hm with rfl | rfl
    · exact ⟨show Block.firstOffset ≤ c.tail by omega, Nat.le_refl _⟩
    · exact ⟨Nat.le_refl _, show c.head ≤ b.size by omega⟩
  · have hw : ¬ ({ c with head := c.head + block.size, count := c.count - 1, saturated := false } : Cursors).Wraps :=
      fun hw => absurd hw.2 (Nat.not_le.mpr (show c.head + block.size < c.tail by omega))
    rw [Cursors.released_of_ne he, Cursors.freeStretches, if_neg hw]
    rcases hm with rfl | rfl
    · exact ⟨_, List.mem_cons_self, Nat.le_refl _, Nat.le_refl _⟩
    · exact ⟨_, List.mem_cons_of_mem _ List.mem_cons_self, Nat.le_refl _, Nat.le_add_right _ _⟩

/-- With wrapped entries the gap becomes longer, or reaches to the end of the buffer. -/
theorem Wrapped.within_release (h : Wrapped b c (block :: older) newer) (hm : stretch ∈ c.freeStretches b.size) :
    ∃ outer ∈ (c.released block.size).freeStretches b.size, stretch.Within outer := by
  rw [(Layout.wrapped h).freeStretches_wrapped] at hm
  obtain rfl := List.mem_singleton.mp hm
  obtain ⟨hf, hle, hlt, hb, _⟩ := h
  refine ⟨_, (c.released block.size).tailStretch_mem b.size, ?_⟩
  by_cases he : c.head + block.size = c.margin
  · -- The last of the older blocks is gone, and the newer ones lie in line.
    rw [Cursors.released_of_eq he (by omega), Cursors.tailStretch, if_neg fun hw => absurd hw.2 (Nat.not_le.mpr hf)]
    exact ⟨Nat.le_refl _, show c.head ≤ b.size by omega⟩
  · rw [Cursors.released_of_ne he, Cursors.tailStretch]
    refine ⟨Nat.le_refl _, ?_⟩
    dsimp only
    split
    · exact Nat.le_add_right _ _
    · omega

/-- **A pop leaves every free stretch free**, inside one that is as long or longer. -/
theorem Layout.within_release (h : Layout b c shape (block :: blocks)) (hm : stretch ∈ c.freeStretches b.size) :
    ∃ outer ∈ (c.released block.size).freeStretches b.size, stretch.Within outer := by
  generalize hl : block :: blocks = all at h
  cases h with
  | empty hb hc => cases hl
  | linear h =>
    subst hl
    exact h.within_release hm
  | @wrapped older newer h =>
    cases older with
    | nil => exact absurd rfl h.older_ne_nil
    | cons x older =>
      cases hl
      exact h.within_release hm

end Release

namespace Queue

/-- A push of the payload is taken, with or without a growth. -/
def Accepts (q : Queue) (payload : Payload) : Prop := ∃ pushed offset, q.push payload = .ok pushed ∧
  pushed.reply = .ok offset

variable {q r : Queue} {shape : Shape} {blocks : List Block} {block : Block} {payload : Payload} {need : Nat}

/-! ## What fits after a pop -/

/-- **What has room before a pop has room after it.** -/
theorem hasRoom_popped (h : Layout q.buffer q.cursors shape (block :: blocks)) (hr : q.HasRoom need) :
    (q.popped block.size).HasRoom need := by
  obtain ⟨stretch, hm, ht⟩ := hr
  obtain ⟨outer, hm', hin⟩ := h.within_release hm
  exact ⟨outer, hm', hin.takes ht⟩

/-- A push is accepted just if there is room, or else the ceiling is out of the way and the larger buffer can be
allocated. -/
theorem accepts_iff (hq : Reachable q) (hp : payload.length < Payload.limit) : q.Accepts payload ↔
    q.HasRoom payload.need ∨ ¬ q.MeetsCeiling payload.need ∧ q.grownCapacity payload.need ≤ Buffer.maxSize := by
  constructor
  · rintro ⟨pushed, offset, hpush, hr⟩
    have ha := allocates_of_push hp hpush
    obtain ⟨shape, blocks, h⟩ := hq.layout
    by_cases hroom : q.HasRoom payload.need
    · exact .inl hroom
    have hslot : q.cursors.slot? q.capacity payload.need = .ok none :=
      (h.slot?_eq_none_iff payload.need_pos (Payload.need_add_lt hp)).mpr hroom
    have hmeets : ¬ q.MeetsCeiling payload.need := by
      intro hm
      cases hpush.symm.trans (push_of_meetsCeiling hq hp hroom hm)
      cases hr
    have hceil := ceilingMet?_eq hq hp
    rw [if_neg hmeets] at hceil
    exact .inr ⟨hmeets, ha hslot hceil⟩
  · intro h
    by_cases hroom : q.HasRoom payload.need
    · obtain ⟨offset, pushed, hpush, hr, _⟩ := (exists_places_iff hq).mpr ⟨hp, hroom⟩
      exact ⟨pushed, offset, hpush, hr⟩
    · obtain ⟨hmeets, hle⟩ := h.resolve_left hroom
      obtain ⟨pushed, _, hpush, hr, _⟩ := growsAndPlaces_of_not_meetsCeiling hq hp (fun _ _ => hle) hroom hmeets
      exact ⟨pushed, _, hpush, hr⟩

/-- What is accepted before a pop is accepted after it: a growth asks for the same. -/
theorem accepts_popped (hq : Reachable q) (hr : Reachable (q.popped block.size)) (hp : payload.length < Payload.limit)
    (h : Layout q.buffer q.cursors shape (block :: blocks)) (ha : q.Accepts payload) :
    (q.popped block.size).Accepts payload :=
  (accepts_iff hr hp).mpr (((accepts_iff hq hp).mp ha).imp_left (hasRoom_popped h))

/-! ## Pop after pop -/

/-- Without any entry there is room for every block that the buffer can hold. -/
theorem hasRoom_of_nil (h : Layout q.buffer q.cursors shape []) (hn : Block.firstOffset + need ≤ q.capacity) :
    q.HasRoom need := by
  refine ⟨_, q.cursors.tailStretch_mem q.capacity, ?_⟩
  rw [h.of_nil]
  exact hn

/-- **From some number of pops on there is room**, for a block that the buffer can hold. -/
theorem exists_room_after_pops : ∀ {blocks : List Block} {q : Queue} {shape : Shape},
    Layout q.buffer q.cursors shape blocks → Block.firstOffset + need ≤ q.capacity →
      ∃ k ≤ blocks.length, ∀ j ≤ blocks.length,
        ∃ r, q.after (List.replicate j .pop) = .ok r ∧ r.len + j = blocks.length ∧ (r.HasRoom need ↔ k ≤ j)
  | [], q, _, h, hn => by
    refine ⟨0, Nat.le_refl _, fun j hj => ?_⟩
    obtain rfl := Nat.le_zero.mp hj
    exact ⟨q, rfl, h.count_eq, iff_of_true (hasRoom_of_nil h hn) (Nat.le_refl _)⟩
  | block :: blocks, q, _, h, hn => by
    obtain ⟨_, _, h'⟩ := pop_of_cons h
    obtain ⟨k, hk, hall⟩ := exists_room_after_pops (q := q.popped block.size) h' hn
    -- With room from the start on the first pop takes it away as little as the later ones.
    obtain ⟨first, hfirst, hzero, hsucc⟩ : ∃ first ≤ (block :: blocks).length,
        (q.HasRoom need ↔ first ≤ 0) ∧ ∀ j, first ≤ j + 1 ↔ k ≤ j := by
      by_cases hroom : q.HasRoom need
      · obtain ⟨r, hr, _, hi⟩ := hall 0 (Nat.zero_le _)
        cases hr
        have hk0 := hi.mp (hasRoom_popped h hroom)
        exact ⟨0, Nat.zero_le _, iff_of_true hroom (Nat.le_refl _), fun j => by omega⟩
      · exact ⟨k + 1, Nat.succ_le_succ hk, iff_of_false hroom (by omega), fun j => by omega⟩
    refine ⟨first, hfirst, fun j hj => ?_⟩
    cases j with
    | zero => exact ⟨q, rfl, h.count_eq, hzero⟩
    | succ j =>
      obtain ⟨r, hr, hlen, hi⟩ := hall j (Nat.le_of_succ_le_succ hj)
      exact ⟨r, (after_pops_succ h j).trans hr, by rw [List.length_cons, ← hlen]; rfl, hi.trans (hsucc j).symm⟩

theorem reachable_popped (hq : Reachable q) (h : Layout q.buffer q.cursors shape (block :: blocks)) :
    Reachable (q.popped block.size) := hq.after (after_pops_succ h 0)

/-- **Evicting makes room.** A pop of a queue with entries takes neither the place nor the acceptance away from any
payload. And for a payload whose block fits into the buffer behind its first byte there is a number of pops from which
on it is placed without a growth, and before which it is not. -/
theorem eviction_makes_room (hq : Reachable q) (hp : payload.length < Payload.limit) :
    (q.len ≠ 0 → ∃ evicted r, q.pop = .ok { reply := .ok evicted, queue := r } ∧
      ((∃ offset, q.Places payload offset) → ∃ offset, r.Places payload offset) ∧
      (q.Accepts payload → r.Accepts payload)) ∧
    (payload.need ≤ q.capacity - 1 → ∃ k ≤ q.len, ∀ j ≤ q.len, ∃ r, q.after (List.replicate j .pop) = .ok r ∧
      r.len + j = q.len ∧ ((∃ offset, r.Places payload offset) ↔ k ≤ j)) := by
  obtain ⟨shape, blocks, h⟩ := hq.layout
  have hlen : q.len = blocks.length := h.count_eq
  constructor
  · intro hne
    cases blocks with
    | nil => exact absurd hlen hne
    | cons block blocks =>
      have hr := reachable_popped hq h
      refine ⟨_, _, (pop_of_cons h).1, fun hpl => ?_, accepts_popped hq hr hp h⟩
      have hroom := ((exists_places_iff hq).mp hpl).2
      exact (exists_places_iff hr).mpr ⟨hp, hasRoom_popped h hroom⟩
  · intro hfit
    have hpos := payload.need_pos
    obtain ⟨k, hk, hall⟩ := exists_room_after_pops h (show Block.firstOffset + payload.need ≤ q.capacity by
      unfold Block.firstOffset
      omega)
    rw [hlen]
    refine ⟨k, hk, fun j hj => ?_⟩
    obtain ⟨r, hr, hleft, hi⟩ := hall j hj
    exact ⟨r, hr, hleft, ((exists_places_iff (hq.after hr)).trans (and_iff_right hp)).trans hi⟩

/-- A queue that wraps around with one byte before its head: a block of four bytes makes it grow, and has room after a
pop. -/
theorem eviction_makes_room_wrapped : ∃ (q r : Queue) (evicted : Payload),
    q.cursors = { head := 4, tail := 3, margin := 7, count := 2 } ∧ Reachable q ∧
      q.pop = .ok { reply := .ok evicted, queue := r } ∧ r.Accepts [6, 7, 8] ∧
      ∃ k ≤ 2, ∀ j ≤ 2, ∃ s, q.after (List.replicate j .pop) = .ok s ∧ s.len + j = 2 ∧
        ((∃ offset, s.Places [6, 7, 8] offset) ↔ k ≤ j) := by
  have hq := reachable_wrappedAround
  obtain ⟨hpop, hevict⟩ := @eviction_makes_room wrappedAround [6, 7, 8] hq (by decide)
  obtain ⟨evicted, r, hr, _, hacc⟩ := hpop (by decide)
  exact ⟨_, r, evicted, rfl, hq, hr, hacc ⟨_, 7, push_wrappedAround, rfl⟩, hevict (by decide)⟩

/-! ## Draining -/

/-- Pops change nothing where no entry is left. -/
theorem after_pops_of_nil (h : Layout q.buffer q.cursors shape []) : ∀ n, q.after (List.replicate n .pop) = .ok q
  | 0 => rfl
  | n + 1 => by
    have ih := after_pops_of_nil h n
    simp only [List.replicate_succ, after, ask, pop_of_nil h, bind, Except.bind, pure, Except.pure]
    exact ih

/-- **As many pops as there are entries, or more, leave what a reset leaves.** -/
theorem after_pops_of_le : ∀ {n : Nat} {blocks : List Block} {q : Queue} {shape : Shape},
    Layout q.buffer q.cursors shape blocks → blocks.length ≤ n → q.after (List.replicate n .pop) = .ok q.reset
  | n, [], q, _, h, _ => by
    rw [after_pops_of_nil h, reset, ← h.of_nil]
  | 0, _ :: _, _, _, _, hn => absurd hn (Nat.not_succ_le_zero _)
  | n + 1, block :: blocks, q, _, h, hn => by
    obtain ⟨_, _, h'⟩ := pop_of_cons h
    exact (after_pops_succ h n).trans (after_pops_of_le (q := q.popped block.size) h' (Nat.le_of_succ_le_succ hn))

/-- Fewer pops than there are entries leave some. -/
theorem length_le_of_after_pops {n : Nat} (h : Layout q.buffer q.cursors shape blocks)
    (hn : q.after (List.replicate n .pop) = .ok q.reset) : blocks.length ≤ n := by
  rcases Nat.le_total blocks.length n with hle | hle
  · exact hle
  · obtain ⟨cursors, shape', hr, hl⟩ := exists_after_pops h hle
    have hcur : cursors = {} := congrArg Queue.cursors (Except.ok.inj (hr.symm.trans hn))
    have hcount := hl.count_eq
    rw [hcur, List.length_drop] at hcount
    exact Nat.le_of_sub_eq_zero hcount.symm

/-- **Draining is resetting.** Just as many pops as there are entries reply with one; from then on, and no earlier, the
queue is what a reset makes of it, with its cursors at the first offset and all else as it was, and a pop is refused. -/
theorem draining_is_reset (hq : Reachable q) :
    (∀ k < q.len, ∃ r s evicted, q.after (List.replicate k .pop) = .ok r ∧
      r.pop = .ok { reply := .ok evicted, queue := s }) ∧
    (∀ n, q.after (List.replicate n .pop) = .ok q.reset ↔ q.len ≤ n) ∧
    q.reset.pop = .ok { reply := .error .empty, queue := q.reset } ∧
    q.reset = { q with cursors := { head := 1, tail := 1, margin := 1, count := 0, saturated := false } } ∧
    ∃ evicted, evicted.length = q.len ∧ q.drain = .ok { reply := (evicted, .empty), queue := q.reset } := by
  obtain ⟨shape, blocks, h⟩ := hq.layout
  have hlen : q.len = blocks.length := h.count_eq
  rw [hlen]
  refine ⟨fun k hk => ?_, fun n => ⟨length_le_of_after_pops h, after_pops_of_le h⟩, pop_of_nil (layout_reset h), rfl,
    _, List.length_map _, drain_of_layout h⟩
  obtain ⟨r, s, hr, _, hpop⟩ := pop_of_drop h (List.getElem?_eq_getElem hk)
  exact ⟨r, s, _, hr, hpop⟩

/-- A queue that two pops drain, the first of which takes the head across the margin. -/
theorem draining_is_reset_wrapped : ∃ q : Queue,
    q.cursors = { head := 4, tail := 3, margin := 7, count := 2, saturated := false } ∧ Reachable q ∧
      q.after [.pop, .pop] = .ok { q with cursors := {} } ∧ q.after [.pop] ≠ .ok { q with cursors := {} } := by
  obtain ⟨_, hiff, _⟩ := draining_is_reset reachable_wrappedAround
  exact ⟨wrappedAround, rfl, reachable_wrappedAround, (hiff 2).mpr (by decide),
    fun h => absurd ((hiff 1).mp h) (by decide)⟩

end Queue
end BlockRing
