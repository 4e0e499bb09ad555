import BlockRing.Proofs.FreeStretches
import BlockRing.Proofs.Reach

/-!
# Refusals at the ceiling

A push is refused where no free stretch takes its block and the block, on top of the whole buffer, would come to the
ceiling or beyond (`refuses_iff`). The bytes behind the margin count as part of the buffer there, though they hold no
block and a growth makes room from the margin on.

- A growth makes room for just the blocks that end below the ceiling, or at it, when they are written behind the margin
  (`growsFor_iff`).
- **A refusal says that no buffer up to the ceiling could take the block, except for those blocks** that come to the
  ceiling only on top of the whole buffer (`exceeds_ceiling_iff`). An empty queue that refuses a block of half its
  maximum is such a case (`not_exceeds_ceiling_empty`).
-/

namespace BlockRing

/-- A payload that fits into the address space has a block that does. -/
theorem Payload.need_add_lt_of_le_maxSize {payload : Payload} (h : payload.length ≤ Buffer.maxSize) :
    payload.need + Block.minSize < Word.bound := by
  have := Block.headerWidth_bounds payload.length
  unfold Buffer.maxSize at h
  unfold need Block.minSize Word.bound
  omega

theorem Word.le_addSat_iff {a b n : Nat} (h : n < bound) : n ≤ addSat a b ↔ n ≤ a + b := by
  unfold addSat largest
  omega

namespace Queue

/-- A push of the payload is refused for want of room. -/
def Refuses (q : Queue) (payload : Payload) : Prop := ∃ outcome requested capacity most, q.push payload = .ok outcome ∧
  outcome.reply = .error (.noRoom requested capacity most)

/-- No buffer up to the ceiling could take the block: no free stretch takes it now, and behind the margin it would reach
beyond the ceiling. -/
def ExceedsCeiling (q : Queue) (need : Nat) : Prop := ¬ q.HasRoom need ∧ q.maxCapacity < q.cursors.margin + need

instance (q : Queue) (need : Nat) : Decidable (q.ExceedsCeiling need) :=
  inferInstanceAs (Decidable (¬ q.HasRoom need ∧ q.maxCapacity < q.cursors.margin + need))

/-- A growth for a block of `need` bytes makes room for it behind the margin. -/
def GrowsFor (q : Queue) (need : Nat) : Prop := ∃ grown, q.grow need = .ok grown ∧
  grown.queue.cursors.slot? grown.queue.capacity need = .ok (some q.cursors.margin)

variable {q : Queue} {payload : Payload} {need : Nat}

/-- The ceiling of a queue that has one is met by a block that, on top of the buffer, comes to it or beyond. -/
theorem ceilingMet?_eq_some_iff (hq : Reachable q) (h0 : 0 < q.maxCapacity) (hm : q.maxCapacity < Word.bound) :
    q.ceilingMet? need = some q.maxCapacity ↔ q.maxCapacity ≤ q.capacity + need := by
  have hc : q.ceiling = some q.maxCapacity := hq.ceiling_eq.trans (if_neg (by omega))
  rw [ceilingMet?, hc, Option.filter_eq_some_iff, decide_eq_true_eq, Word.le_addSat_iff hm]
  exact and_iff_right rfl

/-- **When a push is refused.** -/
theorem refuses_iff (hq : Reachable q) (h0 : 0 < q.maxCapacity) (hm : q.maxCapacity < Word.bound)
    (hp : payload.length ≤ Buffer.maxSize) :
    q.Refuses payload ↔ ¬ q.HasRoom payload.need ∧ q.maxCapacity ≤ q.capacity + payload.need := by
  obtain ⟨shape, blocks, h⟩ := hq.layout
  have hn := Payload.need_add_lt_of_le_maxSize hp
  have hslot : q.cursors.slot? q.capacity payload.need = .ok none ↔ ¬ q.HasRoom payload.need :=
    h.slot?_eq_none_iff payload.need_pos hn
  rw [← hslot, ← ceilingMet?_eq_some_iff hq h0 hm]
  constructor
  · rintro ⟨outcome, _, _, _, ho, hr⟩
    obtain ⟨_, _, hpushed, _⟩ := pushed_of_push h ho
    cases hpushed with
    | placed hs w => cases hr
    | refused hs hc => exact ⟨hs, by rw [hc, maxCapacity_of_ceilingMet? hc]⟩
    | grown hs hc hg w => cases hr
  · rintro ⟨hs, hc⟩
    have hneed : Block.sizeFor payload.length = .ok payload.need :=
      Word.add_eq_ok (Nat.lt_of_le_of_lt (Nat.le_add_right _ _) hn)
    refine ⟨{ reply := .error (.noRoom payload.need q.capacity q.maxCapacity), queue := q }, _, _, _, ?_, rfl⟩
    simp only [push, hneed, hs, hc, bind, Except.bind, pure, Except.pure]

/-- **A growth makes room for just the blocks that do not reach beyond the ceiling behind the margin.** -/
theorem growsFor_iff (hq : Reachable q) (h0 : 0 < q.maxCapacity) (hs : q.maxCapacity ≤ Buffer.maxSize)
    (hp : payload.length < Payload.limit) :
    q.GrowsFor payload.need ↔ q.cursors.margin + payload.need ≤ q.maxCapacity := by
  obtain ⟨shape, blocks, h⟩ := hq.layout
  have hc : q.ceiling = some q.maxCapacity := hq.ceiling_eq.trans (if_neg (by omega))
  have hle := hq.capacity_le_ceiling hc
  have hmargin : q.cursors.margin ≤ q.capacity := h.margin_le_size
  have hgrown : q.grownCapacity payload.need = min (Word.doubleSat (max q.capacity payload.need)) q.maxCapacity := by
    rw [grownCapacity, hc]
  have hdouble : q.capacity ≤ Word.doubleSat (max q.capacity payload.need) ∧ (q.cursors.margin + payload.need ≤
      q.maxCapacity → q.cursors.margin + payload.need ≤ Word.doubleSat (max q.capacity payload.need)) := by
    unfold Buffer.maxSize at hs
    unfold Word.doubleSat Word.largest Word.bound
    omega
  have hcap : q.capacity ≤ q.grownCapacity payload.need := by omega
  have hsize : q.grownCapacity payload.need ≤ Buffer.maxSize := by omega
  obtain ⟨g, blocks', hg, hgr⟩ := grow_of_layout h hcap hsize
  constructor
  · rintro ⟨grown, hg', hslot⟩
    cases hg.symm.trans hg'
    obtain ⟨_, _, hlay⟩ := hgr.layout
    have hfit : q.cursors.margin + payload.need ≤ g.capacity :=
      add_le_of_slot hlay payload.need_pos (Payload.need_add_lt hp) hslot
    rw [hgr.capacity_eq] at hfit
    omega
  · intro hroom
    exact ⟨_, hg, slot?_of_grown hgr hp (by omega)⟩

/-- **What a refusal says of the ceiling.** A push is refused just if no free stretch takes its block and the block, on
top of the buffer, comes to the ceiling or beyond. That no buffer up to the ceiling could take the block follows just
where it is not refused or would end beyond the ceiling behind the margin; and there, only there, a growth would leave
too little room. All this holds for a maximum that is a machine word and a payload that fits into the address space. -/
theorem exceeds_ceiling_iff (hq : Reachable q) (h0 : 0 < q.maxCapacity) (hm : q.maxCapacity < Word.bound)
    (hp : payload.length ≤ Buffer.maxSize) :
    (q.Refuses payload ↔ ¬ q.HasRoom payload.need ∧ q.maxCapacity ≤ q.capacity + payload.need) ∧
      ((q.Refuses payload → q.ExceedsCeiling payload.need) ↔
        q.HasRoom payload.need ∨ q.capacity + payload.need < q.maxCapacity ∨
          q.maxCapacity < q.cursors.margin + payload.need) ∧
      (q.maxCapacity ≤ Buffer.maxSize → payload.length < Payload.limit →
        (q.GrowsFor payload.need ↔ q.cursors.margin + payload.need ≤ q.maxCapacity)) := by
  have hr := refuses_iff hq h0 hm hp
  refine ⟨hr, ?_, growsFor_iff hq h0⟩
  rw [hr, ExceedsCeiling]
  by_cases hroom : q.HasRoom payload.need
  · simp [hroom]
  · simp only [hroom, not_false_eq_true, true_and, false_or]
    omega

/-- A queue whose tail has come to the end of its buffer refuses a block that would reach beyond its ceiling. -/
theorem exceeds_ceiling_iff_full : ∃ q : Queue, Reachable q ∧ 0 < q.maxCapacity ∧ q.maxCapacity < Word.bound ∧
    ([6, 7] : Payload).length ≤ Buffer.maxSize ∧ q.Refuses [6, 7] ∧ q.ExceedsCeiling (Payload.need [6, 7]) := by
  let q : Queue := {
    buffer := ⟨#[0, 5, 1, 2, 3, 4], by decide⟩
    ceiling := some 8
    cursors := { head := 1, tail := 6, margin := 6, count := 1 } }
  have hq : Reachable q := reachable_iff.mpr ⟨6, 8, false,
    { buffer := ⟨Array.replicate 6 0, by decide⟩, ceiling := some 8 }, [.push [1, 2, 3, 4]], by cbv, by cbv⟩
  obtain ⟨hr, hlaw, _⟩ := @exceeds_ceiling_iff q [6, 7] hq (by decide) (by decide) (by decide)
  have hrefuses : q.Refuses [6, 7] := hr.mpr (by decide)
  exact ⟨q, hq, by decide, by decide, by decide, hrefuses, hlaw.mpr (by decide) hrefuses⟩

/-- A new queue refuses a block of half its maximum, though one growth would make room for it. -/
theorem not_exceeds_ceiling_empty : ∃ q : Queue, Queue.create 10 20 false = .ok (.ok q) ∧ Reachable q ∧
    q.Refuses [49, 50, 51, 52, 53, 54, 55, 56, 57] ∧
    ¬ q.ExceedsCeiling (Payload.need [49, 50, 51, 52, 53, 54, 55, 56, 57]) ∧
    q.GrowsFor (Payload.need [49, 50, 51, 52, 53, 54, 55, 56, 57]) := by
  let q : Queue := { buffer := ⟨Array.replicate 10 0, by decide⟩, ceiling := some 20 }
  have hc : Queue.create 10 20 false = .ok (.ok q) := by cbv
  have hq : Reachable q := .create hc
  have hgrows : q.GrowsFor (Payload.need [49, 50, 51, 52, 53, 54, 55, 56, 57]) :=
    (growsFor_iff hq (by decide) (by decide) (by decide)).mpr (by decide)
  exact ⟨q, hc, hq, ⟨_, 10, 10, 20, by cbv, rfl⟩, by decide, hgrows⟩

end Queue
end BlockRing
