import BlockRing.Proofs.Placement

/-!
# Full queues

A queue is called full once entries have wrapped around and the tail has come up to the head.

- A full queue places no entry without a growth, be it as short as can be. The shortest entry decides for all others
  (`not_places_iff`).
- A queue that does not wrap around and has no byte free before its head or behind its tail (`Queue.Flush`) places none
  either, but is not called full.
- **To be full means that no entry can be placed, except for these queues** (`isFull_iff_unless_flush`). One that a
  single entry has filled to the last byte is such a case (`not_isFull_of_flush`).
-/

namespace BlockRing
namespace Queue

/-- No entry has wrapped around, and no byte is free before the head or behind the tail. -/
def Flush (q : Queue) : Prop :=
  ¬ q.cursors.Wraps ∧ q.cursors.head = Block.firstOffset ∧ q.cursors.tail = q.capacity

instance (q : Queue) : Decidable q.Flush :=
  inferInstanceAs (Decidable (¬ q.cursors.Wraps ∧ q.cursors.head = Block.firstOffset ∧ q.cursors.tail = q.capacity))

variable {q : Queue} {payload : Payload} {offset need need' : Nat} {pushed : Outcome (Except Refusal Nat)}

/-! ## Room for the shortest block -/

/-- Room for a block is room for every shorter one. -/
theorem HasRoom.mono (h : q.HasRoom need) (hle : need' ≤ need) : q.HasRoom need' := by
  obtain ⟨stretch, hm, ht⟩ := h
  exact ⟨stretch, hm, Nat.le_trans (Nat.add_le_add_left hle _) ht⟩

/-- There is no room for the shortest block just in queues that are full or flush. -/
theorem not_hasRoom_minSize_iff (hq : Reachable q) : ¬ q.HasRoom Block.minSize ↔ q.isFull = true ∨ q.Flush := by
  obtain ⟨shape, blocks, h⟩ := hq.layout
  obtain ⟨⟨hf, _⟩, ⟨_, ht⟩, _⟩ := h.consistent
  have hsat : q.isFull = true ↔ q.cursors.Wraps ∧ q.cursors.tail = q.cursors.head := h.saturated_iff
  rw [hsat, Flush, HasRoom, Cursors.freeStretches]
  unfold Stretch.Takes Block.minSize
  by_cases hw : q.cursors.Wraps
  · have hle := hw.2
    simp only [hw, if_true, List.mem_singleton, exists_eq_left, true_and, not_true_eq_false, false_and, or_false]
    omega
  · unfold capacity Block.firstOffset at *
    simp only [hw, if_false, List.mem_cons, List.not_mem_nil, or_false, exists_eq_or_imp, exists_eq_left, false_and,
      not_false_eq_true, true_and, false_or, not_or]
    omega

/-! ## Placing anything -/

/-- A push that is taken leaves a block in use. -/
theorem Pushed.ne_nil {shape : Shape} {blocks blocks' : List Block} (h : Pushed q payload shape blocks pushed blocks')
    (hr : pushed.reply = .ok offset) : blocks' ≠ [] := by
  cases h with
  | placed hslot w => exact List.append_ne_nil_of_right_ne_nil _ (List.cons_ne_nil _ _)
  | refused hslot hm => cases hr
  | grown hslot hm hg w => exact List.append_ne_nil_of_right_ne_nil _ (List.cons_ne_nil _ _)

/-- A payload beyond the limit is never taken. -/
theorem length_lt_of_push (h : q.push payload = .ok pushed) (hr : pushed.reply = .ok offset) :
    payload.length < Payload.limit := by
  refine Nat.lt_of_not_le fun hp => ?_
  have hpushed : Pushed q payload .empty [] pushed [] := (pushed_of_limit_le hp h).2
  exact hpushed.ne_nil hr rfl

/-- An entry is placed without a growth just if it is below the limit and a free stretch takes its block. -/
theorem exists_places_iff (hq : Reachable q) :
    (∃ offset, q.Places payload offset) ↔ payload.length < Payload.limit ∧ q.HasRoom payload.need := by
  constructor
  · rintro ⟨offset, hpl⟩
    obtain ⟨pushed, hpush, hr, _⟩ := id hpl
    have hp := length_lt_of_push hpush hr
    have hplace := place?_of_places hq hp (allocates_of_push hp hpush) hpl
    refine ⟨hp, Decidable.not_not.mp fun hno => ?_⟩
    rw [place?_eq_none_iff.mpr hno] at hplace
    cases hplace
  · rintro ⟨hp, hroom⟩
    cases hplace : q.cursors.place? q.capacity payload.need with
    | some offset => exact ⟨offset, places_of_place? hq hp hplace⟩
    | none => exact absurd hroom (place?_eq_none_iff.mp hplace)

/-- **The shortest entry decides**: without room for it there is room for none. -/
theorem not_places_iff (hq : Reachable q) :
    (∀ payload offset, ¬ q.Places payload offset) ↔ ¬ q.HasRoom Block.minSize := by
  constructor
  · intro hno hroom
    obtain ⟨offset, hpl⟩ : ∃ offset, q.Places [] offset := (exists_places_iff hq).mpr ⟨by decide, hroom⟩
    exact hno [] offset hpl
  · intro hno payload offset hpl
    obtain ⟨_, hroom⟩ := (exists_places_iff hq).mp ⟨offset, hpl⟩
    exact hno (hroom.mono payload.need_pos)

/-- **What it means to be full.** A full queue places no entry without a growth, and whether it places any is seen from
the empty one. That a queue is full just if it places none holds unless it is flush: then it places none and is not
full. -/
theorem isFull_iff_unless_flush (hq : Reachable q) :
    (q.isFull = true → ∀ payload offset, ¬ q.Places payload offset) ∧
      ((∀ payload offset, ¬ q.Places payload offset) ↔ ∀ offset, ¬ q.Places [] offset) ∧
      ((q.isFull = true ↔ ∀ payload offset, ¬ q.Places payload offset) ↔ ¬ q.Flush) := by
  have hnone := (not_places_iff hq).trans (not_hasRoom_minSize_iff hq)
  have hempty : (∃ offset, q.Places [] offset) ↔ q.HasRoom Block.minSize :=
    (exists_places_iff hq).trans (and_iff_right (by decide))
  refine ⟨fun hf => hnone.mpr (.inl hf), ?_, ?_⟩
  · rw [not_places_iff hq, ← hempty, not_exists]
  · obtain ⟨shape, blocks, h⟩ := hq.layout
    rw [hnone]
    by_cases hfl : q.Flush
    · have hno : ¬ q.isFull = true := fun hf => hfl.1 (h.saturated_iff.mp hf).1
      simp [hno, hfl]
    · simp [hfl]

/-- A queue that an entry has filled by wrapping around places nothing. -/
theorem isFull_iff_unless_flush_wrapped : ∃ q : Queue,
    q.cursors = { head := 4, tail := 4, margin := 7, count := 2, saturated := true } ∧ Reachable q ∧
      q.isFull = true ∧ ∀ payload offset, ¬ q.Places payload offset := by
  let q : Queue := {
    buffer := ⟨#[0, 3, 5, 6, 3, 3, 4, 0], by decide⟩
    cursors := { head := 4, tail := 4, margin := 7, count := 2, saturated := true } }
  have hq : Reachable q := reachable_iff.mpr ⟨8, 0, false, { buffer := ⟨Array.replicate 8 0, by decide⟩ },
    [.push [1, 2], .push [3, 4], .pop, .push [5, 6]], by cbv, by cbv⟩
  exact ⟨q, rfl, hq, rfl, (isFull_iff_unless_flush hq).1 rfl⟩

/-- A queue at its ceiling whose only entry reaches to the last byte is not full, yet places nothing and turns even the
empty entry down. -/
theorem not_isFull_of_flush : ∃ q r : Queue, Queue.create 7 7 false = .ok (.ok q) ∧
    q.push [49, 50, 51, 52, 53] = .ok { reply := .ok 1, queue := r } ∧ Reachable r ∧ r.isFull = false ∧
    (∀ payload offset, ¬ r.Places payload offset) ∧ r.TurnsDown [] := by
  let q : Queue := { buffer := ⟨Array.replicate 7 0, by decide⟩, ceiling := some 7 }
  let r : Queue := {
    buffer := ⟨#[0, 6, 49, 50, 51, 52, 53], by decide⟩
    ceiling := some 7
    cursors := { head := 1, tail := 7, margin := 7, count := 1 } }
  have hc : Queue.create 7 7 false = .ok (.ok q) := by cbv
  have hr : Reachable r := reachable_iff.mpr ⟨7, 7, false, q, [.push [49, 50, 51, 52, 53]], hc, by cbv⟩
  exact ⟨q, r, hc, by cbv, hr, rfl, (not_places_iff hr).mpr (by decide), _, _, by cbv, rfl⟩

end Queue
end BlockRing
