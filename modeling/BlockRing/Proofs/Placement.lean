import BlockRing.Proofs.Ceiling

/-!
# Where an entry goes

Where a push puts its entry is read off the cursors (`Cursors.place?`): at the tail if the free stretch there takes the
block, or else at the start of the buffer if no entry has wrapped around and the stretch before the head takes it. That
a gap before the head keeps room for another block turns no block down (`Layout.slot?_eq_place?`).

- A push ends in one of three ways: the entry is placed without a growth (`Queue.Places`), the push is turned down
  (`Queue.TurnsDown`), or the queue grows and then the entry is placed (`Queue.GrowsAndPlaces`).
- **Which of them it is, and with what reply, is decided by the place and the ceiling alone**, and a push that is
  turned down changes nothing (`push_decides`).
-/

namespace BlockRing

/-- The free stretch at the tail: up to the head if entries have wrapped around, otherwise up to the end of the
buffer. -/
def Cursors.tailStretch (c : Cursors) (capacity : Nat) : Stretch := ⟨c.tail, if c.Wraps then c.head else capacity⟩

/-- The stretch before the head, which is free unless entries have wrapped around. -/
def Cursors.headStretch (c : Cursors) : Stretch := ⟨Block.firstOffset, c.head⟩

/-- Where a block of `need` bytes goes in a buffer of `capacity` bytes that does not grow for it. -/
def Cursors.place? (c : Cursors) (capacity need : Nat) : Option Nat :=
  if (c.tailStretch capacity).Takes need then some c.tail
  else if ¬ c.Wraps ∧ c.headStretch.Takes need then some Block.firstOffset
  else none

section Place

variable {b : Buffer} {c : Cursors} {shape : Shape} {blocks : List Block} {capacity need offset : Nat}

/-- The place is the start of the first free stretch that takes the block. -/
theorem Cursors.find?_freeStretches (c : Cursors) (capacity need : Nat) :
    ((c.freeStretches capacity).find? fun stretch => stretch.Takes need).map Stretch.start =
      c.place? capacity need := by
  unfold freeStretches place? tailStretch headStretch
  by_cases hw : c.Wraps
  · by_cases ht : Stretch.Takes ⟨c.tail, c.head⟩ need <;> simp [hw, ht]
  · by_cases ht : Stretch.Takes ⟨c.tail, capacity⟩ need
    · simp [hw, ht]
    · by_cases hh : Stretch.Takes ⟨Block.firstOffset, c.head⟩ need <;> simp [hw, ht, hh]

/-- **The room that the cursors find is the place of the block.** -/
theorem Layout.slot?_eq_place? (h : Layout b c shape blocks) (hp : 0 < need) (hn : need + Block.minSize < Word.bound) :
    c.slot? b.size need = .ok (c.place? b.size need) := by
  rw [h.slot?_eq hp hn, Cursors.find?_freeStretches]

/-- Saturated are wrapped entries without a gap. -/
theorem Layout.saturated_iff (h : Layout b c shape blocks) : c.saturated = true ↔ c.Wraps ∧ c.tail = c.head := by
  rw [h.wraps_iff]
  cases h with
  | empty hb hc => simp [hc]
  | linear h => simp [h.not_saturated]
  | wrapped h => simp [h.saturated_iff]

/-- The stretch at the tail of saturated cursors is empty. -/
theorem Layout.tailStretch_of_saturated (h : Layout b c shape blocks) (hs : c.saturated = true) (capacity : Nat) :
    c.tailStretch capacity = ⟨c.tail, c.tail⟩ := by
  obtain ⟨hw, he⟩ := h.saturated_iff.mp hs
  rw [Cursors.tailStretch, if_pos hw, ← he]

end Place

namespace Queue

/-- The queue has no place for a block of `need` bytes just if no free stretch takes it. -/
theorem place?_eq_none_iff {q : Queue} {need : Nat} : q.cursors.place? q.capacity need = none ↔ ¬ q.HasRoom need := by
  rw [← Cursors.find?_freeStretches, Option.map_eq_none_iff, List.find?_eq_none, HasRoom]
  simp

/-! ## The ways in which a push ends -/

/-- A push puts the payload at an offset, without a growth. -/
def Places (q : Queue) (payload : Payload) (offset : Nat) : Prop := ∃ pushed, q.push payload = .ok pushed ∧
  pushed.reply = .ok offset ∧ pushed.queue.capacity = q.capacity ∧ pushed.reports = []

/-- A push of the payload is turned down for some reason. -/
def TurnsDown (q : Queue) (payload : Payload) : Prop := ∃ pushed refusal, q.push payload = .ok pushed ∧
  pushed.reply = .error refusal

/-- A push grows the queue, reports that, and puts the payload at an offset. -/
def GrowsAndPlaces (q : Queue) (payload : Payload) (offset : Nat) : Prop := ∃ pushed growth,
  q.push payload = .ok pushed ∧ pushed.reply = .ok offset ∧ q.capacity < pushed.queue.capacity ∧
    pushed.reports = q.reporting.reports growth

/-- A block of `need` bytes, on top of the whole buffer, comes to the ceiling or beyond. -/
def MeetsCeiling (q : Queue) (need : Nat) : Prop := 0 < q.maxCapacity ∧ q.maxCapacity ≤ q.capacity + need

instance (q : Queue) (need : Nat) : Decidable (q.MeetsCeiling need) :=
  inferInstanceAs (Decidable (0 < q.maxCapacity ∧ q.maxCapacity ≤ q.capacity + need))

variable {q : Queue} {payload : Payload} {offset need : Nat} {shape : Shape} {blocks blocks' : List Block}
  {pushed : Outcome (Except Refusal Nat)}

/-- The ceiling is in the way just if the block meets it. -/
theorem ceilingMet?_eq (hq : Reachable q) (hp : payload.length < Payload.limit) :
    q.ceilingMet? payload.need = if q.MeetsCeiling payload.need then some q.maxCapacity else none := by
  have hadd := Word.addSat_eq (q.capacity_add_need_lt hp)
  by_cases hm : q.MeetsCeiling payload.need
  · have hc : q.ceiling = some q.maxCapacity := hq.ceiling_eq.trans (if_neg (Nat.ne_of_gt hm.1))
    rw [if_pos hm, ceilingMet?, hadd, hc]
    exact Option.filter_eq_some_iff.mpr ⟨rfl, decide_eq_true hm.2⟩
  · rw [if_neg hm, ceilingMet?, hadd, Option.filter_eq_none_iff]
    intro ceiling hc hle
    have hmax : q.maxCapacity = ceiling := by rw [maxCapacity, hc]; rfl
    have hfirst : 0 < q.capacity := hq.layout.elim fun _ h => h.elim fun _ h => h.first_le_size
    have hcap := hq.capacity_le_ceiling hc
    exact hm ⟨by omega, by rw [hmax]; exact of_decide_eq_true hle⟩

/-! ## The decision -/

/-- A block that has a place is put there. -/
theorem places_of_place? (hq : Reachable q) (hp : payload.length < Payload.limit)
    (h : q.cursors.place? q.capacity payload.need = some offset) : q.Places payload offset := by
  obtain ⟨shape, blocks, hlay⟩ := hq.layout
  have hslot : q.cursors.slot? q.capacity payload.need = .ok (some offset) :=
    (hlay.slot?_eq_place? payload.need_pos (Payload.need_add_lt hp)).trans (congrArg Except.ok h)
  have hall : q.Allocates payload.need := fun hno => by cases hslot.symm.trans hno
  obtain ⟨pushed, _, _, hpush, hpushed, _⟩ := push_of_layout hlay hp hall
  cases hpushed with
  | placed hslot' w =>
    cases hslot.symm.trans hslot'
    exact ⟨_, hpush, rfl, q.capacity_placed _ payload, rfl⟩
  | refused hslot' hm => cases hslot.symm.trans hslot'
  | grown hslot' hm hg w => cases hslot.symm.trans hslot'

/-- A block that has no place and meets the ceiling is refused, and that is all. -/
theorem push_of_meetsCeiling (hq : Reachable q) (hp : payload.length < Payload.limit) (h : ¬ q.HasRoom payload.need)
    (hm : q.MeetsCeiling payload.need) :
    q.push payload = .ok { reply := .error (.noRoom payload.need q.capacity q.maxCapacity), queue := q } := by
  obtain ⟨shape, blocks, hlay⟩ := hq.layout
  have hneed : Block.sizeFor payload.length = .ok payload.need := Block.sizeFor_eq_ok hp
  have hslot : q.cursors.slot? q.capacity payload.need = .ok none :=
    (hlay.slot?_eq_none_iff payload.need_pos (Payload.need_add_lt hp)).mpr h
  have hceil := ceilingMet?_eq hq hp
  rw [if_pos hm] at hceil
  simp only [push, hneed, hslot, hceil, bind, Except.bind, pure, Except.pure]

/-- Without a place and with the ceiling out of the way the queue grows, and the block goes behind the old margin. -/
theorem growsAndPlaces_of_not_meetsCeiling (hq : Reachable q) (hp : payload.length < Payload.limit)
    (ha : q.Allocates payload.need) (h : ¬ q.HasRoom payload.need) (hm : ¬ q.MeetsCeiling payload.need) :
    q.GrowsAndPlaces payload q.cursors.margin := by
  obtain ⟨shape, blocks, hlay⟩ := hq.layout
  have hslot : q.cursors.slot? q.capacity payload.need = .ok none :=
    (hlay.slot?_eq_none_iff payload.need_pos (Payload.need_add_lt hp)).mpr h
  have hceil := ceilingMet?_eq hq hp
  rw [if_neg hm] at hceil
  obtain ⟨pushed, _, _, hpush, hpushed, _⟩ := push_of_layout hlay hp ha
  cases hpushed with
  | placed hslot' w => cases hslot.symm.trans hslot'
  | refused hslot' hm' => cases hceil.symm.trans hm'
  | @grown g _ hslot' hm' hg w =>
    refine ⟨_, q.growthFor payload.need shape, hpush, rfl, ?_, rfl⟩
    show q.capacity < (g.placed q.cursors.margin payload).capacity
    rw [capacity_placed]
    exact hg.capacity_lt hm' w

/-- The three ways in which a push ends, each with what decides for it. -/
theorem push_cases (hq : Reachable q) (hp : payload.length < Payload.limit) (ha : q.Allocates payload.need) :
    (∃ offset, q.cursors.place? q.capacity payload.need = some offset ∧ q.Places payload offset) ∨
      (q.cursors.place? q.capacity payload.need = none ∧ q.MeetsCeiling payload.need ∧ q.push payload =
        .ok { reply := .error (.noRoom payload.need q.capacity q.maxCapacity), queue := q }) ∨
      q.cursors.place? q.capacity payload.need = none ∧ ¬ q.MeetsCeiling payload.need ∧
        q.GrowsAndPlaces payload q.cursors.margin := by
  cases hplace : q.cursors.place? q.capacity payload.need with
  | some offset => exact .inl ⟨offset, rfl, places_of_place? hq hp hplace⟩
  | none =>
    have hno := place?_eq_none_iff.mp hplace
    by_cases hm : q.MeetsCeiling payload.need
    · exact .inr (.inl ⟨rfl, hm, push_of_meetsCeiling hq hp hno hm⟩)
    · exact .inr (.inr ⟨rfl, hm, growsAndPlaces_of_not_meetsCeiling hq hp ha hno hm⟩)

/-- A push that replies with a refusal had no place for its block, which met the ceiling. -/
theorem of_turnsDown (hq : Reachable q) (hp : payload.length < Payload.limit) (ha : q.Allocates payload.need)
    {refusal : Refusal} (hpush : q.push payload = .ok pushed) (hr : pushed.reply = .error refusal) :
    q.cursors.place? q.capacity payload.need = none ∧ q.MeetsCeiling payload.need ∧
      pushed = { reply := .error (.noRoom payload.need q.capacity q.maxCapacity), queue := q } := by
  rcases push_cases hq hp ha with ⟨_, _, _, hpush', hr', _⟩ | ⟨hno, hm, hpush'⟩ | ⟨_, _, _, _, hpush', hr', _⟩
  · cases hpush.symm.trans hpush'
    cases hr.symm.trans hr'
  · exact ⟨hno, hm, Except.ok.inj (hpush.symm.trans hpush')⟩
  · cases hpush.symm.trans hpush'
    cases hr.symm.trans hr'

/-- An entry is placed without a growth at no other place than that of its block. -/
theorem place?_of_places (hq : Reachable q) (hp : payload.length < Payload.limit) (ha : q.Allocates payload.need)
    (h : q.Places payload offset) : q.cursors.place? q.capacity payload.need = some offset := by
  obtain ⟨pushed, hpush, hr, hk, _⟩ := h
  rcases push_cases hq hp ha with ⟨_, hplace, _, hpush', hr', _⟩ | ⟨_, _, hpush'⟩ | ⟨_, _, _, _, hpush', _, hlt, _⟩
  · cases hpush.symm.trans hpush'
    cases hr.symm.trans hr'
    exact hplace
  · cases hpush.symm.trans hpush'
    cases hr
  · cases hpush.symm.trans hpush'
    omega

/-- **A push decides by the place of its block and by the ceiling.** The entry goes to the place that its block has
without a growth, if there is one. Otherwise the push is turned down just if the block meets the ceiling; the reason
then names the block, the capacity and the maximum, and neither the queue nor its reports have changed. In all other
cases the queue grows and the entry goes to where the margin was. A full queue has an empty stretch at its tail. -/
theorem push_decides (hq : Reachable q) (hp : payload.length < Payload.limit) (ha : q.Allocates payload.need) :
    (∀ offset, q.Places payload offset ↔ q.cursors.place? q.capacity payload.need = some offset) ∧
      (q.TurnsDown payload ↔ q.cursors.place? q.capacity payload.need = none ∧ q.MeetsCeiling payload.need) ∧
      (∀ pushed refusal, q.push payload = .ok pushed → pushed.reply = .error refusal →
        pushed = { reply := .error (.noRoom payload.need q.capacity q.maxCapacity), queue := q, reports := [] }) ∧
      (q.cursors.place? q.capacity payload.need = none → ¬ q.MeetsCeiling payload.need →
        q.GrowsAndPlaces payload q.cursors.margin) ∧
      (q.isFull = true → q.cursors.tailStretch q.capacity = ⟨q.cursors.tail, q.cursors.tail⟩) := by
  obtain ⟨shape, blocks, hlay⟩ := hq.layout
  refine ⟨fun offset => ⟨place?_of_places hq hp ha, places_of_place? hq hp⟩, ⟨?_, ?_⟩, ?_, ?_, ?_⟩
  · rintro ⟨pushed, refusal, hpush, hr⟩
    obtain ⟨hno, hm, _⟩ := of_turnsDown hq hp ha hpush hr
    exact ⟨hno, hm⟩
  · rintro ⟨hno, hm⟩
    exact ⟨_, _, push_of_meetsCeiling hq hp (place?_eq_none_iff.mp hno) hm, rfl⟩
  · intro pushed refusal hpush hr
    exact (of_turnsDown hq hp ha hpush hr).2.2
  · intro hno hm
    exact growsAndPlaces_of_not_meetsCeiling hq hp ha (place?_eq_none_iff.mp hno) hm
  · intro hf
    exact hlay.tailStretch_of_saturated hf q.capacity

/-- A queue at its ceiling with free bytes on both sides of its only entry: a block of two bytes goes to the start of
the buffer, a block of four bytes is turned down. -/
theorem push_decides_at_ceiling : ∃ q : Queue, Reachable q ∧
    q.cursors = { head := 4, tail := 7, margin := 7, count := 1 } ∧ q.Places [5] 1 ∧ q.TurnsDown [5, 6, 7] := by
  let q : Queue := {
    buffer := ⟨#[0, 3, 1, 2, 3, 3, 4, 0], by decide⟩
    ceiling := some 8
    cursors := { head := 4, tail := 7, margin := 7, count := 1 } }
  have hq : Reachable q := reachable_iff.mpr ⟨8, 8, false,
    { buffer := ⟨Array.replicate 8 0, by decide⟩, ceiling := some 8 },
    [.push [1, 2], .push [3, 4], .pop], by cbv, by cbv⟩
  have hplaces := (@push_decides q [5] hq (by decide) (by decide)).1 1
  have hturns := (@push_decides q [5, 6, 7] hq (by decide) (by decide)).2.1
  exact ⟨q, hq, rfl, hplaces.mpr (by decide), hturns.mpr (by decide)⟩

end Queue
end BlockRing
