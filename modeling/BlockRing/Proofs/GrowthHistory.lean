import BlockRing.Proofs.Contents
import Mathlib.Data.List.Chain

/-!
# The growths of a run

What a run reports is the history of its growths.

- `Growth.Describes` says that a growth is true of the queues before and after it: the capacities are theirs, and the
  entries count as wrapped just if the old ones have changed their order (`describes_of_grown`).
- `LogRecord.Shows` says what a log record shows of a growth: both capacities, and whether the entries were wrapped if
  the queue is verbose.
- A request reports nothing, or it is a push that has grown the queue once (`Answered.reports_cases`).
- `Recounts` goes through a run and its growths side by side, with the observer that is set at each moment.
- **The growths of a run recount it**, each begins with the capacity that the last one came to, and the capacity is at
  any time that of the last growth so far (`exists_recount`).
-/

namespace BlockRing

/-- The observer once a request has been answered. -/
def Request.observerAfter (observer : Option Nat) : Request → Option Nat
  | .observe tag => some tag
  | .unobserve => none
  | _ => observer

/-- The entries of a list that lie at the offsets of an old one. -/
def Entry.restrict (entries old : List Entry) : List Entry :=
  entries.filter fun entry => entry.offset ∈ old.map Entry.offset

/-- **A growth is true of the queues before and after it**: it has their capacities, and it calls the entries wrapped
just if the old ones come in another order now; otherwise they still come first, in the same order. -/
structure Growth.Describes (growth : Growth) (q r : Queue) : Prop where
  previousCapacity_eq : growth.previousCapacity = q.capacity
  capacity_eq : growth.capacity = r.capacity
  capacity_lt : q.capacity < r.capacity
  order : ∃ before after, q.Holds before ∧ r.Holds after ∧
    (growth.wrapped = true ↔ Entry.restrict after before ≠ before) ∧ (growth.wrapped = false → before <+: after)

/-- **What a log record shows of a growth** from `before` to `after` bytes: each of the two capacities, once and as it
is. The record of a verbose queue is important, and shows also the time that the growth took and whether the entries
were wrapped; any other is a trace, and shows nothing else. -/
structure LogRecord.Shows (record : LogRecord) (verbose : Bool) (before after : Nat) (wrapped : Bool) : Prop where
  message_eq : record.message = "Allocated new queue"
  level_eq : record.level = if verbose then .info else .trace
  previousCapacity_mem_iff : ∀ bytes, .previousCapacity bytes ∈ record.fields ↔ bytes = before
  capacity_mem_iff : ∀ bytes, .capacity bytes ∈ record.fields ↔ bytes = after
  wrapped_mem_iff : ∀ yes, .wrapped yes ∈ record.fields ↔ verbose = true ∧ yes = wrapped
  elapsed_mem_iff : .elapsed ∈ record.fields ↔ verbose = true
  nodup : record.fields.Nodup

theorem Growth.shows_record (growth : Growth) (verbose : Bool) :
    (growth.record verbose).Shows verbose growth.previousCapacity growth.capacity growth.wrapped := by
  refine ⟨rfl, rfl, fun bytes => ?_, fun bytes => ?_, fun yes => ?_, ?_, ?_⟩ <;> cases verbose <;> simp [record]

/-- The record of a growth shows the capacities of the queues before and after it. -/
theorem Growth.Describes.shows {growth : Growth} {q r : Queue} (h : growth.Describes q r) (verbose : Bool) :
    (growth.record verbose).Shows verbose q.capacity r.capacity growth.wrapped := by
  rw [← h.previousCapacity_eq, ← h.capacity_eq]
  exact growth.shows_record verbose

/-! ## Old entries among new ones -/

section Restrict

variable {old front others : List Entry} {b : Buffer} {c : Cursors} {shape : Shape} {blocks older newer : List Block}

theorem Entry.restrict_append (front back old : List Entry) :
    restrict (front ++ back) old = restrict front old ++ restrict back old := List.filter_append _ _

theorem Entry.restrict_of_subset (h : front ⊆ old) : restrict front old = front :=
  List.filter_eq_self.mpr fun _ hm => decide_eq_true (List.mem_map_of_mem (h hm))

theorem Entry.restrict_of_offset_ne (h : ∀ x ∈ others, ∀ y ∈ old, y.offset ≠ x.offset) : restrict others old = [] := by
  refine List.filter_eq_nil_iff.mpr fun x hx => ?_
  rw [decide_eq_true_eq, List.mem_map]
  rintro ⟨y, hy, he⟩
  exact h x hx y hy he

theorem Layout.offset_lt_margin (h : Layout b c shape blocks) :
    ∀ entry ∈ blocks.map (Block.entry b), entry.offset < c.margin := by
  intro entry hm
  obtain ⟨block, hb, rfl⟩ := List.mem_map.mp hm
  obtain ⟨hat, _, hs⟩ := h.mem block hb
  exact Nat.lt_of_lt_of_le (Block.offset_lt_stop hat) hs

theorem Wrapped.newer_ne_nil (h : Wrapped b c older newer) : newer ≠ [] := h.newer_tiles.ne_nil h.first_lt_tail

/-- No entry lies where the gap begins, if there is a gap. -/
theorem Wrapped.offset_ne_filler (h : Wrapped b c older newer) :
    ∀ x ∈ c.fillerEntry, ∀ y ∈ (older ++ newer).map (Block.entry b), y.offset ≠ x.offset := by
  intro x hx y hy
  unfold Cursors.fillerEntry at hx
  split at hx
  · cases hx
  · rename_i hne
    have hle := h.tail_le_head
    obtain rfl := List.mem_singleton.mp hx
    rw [List.map_append] at hy
    show y.offset ≠ c.tail
    rcases List.mem_append.mp hy with hy | hy
    · have := h.head_le_offset y hy
      omega
    · obtain ⟨block, hb, rfl⟩ := List.mem_map.mp hy
      exact Nat.ne_of_lt (h.newer_tiles.offset_lt block hb)

/-- The order changes when the newer entries come before the older ones. -/
theorem Wrapped.newer_append_ne (h : Wrapped b c older newer) :
    newer.map (Block.entry b) ++ older.map (Block.entry b) ≠ (older ++ newer).map (Block.entry b) := by
  intro he
  obtain ⟨x, older', ho⟩ := List.exists_cons_of_ne_nil h.older_ne_nil
  obtain ⟨y, newer', hn⟩ := List.exists_cons_of_ne_nil h.newer_ne_nil
  -- The first entry would lie before the head and not before it.
  have hx := h.head_le_offset (Block.entry b x) (by rw [ho]; exact List.mem_cons_self)
  have hy := h.offset_lt_head (Block.entry b y) (by rw [hn]; exact List.mem_cons_self)
  rw [ho, hn] at he
  have hxy : Block.entry b y = Block.entry b x := (List.cons.inj he).1
  rw [hxy] at hy
  omega

end Restrict

namespace Queue

variable {q r g : Queue} {shape shape' : Shape} {blocks blocks' : List Block} {request : Request}
  {requests : List Request} {outcome : Outcome Reply} {payload : Payload} {growths : List Growth} {verbose : Bool}
  {observer : Option Nat}

/-! ## One request -/

/-- **The growth that a push reports is true of it.** -/
theorem describes_of_grown (h : Layout q.buffer q.cursors shape blocks) (hm : q.ceilingMet? payload.need = none)
    (hg : Grown q payload.need shape blocks g blocks')
    (w : Writes g.buffer (g.placed q.cursors.margin payload).buffer (Block.written q.cursors.margin payload.need)
      payload)
    (h' : Layout (g.placed q.cursors.margin payload).buffer (g.placed q.cursors.margin payload).cursors shape'
      (blocks' ++ [Block.written q.cursors.margin payload.need])) :
    (q.growthFor payload.need shape).Describes q (g.placed q.cursors.margin payload) := by
  have hk : (g.placed q.cursors.margin payload).capacity = g.capacity := g.capacity_placed _ payload
  refine ⟨rfl, (hk.trans hg.capacity_eq).symm, by rw [hk]; exact hg.capacity_lt hm w, _, _, holds_of_layout h,
    holds_of_layout h', ?_⟩
  obtain ⟨_, _, hlay⟩ := hg.layout
  have hlast : ∀ x ∈ [(⟨q.cursors.margin, payload⟩ : Entry)], ∀ y ∈ blocks.map (Block.entry q.buffer),
      y.offset ≠ x.offset := by
    intro x hx y hy
    obtain rfl := List.mem_singleton.mp hx
    exact Nat.ne_of_lt (h.offset_lt_margin y hy)
  have hentry := hg.entry_eq
  have order := hg.order
  rw [map_entry_of_writes hlay w h', Entry.restrict_append, Entry.restrict_of_offset_ne hlast, List.append_nil]
  cases order with
  | kept hns =>
    have hflag : (q.growthFor payload.need shape).wrapped = false := decide_eq_false hns
    rw [List.map_congr_left hentry, Entry.restrict_of_subset fun _ hx => hx, hflag]
    exact ⟨⟨fun hno => absurd hno Bool.false_ne_true, fun hne => absurd rfl hne⟩, fun _ => List.prefix_append _ _⟩
  | @inLine older newer hw hf =>
    have hold : older.map (Block.entry q.buffer) ⊆ (older ++ newer).map (Block.entry q.buffer) :=
      List.map_subset _ (List.subset_append_left _ _)
    have hnew : newer.map (Block.entry q.buffer) ⊆ (older ++ newer).map (Block.entry q.buffer) :=
      List.map_subset _ (List.subset_append_right _ _)
    rw [hg.map_entry hf, Entry.restrict_append, Entry.restrict_append, Entry.restrict_of_subset hold,
      Entry.restrict_of_subset hnew, Entry.restrict_of_offset_ne hw.offset_ne_filler, List.append_nil]
    exact ⟨⟨fun _ => hw.newer_append_ne, fun _ => rfl⟩, fun hno => absurd hno.symm Bool.false_ne_true⟩

/-- A request sets and clears the observer, and changes nothing else of the reporting. -/
theorem Answered.reporting_eq (ha : Answered q shape blocks request outcome blocks') :
    outcome.queue.reporting = { q.reporting with observer := request.observerAfter q.reporting.observer } := by
  cases ha with
  | push hp => exact hp.keeps_settings.2
  | read hr =>
    cases request with
    | observe tag => cases hr
    | unobserve => cases hr
    | _ => rfl
  | _ => rfl

/-- **A request reports nothing and leaves the capacity, or it is a push that has grown the queue once.** -/
theorem Answered.reports_cases (ha : Answered q shape blocks request outcome blocks')
    (h : Layout q.buffer q.cursors shape blocks)
    (h' : Layout outcome.queue.buffer outcome.queue.cursors shape' blocks') :
    (outcome.reports = [] ∧ outcome.queue.capacity = q.capacity) ∨
      ∃ payload growth, request = .push payload ∧ outcome.reports = q.reporting.reports growth ∧
        growth.Describes q outcome.queue := by
  cases ha with
  | @push payload pushed _ hp =>
    cases hp with
    | placed hslot w => exact .inl ⟨rfl, q.capacity_placed _ payload⟩
    | refused hslot hm => exact .inl ⟨rfl, rfl⟩
    | grown hslot hm hg w => exact .inr ⟨payload, _, rfl, rfl, describes_of_grown h hm hg w h'⟩
  | _ => exact .inl ⟨rfl, rfl⟩

/-! ## Runs -/

/-- **A run beside its growths**, with the observer that is set at first. Each request reports nothing and leaves the
capacity, or it is a push that grows the queue: then it reports this one growth, to the log and after that to the
observer of the moment, and both show the capacities before and after the push. -/
inductive Recounts (verbose : Bool) : Option Nat → Queue → List Request → List Growth → Queue → Prop
  | done {observer : Option Nat} {q : Queue} : Recounts verbose observer q [] [] q
  | quiet {observer : Option Nat} {q r : Queue} {request : Request} {requests : List Request} {growths : List Growth}
      {outcome : Outcome Reply} (ho : q.ask request = .ok outcome) (hr : outcome.reports = [])
      (hk : outcome.queue.capacity = q.capacity)
      (h : Recounts verbose (request.observerAfter observer) outcome.queue requests growths r) :
      Recounts verbose observer q (request :: requests) growths r
  | grown {observer : Option Nat} {q r : Queue} {payload : Payload} {requests : List Request} {growth : Growth}
      {growths : List Growth} {outcome : Outcome Reply} (ho : q.ask (.push payload) = .ok outcome)
      (hr : outcome.reports = .log (growth.record verbose) :: (observer.map (.notice · growth)).toList)
      (hs : (growth.record verbose).Shows verbose q.capacity outcome.queue.capacity growth.wrapped)
      (hd : growth.Describes q outcome.queue) (h : Recounts verbose observer outcome.queue requests growths r) :
      Recounts verbose observer q (.push payload :: requests) (growth :: growths) r

namespace Recounts

/-- The first growth begins with the capacity of the queue. -/
theorem previousCapacity_eq (h : Recounts verbose observer q requests growths r) :
    ∀ growth ∈ growths.head?, growth.previousCapacity = q.capacity := by
  induction h with
  | done => simp
  | quiet ho hr hk h ih => exact fun growth hm => (ih growth hm).trans hk
  | grown ho hr hs hd h ih =>
    intro growth hm
    cases Option.mem_some.mp hm
    exact hd.previousCapacity_eq

/-- Each growth begins with the capacity that the one before came to. -/
theorem isChain (h : Recounts verbose observer q requests growths r) :
    growths.IsChain fun growth next => next.previousCapacity = growth.capacity := by
  induction h with
  | done => exact .nil
  | quiet ho hr hk h ih => exact ih
  | grown ho hr hs hd h ih =>
    refine List.isChain_cons.mpr ⟨fun next hm => ?_, ih⟩
    rw [hd.capacity_eq]
    exact h.previousCapacity_eq next hm

/-- The capacity is that of the last growth. -/
theorem capacity_eq (h : Recounts verbose observer q requests growths r) :
    r.capacity = (growths.getLast?.map Growth.capacity).getD q.capacity := by
  induction h with
  | done => rfl
  | quiet ho hr hk h ih => rw [ih, hk]
  | @grown _ _ _ _ _ growth growths _ ho hr hs hd h ih =>
    rw [ih, ← hd.capacity_eq, List.getLast?_cons]
    cases growths.getLast? <;> rfl

/-- The capacity never falls. -/
theorem capacity_le (h : Recounts verbose observer q requests growths r) : q.capacity ≤ r.capacity := by
  induction h with
  | done => exact Nat.le_refl _
  | quiet ho hr hk h ih => omega
  | grown ho hr hs hd h ih =>
    have := hd.capacity_lt
    omega

theorem after_eq (h : Recounts verbose observer q requests growths r) : q.after requests = .ok r := by
  induction h with
  | done => rfl
  | quiet ho hr hk h ih => exact bind_eq_ok_iff.mpr ⟨_, ho, ih⟩
  | grown ho hr hs hd h ih => exact bind_eq_ok_iff.mpr ⟨_, ho, ih⟩

/-- A run that leaves the capacity as it is has no growth. -/
theorem eq_nil_of_capacity_eq (h : Recounts verbose observer q requests growths r) (hk : r.capacity = q.capacity) :
    growths = [] := by
  induction h with
  | done => rfl
  | quiet ho hr hq h ih => exact ih (hk.trans hq.symm)
  | grown ho hr hs hd h ih =>
    have := hd.capacity_lt
    have := h.capacity_le
    omega

/-- A push of which the observer is told is recounted by the growth that it is told. -/
theorem eq_singleton_of_notice {record : LogRecord} {tag : Nat} {growth : Growth}
    (h : Recounts verbose observer q [.push payload] growths r) (ho : q.ask (.push payload) = .ok outcome)
    (hn : outcome.reports = [.log record, .notice tag growth]) : growths = [growth] := by
  cases h with
  | quiet ho' hr hk h =>
    cases ho.symm.trans ho'
    cases hn.symm.trans hr
  | grown ho' hr hs hd h =>
    cases ho.symm.trans ho'
    cases h
    obtain ⟨_, hnotice⟩ := List.cons.inj (hn.symm.trans hr)
    cases observer with
    | none => cases hnotice
    | some tag =>
      cases hnotice
      rfl

/-- A run up to some request has the first ones of the growths. -/
theorem split {back : List Request} : ∀ {front : List Request} {observer : Option Nat} {q : Queue}
    {growths : List Growth}, Recounts verbose observer q (front ++ back) growths r →
    ∃ observer' s seen later, growths = seen ++ later ∧ Recounts verbose observer q front seen s ∧
      Recounts verbose observer' s back later r
  | [], observer, q, growths, h => ⟨observer, q, [], growths, rfl, .done, h⟩
  | request :: front, _, _, _, h => by
    cases h with
    | quiet ho hr hk h =>
      obtain ⟨observer', s, seen, later, rfl, hfront, hback⟩ := split h
      exact ⟨observer', s, seen, later, rfl, .quiet ho hr hk hfront, hback⟩
    | grown ho hr hs hd h =>
      obtain ⟨observer', s, seen, later, rfl, hfront, hback⟩ := split h
      exact ⟨observer', s, _ :: seen, later, rfl, .grown ho hr hs hd hfront, hback⟩

end Recounts

theorem recounts_of_after : ∀ {requests : List Request} {q : Queue}, Reachable q → q.after requests = .ok r →
    ∃ growths, Recounts q.reporting.verbose q.reporting.observer q requests growths r
  | [], _, _, hr => by
    cases hr
    exact ⟨[], .done⟩
  | request :: requests, q, hq, hr => by
    obtain ⟨outcome, ho, hr⟩ := bind_eq_ok_iff.mp hr
    obtain ⟨_, _, h⟩ := hq.layout
    obtain ⟨_, _, ha, h'⟩ := answered_of_ask h ho
    obtain ⟨growths, hrec⟩ := recounts_of_after (hq.ask ho) hr
    rw [ha.reporting_eq] at hrec
    rcases ha.reports_cases h h' with ⟨hnone, hk⟩ | ⟨payload, growth, rfl, hrep, hd⟩
    · exact ⟨growths, .quiet ho hnone hk hrec⟩
    · exact ⟨growth :: growths, .grown ho hrep (hd.shows _) hd hrec⟩

/-- **The growths of a run recount it.** The first one begins with the capacity at the start, and each other one with
the capacity that the one before came to; up to any request the capacity is that of the last growth so far, or still the
one at the start, and it never falls. -/
theorem exists_recount (hq : Reachable q) (hr : q.after requests = .ok r) : ∃ growths : List Growth,
    Recounts q.reporting.verbose q.reporting.observer q requests growths r ∧
      (∀ growth ∈ growths.head?, growth.previousCapacity = q.capacity) ∧
      (growths.IsChain fun growth next => next.previousCapacity = growth.capacity) ∧
      ∀ front, front <+: requests → ∃ s seen, q.after front = .ok s ∧ seen <+: growths ∧
        Recounts q.reporting.verbose q.reporting.observer q front seen s ∧
        s.capacity = (seen.getLast?.map Growth.capacity).getD q.capacity ∧
        q.capacity ≤ s.capacity ∧ s.capacity ≤ r.capacity := by
  obtain ⟨growths, h⟩ := recounts_of_after hq hr
  refine ⟨growths, h, h.previousCapacity_eq, h.isChain, fun front hf => ?_⟩
  obtain ⟨back, rfl⟩ := hf
  obtain ⟨_, s, seen, later, rfl, hs, hl⟩ := h.split
  exact ⟨s, seen, hs.after_eq, List.prefix_append _ _, hs, hs.capacity_eq, hs.capacity_le, hl.capacity_le⟩

/-- A verbose queue with an observer, in which an entry has wrapped around before the queue grows: the growth puts the
entries in line, and the log and the observer are told so. -/
theorem exists_recount_wrapped : ∃ (q s : Queue) (outcome : Outcome Reply), Queue.create 8 0 true = .ok (.ok q) ∧
    q.after [.observe 1, .push [1, 2], .push [3, 4], .pop, .push [5]] = .ok s ∧
    s.cursors.Wraps ∧ s.Holds [⟨4, [3, 4]⟩, ⟨1, [5]⟩] ∧
    s.ask (.push [6, 7, 8]) = .ok outcome ∧
    outcome.reports = [
      .log {
        level := .info
        message := "Allocated new queue"
        fields := [.elapsed, .previousCapacity 8, .capacity 16, .wrapped true] },
      .notice 1 ⟨8, 16, true⟩] ∧
    outcome.queue.Holds [⟨1, [5]⟩, ⟨3, []⟩, ⟨4, [3, 4]⟩, ⟨7, [6, 7, 8]⟩] ∧
    Recounts true none q [.observe 1, .push [1, 2], .push [3, 4], .pop, .push [5], .push [6, 7, 8]] [⟨8, 16, true⟩]
      outcome.queue := by
  let q : Queue := { buffer := ⟨Array.replicate 8 0, by decide⟩, reporting := { verbose := true } }
  let s : Queue := { wrappedAround with reporting := { verbose := true, observer := some 1 } }
  let r : Queue := { grownInLine with reporting := s.reporting }
  have hc : Queue.create 8 0 true = .ok (.ok q) := by cbv
  have hs : q.after [.observe 1, .push [1, 2], .push [3, 4], .pop, .push [5]] = .ok s := by cbv
  have ho : s.ask (.push [6, 7, 8]) = .ok ⟨.ok (.number 7), r, s.reporting.reports ⟨8, 16, true⟩⟩ := by cbv
  have hr : q.after ([.observe 1, .push [1, 2], .push [3, 4], .pop, .push [5]] ++ [.push [6, 7, 8]]) = .ok r :=
    after_append hs (bind_eq_ok_iff.mpr ⟨_, ho, rfl⟩)
  obtain ⟨growths, h, _⟩ := exists_recount (.create hc) hr
  -- The capacity is the first one until the last push, which reports the growth.
  obtain ⟨_, _, seen, later, rfl, hfront, hback⟩ := h.split
  cases hfront.after_eq.symm.trans hs
  obtain rfl : seen = [] := hfront.eq_nil_of_capacity_eq rfl
  obtain rfl : later = [⟨8, 16, true⟩] := hback.eq_singleton_of_notice ho rfl
  exact ⟨q, s, _, hc, hs, by decide, ⟨rfl, by cbv⟩, ho, rfl, ⟨rfl, by cbv⟩, h⟩

end Queue
end BlockRing
