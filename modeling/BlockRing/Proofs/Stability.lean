import BlockRing.Proofs.Reach

/-!
# Entries stay where they are

An entry is read by its offset for as long as it is in the queue. `Keeps` says that a payload is held in a block in use;
a push starts it (`keeps_of_push`), and every request that `Spares` the entry keeps it, growths included
(`keeps_of_ask`, `keeps_of_after`). So reading at the offset that a push has replied gives the payload that was pushed,
and no other push replies an offset inside its block (`get_of_after`).
-/

namespace BlockRing
namespace Queue

/-- A block in use holds a payload. -/
def Keeps (q : Queue) (block : Block) (payload : Payload) : Prop :=
  ∃ shape blocks, Layout q.buffer q.cursors shape blocks ∧ block ∈ blocks ∧ block.contents q.buffer = payload

/-- A request does not remove the entry at an offset: it is no pop with the head there, and does not remove all. -/
def Spares (offset : Nat) (q : Queue) : Request → Prop
  | .pop => q.cursors.head ≠ offset
  | .drain | .reset => False
  | _ => True

instance (offset : Nat) (q : Queue) : (request : Request) → Decidable (Spares offset q request)
  | .pop => inferInstanceAs (Decidable (q.cursors.head ≠ offset))
  | .drain | .reset => inferInstanceAs (Decidable False)
  | .push _ | .peek | .get _ | .checkOffset _ | .scan _ _ | .tourPayloads _ | .tourEntries _ | .payloads | .observe _
  | .unobserve | .maxCapacity | .describe => inferInstanceAs (Decidable True)

variable {q r : Queue} {shape shape' : Shape} {blocks blocks' : List Block} {block : Block} {request : Request}
  {outcome : Outcome Reply} {payload : Payload} {pushed : Outcome (Except Refusal Nat)} {offset : Nat}

/-! ## Pushing -/

/-- A growth drops no block. -/
theorem Reordered.mem (hr : Reordered q r shape blocks blocks') (hm : block ∈ blocks) : block ∈ blocks' := by
  cases hr with
  | kept hns => exact hm
  | inLine hw hf =>
    rw [List.mem_append, List.mem_append]
    rcases List.mem_append.mp hm with hm | hm
    · exact .inr hm
    · exact .inl (.inl hm)

/-- The blocks in use stay so, with their entries. -/
theorem Pushed.keeps (hp : Pushed q payload shape blocks pushed blocks')
    (h : Layout q.buffer q.cursors shape blocks) (h' : Layout pushed.queue.buffer pushed.queue.cursors shape' blocks')
    (hm : block ∈ blocks) : block ∈ blocks' ∧ Block.entry pushed.queue.buffer block = Block.entry q.buffer block := by
  cases hp with
  | placed hslot w => exact ⟨List.mem_append_left _ hm, h.entry_of_writes w h' block hm⟩
  | refused hslot hc => exact ⟨hm, rfl⟩
  | grown hslot hc hg w =>
    obtain ⟨_, _, hlay⟩ := hg.layout
    have hm' := hg.order.mem hm
    exact ⟨List.mem_append_left _ hm', (hlay.entry_of_writes w h' block hm').trans (hg.entry_eq block hm)⟩

/-- The block that was written is in use, holds the payload, and is apart from the others. -/
theorem Pushed.written (hp : Pushed q payload shape blocks pushed blocks')
    (h' : Layout pushed.queue.buffer pushed.queue.cursors shape' blocks') (ho : pushed.reply = .ok offset) :
    Block.written offset payload.need ∈ blocks' ∧
      (Block.written offset payload.need).contents pushed.queue.buffer = payload ∧
      ∀ x ∈ blocks, x.Apart (Block.written offset payload.need) := by
  have hapart := h'.apart
  cases hp with
  | placed hslot w =>
    cases ho
    have ha := (List.pairwise_append.mp hapart).2.2
    exact ⟨List.mem_append_right _ List.mem_cons_self, w.contents_eq, fun x hx => ha x hx _ List.mem_cons_self⟩
  | refused hslot hc => cases ho
  | grown hslot hc hg w =>
    cases ho
    have ha := (List.pairwise_append.mp hapart).2.2
    exact ⟨List.mem_append_right _ List.mem_cons_self, w.contents_eq,
      fun x hx => ha x (hg.order.mem hx) _ List.mem_cons_self⟩

/-- A push that replies an offset keeps its payload there. -/
theorem keeps_of_push (h : Layout q.buffer q.cursors shape blocks) (hp : q.push payload = .ok pushed)
    (ho : pushed.reply = .ok offset) : pushed.queue.Keeps (Block.written offset payload.need) payload := by
  obtain ⟨shape', blocks', hpushed, h'⟩ := pushed_of_push h hp
  obtain ⟨hm, hc, _⟩ := hpushed.written h' ho
  exact ⟨shape', blocks', h', hm, hc⟩

/-- A push stays apart from every block in use. -/
theorem Keeps.apart_of_push (hk : q.Keeps block payload) {payload' : Payload} (hp : q.push payload' = .ok pushed)
    (ho : pushed.reply = .ok offset) : block.Apart (Block.written offset payload'.need) := by
  obtain ⟨shape, blocks, h, hm, _⟩ := hk
  obtain ⟨shape', blocks', hpushed, h'⟩ := pushed_of_push h hp
  exact (hpushed.written h' ho).2.2 block hm

/-! ## Runs -/

/-- **A request that spares an entry keeps it.** -/
theorem keeps_of_ask (hk : q.Keeps block payload) (hs : Spares block.offset q request)
    (ho : q.ask request = .ok outcome) : outcome.queue.Keeps block payload := by
  obtain ⟨shape, blocks, h, hm, hc⟩ := hk
  obtain ⟨shape', blocks', hans, h'⟩ := answered_of_ask h ho
  cases hans with
  | push hp =>
    obtain ⟨hm', he⟩ := hp.keeps h h' hm
    exact ⟨shape', blocks', h', hm', (congrArg Entry.payload he).trans hc⟩
  | popNone hb =>
    subst hb
    cases hm
  | pop hb =>
    subst hb
    rcases List.mem_cons.mp hm with rfl | hm
    · exact absurd (offset_eq_head h).symm hs
    · exact ⟨shape', blocks', h', hm, hc⟩
  | drain => cases hs
  | reset => cases hs
  | observe => exact ⟨shape', _, h', hm, hc⟩
  | unobserve => exact ⟨shape', _, h', hm, hc⟩
  | read hr => exact ⟨shape', _, h', hm, hc⟩

theorem keeps_of_after : ∀ {requests : List Request} {q : Queue}, q.Keeps block payload →
    q.Along (Spares block.offset) requests → q.after requests = .ok r → r.Keeps block payload
  | [], _, hk, _, hr => by
    cases hr
    exact hk
  | _ :: _, _, hk, hs, hr => by
    obtain ⟨outcome, ho, hr⟩ := bind_eq_ok_iff.mp hr
    exact keeps_of_after (keeps_of_ask hk hs.1 ho) (hs.2 outcome ho) hr

theorem get_of_keeps (hk : q.Keeps block payload) : q.get block.offset = .ok (.ok payload) := by
  obtain ⟨shape, blocks, h, hm, hc⟩ := hk
  rw [get_of_mem h hm, hc]

/-- **An entry is read by its offset for as long as no request removes it**, through all growths, and no other push
replies an offset inside its block. -/
theorem get_of_after {requests : List Request} (hq : Reachable q) (hp : q.push payload = .ok pushed)
    (ho : pushed.reply = .ok offset) (hs : pushed.queue.Along (Spares offset) requests)
    (hr : pushed.queue.after requests = .ok r) :
    r.get offset = .ok (.ok payload) ∧
      ∀ payload' pushed' offset', r.push payload' = .ok pushed' → pushed'.reply = .ok offset' →
        offset' < offset ∨ offset + payload.need ≤ offset' := by
  obtain ⟨shape, blocks, h⟩ := hq.layout
  have hk : r.Keeps (Block.written offset payload.need) payload := keeps_of_after (keeps_of_push h hp ho) hs hr
  refine ⟨get_of_keeps hk, fun payload' pushed' offset' hp' ho' => ?_⟩
  have hpos := payload'.need_pos
  rcases hk.apart_of_push hp' ho' with ha | ha
  · exact .inr ha
  · have hlt : offset' + payload'.need ≤ offset := ha
    exact .inl (by omega)

/-- The second entry, read once the first is gone, another has wrapped around, and a growth has put all in line. -/
theorem get_of_after_growing : ∃ r : Queue, r.capacity = 16 ∧ r.get 4 = .ok (.ok [3, 4]) ∧
    ∀ payload' pushed' offset', r.push payload' = .ok pushed' → pushed'.reply = .ok offset' →
      offset' < 4 ∨ 7 ≤ offset' := by
  have hq : Reachable {
      buffer := ⟨#[0, 3, 1, 2, 0, 0, 0, 0], by decide⟩
      cursors := { head := 1, tail := 4, margin := 4, count := 1 } } :=
    reachable_iff.mpr ⟨8, 0, false, { buffer := ⟨Array.replicate 8 0, by decide⟩ }, [.push [1, 2]], by cbv, by cbv⟩
  let pushed : Queue := {
    buffer := ⟨#[0, 3, 1, 2, 3, 3, 4, 0], by decide⟩
    cursors := { head := 1, tail := 7, margin := 7, count := 2 } }
  obtain ⟨hg, hn⟩ := @get_of_after _ grownInLine [3, 4] { reply := .ok 4, queue := pushed } 4
    [.pop, .push [5], .push [6, 7, 8], .peek] hq (by cbv) rfl (by decide +kernel) (by cbv)
  exact ⟨grownInLine, rfl, hg, hn⟩

end Queue
end BlockRing
