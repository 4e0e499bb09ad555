import BlockRing.Proofs.Contents

/-!
# Walking and removing

Walking over the entries of a queue and removing them one by one are two ways through the same blocks.

- After `k` pops the blocks in use are those behind the first `k`, each where it was (`exists_after_pops`); the next pop
  replies with the entry of the first of them, which lies at the head (`pop_of_drop`).
- A walk that has entries left comes to a block next, after any number of steps (`exists_visit`).
- **The tours of a queue show its entries in the order in which pops reply with them**, each with the offset where the
  head is then (`tours_follow_pops`).
-/

namespace BlockRing

/-- The tour of a list by `n` steps: all items are promised, each step shows the next one as long as there is any, and
the items behind these steps are still to come. -/
def Tour.over {α : Type} (items : List α) (n : Nat) : Tour α where
  promised := items.length
  steps := (List.range n).map fun i => (items[i]?, items.length - (i + 1))
  rest := items.drop n

theorem Tour.map_over {α β : Type} (f : α → β) (items : List α) (n : Nat) :
    (Tour.over items n).map f = Tour.over (items.map f) n := by
  simp [Tour.map, Tour.over, Function.comp_def]

namespace Queue

variable {q : Queue} {shape : Shape} {blocks : List Block} {block : Block}

/-! ## Removing one by one -/

/-- Some pops are one, and then the others. -/
theorem after_pops_succ (h : Layout q.buffer q.cursors shape (block :: blocks)) (k : Nat) :
    q.after (List.replicate (k + 1) .pop) = (q.popped block.size).after (List.replicate k .pop) := by
  simp only [List.replicate_succ, after, ask, (pop_of_cons h).1, bind, Except.bind, pure, Except.pure]
  rfl

/-- After some pops the blocks behind the removed ones are in use, and nothing but the cursors has changed. -/
theorem exists_after_pops : ∀ {k : Nat} {q : Queue} {shape : Shape} {blocks : List Block},
    Layout q.buffer q.cursors shape blocks → k ≤ blocks.length →
      ∃ cursors shape', q.after (List.replicate k .pop) = .ok { q with cursors } ∧
        Layout q.buffer cursors shape' (blocks.drop k)
  | 0, q, shape, _, h, _ => ⟨q.cursors, shape, rfl, h⟩
  | _ + 1, _, _, [], _, hk => absurd hk (Nat.not_succ_le_zero _)
  | k + 1, q, _, block :: blocks, h, hk => by
    obtain ⟨_, _, h'⟩ := pop_of_cons h
    obtain ⟨cursors, shape', hr, hl⟩ := exists_after_pops (q := q.popped block.size) h' (Nat.le_of_succ_le_succ hk)
    exact ⟨cursors, shape', (after_pops_succ h k).trans hr, hl⟩

/-- The pop behind some others replies with the entry that was the next one at first, and finds the head there. -/
theorem pop_of_drop {k : Nat} (h : Layout q.buffer q.cursors shape blocks) (hk : blocks[k]? = some block) :
    ∃ r s, q.after (List.replicate k .pop) = .ok r ∧ r.cursors.head = block.offset ∧
      r.pop = .ok { reply := .ok (block.contents q.buffer), queue := s } := by
  obtain ⟨hlt, hget⟩ := List.getElem?_eq_some_iff.mp hk
  obtain ⟨cursors, shape', hr, hl⟩ := exists_after_pops h (Nat.le_of_lt hlt)
  rw [List.drop_eq_getElem_cons hlt, hget] at hl
  let r : Queue := { q with cursors }
  have hpop := (pop_of_cons (q := r) hl).1
  exact ⟨r, _, hr, (offset_eq_head (q := r) hl).symm, hpop⟩

/-! ## Walking -/

/-- A walk that has entries left comes to a block next. -/
theorem exists_visit (h : Layout q.buffer q.cursors shape blocks) (n : Nat) :
    ∃ steps last, q.walk.visit n = .ok (steps, last) ∧ last.remaining = q.len - n ∧
      (last.remaining ≠ 0 → ∃ block, Block.at? last.buffer last.here = some block) := by
  obtain ⟨last, _, hm, hv⟩ := Walk.visit_of_meets n h.meets
  have hlen : q.len = blocks.length := h.count_eq
  have hleft := hm.remaining_eq
  refine ⟨_, last, hv, by rw [hleft, List.length_drop, hlen], fun hne => ?_⟩
  generalize blocks.drop n = left at hm hleft
  cases left with
  | nil => exact absurd hleft hne
  | cons block left => exact ⟨block, hm.2.1⟩

/-- A tour of a queue is one of the entries of its blocks. -/
theorem tour_eq_over (h : Layout q.buffer q.cursors shape blocks) (n : Nat) :
    q.walk.tour n = .ok (.over (blocks.map (Block.entry q.buffer)) n) := by
  rw [tour_of_layout h]
  simp only [Tour.over, List.length_map, List.getElem?_map, List.map_drop]

theorem ask_tourEntries (h : Layout q.buffer q.cursors shape blocks) (n : Nat) :
    q.ask (.tourEntries n) = .ok (q.unchanged (.ok (.entryTour (.over (blocks.map (Block.entry q.buffer)) n)))) := by
  rw [ask, tour_eq_over h]
  rfl

theorem ask_tourPayloads (h : Layout q.buffer q.cursors shape blocks) (n : Nat) :
    q.ask (.tourPayloads n) =
      .ok (q.unchanged (.ok (.payloadTour (.over ((blocks.map (Block.entry q.buffer)).map Entry.payload) n)))) := by
  have hmap := Tour.map_over Entry.payload (blocks.map (Block.entry q.buffer)) n
  rw [ask, tour_eq_over h, ← hmap]
  rfl

/-! ## The two ways agree -/

/-- An entry in use lies inside the buffer and is read by its offset. -/
theorem get_of_mem_entries (h : Layout q.buffer q.cursors shape blocks) :
    ∀ entry ∈ blocks.map (Block.entry q.buffer), Block.firstOffset ≤ entry.offset ∧ entry.offset < q.capacity ∧
      q.get entry.offset = .ok (.ok entry.payload) := by
  intro entry hm
  obtain ⟨block, hb, rfl⟩ := List.mem_map.mp hm
  obtain ⟨hat, hf, _⟩ := h.mem block hb
  exact ⟨hf, Nat.lt_of_lt_of_le (Block.offset_lt_stop hat) (Block.stop_le_size hat), get_of_mem h hb⟩

/-- **Tours show the entries of a queue in the order in which pops reply with them.** There are as many as the queue
counts; each is what the pop at its turn replies with, lies where the head is then, and can be read there before any
pop. Tours of entries and of payloads show just these, and then none, and count down to 0; and a walk that has entries
left always comes to a block next. -/
theorem tours_follow_pops (hq : Reachable q) : ∃ entries : List Entry, entries.length = q.len ∧
    (∀ k entry, entries[k]? = some entry → ∃ r s, q.after (List.replicate k .pop) = .ok r ∧
      r.cursors.head = entry.offset ∧ r.pop = .ok { reply := .ok entry.payload, queue := s }) ∧
    (∀ entry ∈ entries, Block.firstOffset ≤ entry.offset ∧ entry.offset < q.capacity ∧
      q.get entry.offset = .ok (.ok entry.payload)) ∧
    (∀ n, q.ask (.tourEntries n) = .ok (q.unchanged (.ok (.entryTour (.over entries n)))) ∧
      q.ask (.tourPayloads n) = .ok (q.unchanged (.ok (.payloadTour (.over (entries.map Entry.payload) n)))) ∧
      ∃ steps last, q.walk.visit n = .ok (steps, last) ∧ last.remaining = q.len - n ∧
        (last.remaining ≠ 0 → ∃ block, Block.at? last.buffer last.here = some block)) ∧
    q.ask .payloads = .ok (q.unchanged (.ok (.payloads (entries.map Entry.payload)))) := by
  obtain ⟨shape, blocks, h⟩ := hq.layout
  refine ⟨blocks.map (Block.entry q.buffer), ?_, ?_, get_of_mem_entries h, ?_, ask_payloads h⟩
  · rw [List.length_map]
    exact h.count_eq.symm
  · intro k entry hk
    rw [List.getElem?_map] at hk
    obtain ⟨block, hb, rfl⟩ := Option.map_eq_some_iff.mp hk
    exact pop_of_drop h hb
  · intro n
    exact ⟨ask_tourEntries h n, ask_tourPayloads h n, exists_visit h n⟩

/-- A queue with one entry at its head and one that has wrapped around. -/
theorem tours_follow_pops_wrapped : ∃ q : Queue, q.cursors = { head := 4, tail := 3, margin := 7, count := 2 } ∧
    Reachable q ∧ ∃ entries : List Entry, entries.length = 2 ∧
      (∀ k entry, entries[k]? = some entry → ∃ r s, q.after (List.replicate k .pop) = .ok r ∧
        r.cursors.head = entry.offset ∧ r.pop = .ok { reply := .ok entry.payload, queue := s }) ∧
      q.ask (.tourEntries 3) = .ok (q.unchanged (.ok (.entryTour (.over entries 3)))) := by
  obtain ⟨entries, hlen, hpop, _, htour, _⟩ := tours_follow_pops reachable_wrappedAround
  exact ⟨_, rfl, reachable_wrappedAround, entries, hlen, hpop, (htour 3).1⟩

end Queue
end BlockRing
