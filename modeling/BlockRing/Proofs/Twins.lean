import BlockRing.Proofs.Removal

/-!
# Bytes that are not in use

What a queue does depends on no byte outside of its blocks in use. Queues are `Alike` if they agree on the size of the
buffer, the ceiling, the cursors and the bytes of the blocks in use; then they are `Twins`: the same blocks are in use
in both, with the same entries.

- Twins take a push in the same way (`Twins.matches_of_pushed`), and every other request that reads entries in their
  order only (`Request.InOrder`); they give the same reply and are twins afterwards (`Twins.ask`).
- So twins go through every session `InStep` (`Twins.inStep`).
- **Queues that are alike go through every session in step, and so does an emptied queue with a new one**
  (`inStep_of_alike`).
-/

namespace BlockRing

/-- A request that reads entries in their order only: at no offset of its own choice, and no other bytes. -/
def Request.InOrder : Request → Prop
  | .get _ | .scan _ _ | .describe => False
  | _ => True

instance : (request : Request) → Decidable request.InOrder
  | .get _ | .scan _ _ | .describe => inferInstanceAs (Decidable False)
  | .push _ | .pop | .peek | .checkOffset _ | .drain | .tourPayloads _ | .tourEntries _ | .payloads | .reset
  | .observe _ | .unobserve | .maxCapacity => inferInstanceAs (Decidable True)

/-! ## Blocks of the same bytes -/

section Layouts

variable {b b' : Buffer} {c c' : Cursors} {shape shape' : Shape} {blocks older newer older' newer' : List Block}

/-- A layout stays as long as the bytes of its blocks stay. -/
theorem Layout.of_own_bytes (h : Layout b c shape blocks) (hs : b'.size = b.size)
    (ha : ∀ block ∈ blocks, b.Agree b' block.offset block.stop) : Layout b' c shape blocks := by
  have hm := h.margin_le_size
  cases h with
  | empty hb hc => exact .empty (by omega) hc
  | linear h =>
    have ht := h.tail_eq_margin
    exact .linear { h with margin_le_size := by omega, tiles := h.tiles.of_own_bytes ha (by omega) }
  | wrapped h =>
    have h1 := h.tail_le_head
    have h2 := h.head_lt_margin
    exact .wrapped { h with
      margin_le_size := by omega
      older_tiles := h.older_tiles.of_own_bytes (fun x hx => ha x (List.mem_append_left _ hx)) (by omega)
      newer_tiles := h.newer_tiles.of_own_bytes (fun x hx => ha x (List.mem_append_right _ hx)) (by omega) }

theorem Layout.entry_of_own_bytes (h : Layout b c shape blocks)
    (ha : ∀ block ∈ blocks, b.Agree b' block.offset block.stop) :
    ∀ block ∈ blocks, Block.entry b' block = Block.entry b block := by
  intro block hm
  rw [Block.entry, Block.entry, Block.contents_of_agree (h.mem block hm).1 (ha block hm)]

/-- The older blocks are those at the head or behind it. -/
theorem Wrapped.filter_older (h : Wrapped b c older newer) :
    (older ++ newer).filter (fun block => c.head ≤ block.offset) = older := by
  have hle := h.tail_le_head
  have ho : ∀ block ∈ older, decide (c.head ≤ block.offset) = true := fun block hm =>
    decide_eq_true (h.older_tiles.mem block hm).2.1
  have hn : ∀ block ∈ newer, ¬ decide (c.head ≤ block.offset) = true := by
    intro block hm
    have hlt := h.newer_tiles.offset_lt block hm
    rw [decide_eq_true_eq]
    omega
  rw [List.filter_append, List.filter_eq_self.mpr ho, List.filter_eq_nil_iff.mpr hn, List.append_nil]

/-- Wrapped blocks are the older and the newer ones in one way only. -/
theorem Wrapped.split_unique (h : Wrapped b c older newer) (h' : Wrapped b' c older' newer')
    (he : older ++ newer = older' ++ newer') : older = older' ∧ newer = newer' := by
  have ho : older = older' := by rw [← h.filter_older, ← h'.filter_older, he]
  subst ho
  exact ⟨rfl, List.append_cancel_left he⟩

/-- Where blocks lie in line, they determine the cursors, up to the tail if there is no block. -/
theorem Layout.cursors_eq (h : Layout b c shape blocks) (h' : Layout b' c' shape' blocks) (hs : shape ≠ .wrapped)
    (hs' : shape' ≠ .wrapped) (ht : c.tail = c'.tail) : c = c' := by
  cases h with
  | empty hb hc => exact hc.trans h'.of_nil.symm
  | linear h =>
    have hne := h.tiles.ne_nil h.head_lt_tail
    cases h' with
    | empty hb' hc' => exact absurd rfl hne
    | linear h' =>
      have hhead : c.head = c'.head := by
        obtain ⟨block, rest, rfl⟩ := List.exists_cons_of_ne_nil hne
        exact (Block.offset_of_at? h.tiles.1).symm.trans (Block.offset_of_at? h'.tiles.1)
      have hmargin : c.margin = c'.margin := by rw [← h.tail_eq_margin, ← h'.tail_eq_margin, ht]
      have hsat : c.saturated = c'.saturated := by rw [h.not_saturated, h'.not_saturated]
      have hlen : c.count = c'.count := by rw [h.count_eq, h'.count_eq]
      cases c
      cases c'
      rw [Cursors.mk.injEq]
      exact ⟨hhead, ht, hmargin, hlen, hsat⟩
    | wrapped h' => exact absurd rfl hs'
  | wrapped h => exact absurd rfl hs

end Layouts

namespace Queue

/-- Queues that agree on everything but the reporting and the bytes that are not in use. -/
structure Alike (q r : Queue) : Prop where
  capacity_eq : r.capacity = q.capacity
  ceiling_eq : r.ceiling = q.ceiling
  cursors_eq : r.cursors = q.cursors
  agree : ∀ shape blocks, Layout q.buffer q.cursors shape blocks →
    ∀ block ∈ blocks, q.buffer.Agree r.buffer block.offset block.stop

/-- Queues with the same blocks in use and the same entries in them. -/
structure Twins (q r : Queue) (shape : Shape) (blocks : List Block) : Prop where
  capacity_eq : r.capacity = q.capacity
  ceiling_eq : r.ceiling = q.ceiling
  cursors_eq : r.cursors = q.cursors
  layout : Layout q.buffer q.cursors shape blocks
  layout' : Layout r.buffer r.cursors shape blocks
  entry_eq : ∀ block ∈ blocks, Block.entry r.buffer block = Block.entry q.buffer block

/-- **Queues go through a session in step**: as long as requests are admitted, both reply the same to each, show the
same afterwards and report the same growths, each queue to its own log and observer. -/
def InStep : Queue → Queue → List Request → Prop
  | _, _, [] => True
  | q, r, request :: requests =>
    q.Admits request → ∃ (done done' : Step) (q' r' : Queue),
      q.step request = .ok (done, q') ∧ r.step request = .ok (done', r') ∧
        done'.reply = done.reply ∧ done'.snapshot = done.snapshot ∧
        (∃ growths : List Growth, done.reports = growths.flatMap q.reporting.reports ∧
          done'.reports = growths.flatMap r.reporting.reports) ∧
        q'.InStep r' requests

/-- What a request to both of two queues comes to: the same reply and the same growths, and twins again. -/
structure Matches {α : Type} (q r : Queue) (outcome outcome' : Outcome α) (blocks : List Block) : Prop where
  reply_eq : outcome'.reply = outcome.reply
  growths : ∃ growths : List Growth, outcome.reports = growths.flatMap q.reporting.reports ∧
    outcome'.reports = growths.flatMap r.reporting.reports
  twins : ∃ shape, Twins outcome.queue outcome'.queue shape blocks

variable {q r g g' : Queue} {shape shape' : Shape} {blocks blocks' blocks'' : List Block} {request : Request}
  {payload : Payload} {offset need : Nat} {pushed pushed' : Outcome (Except Refusal Nat)}

/-! ## Twins -/

theorem twins_of_layouts (hk : r.capacity = q.capacity) (hc : r.ceiling = q.ceiling) (hcur : r.cursors = q.cursors)
    (h : Layout q.buffer q.cursors shape blocks) (h' : Layout r.buffer r.cursors shape' blocks)
    (he : ∀ block ∈ blocks, Block.entry r.buffer block = Block.entry q.buffer block) : Twins q r shape blocks := by
  have hs : shape' = shape := by
    rw [hcur] at h'
    exact h'.shape_eq h
  subst hs
  exact ⟨hk, hc, hcur, h, h', he⟩

theorem Alike.twins (ha : Alike q r) (h : Layout q.buffer q.cursors shape blocks) : Twins q r shape blocks := by
  have hagree := ha.agree shape blocks h
  refine ⟨ha.capacity_eq, ha.ceiling_eq, ha.cursors_eq, h, ?_, h.entry_of_own_bytes hagree⟩
  rw [ha.cursors_eq]
  exact h.of_own_bytes ha.capacity_eq hagree

namespace Twins

theorem slot?_eq (t : Twins q r shape blocks) (need : Nat) :
    r.cursors.slot? r.capacity need = q.cursors.slot? q.capacity need := by
  rw [t.cursors_eq, t.capacity_eq]

theorem ceilingMet?_eq (t : Twins q r shape blocks) (need : Nat) : r.ceilingMet? need = q.ceilingMet? need := by
  rw [ceilingMet?, ceilingMet?, t.ceiling_eq, t.capacity_eq]

theorem grownCapacity_eq (t : Twins q r shape blocks) (need : Nat) : r.grownCapacity need = q.grownCapacity need := by
  rw [grownCapacity, grownCapacity, t.ceiling_eq, t.capacity_eq]

theorem allocates (t : Twins q r shape blocks) (ha : q.Allocates need) : r.Allocates need := by
  rw [Allocates, t.slot?_eq, t.ceilingMet?_eq, t.grownCapacity_eq]
  exact ha

theorem map_contents_eq (t : Twins q r shape blocks) :
    blocks.map (Block.contents r.buffer) = blocks.map (Block.contents q.buffer) :=
  List.map_congr_left fun block hm => congrArg Entry.payload (t.entry_eq block hm)

theorem map_entry_eq (t : Twins q r shape blocks) :
    blocks.map (Block.entry r.buffer) = blocks.map (Block.entry q.buffer) := List.map_congr_left t.entry_eq

/-! ## Pushing -/

/-- A block that is placed in both is in use in both. -/
theorem placed (t : Twins q r shape blocks)
    (w : Writes q.buffer (q.placed offset payload).buffer (Block.written offset payload.need) payload)
    (w' : Writes r.buffer (r.placed offset payload).buffer (Block.written offset payload.need) payload)
    (h : Layout (q.placed offset payload).buffer (q.placed offset payload).cursors shape'
      (blocks ++ [Block.written offset payload.need]))
    {shape'' : Shape}
    (h' : Layout (r.placed offset payload).buffer (r.placed offset payload).cursors shape''
      (blocks ++ [Block.written offset payload.need])) :
    Twins (q.placed offset payload) (r.placed offset payload) shape'
      (blocks ++ [Block.written offset payload.need]) := by
  refine twins_of_layouts ?_ t.ceiling_eq ?_ h h' ?_
  · rw [capacity_placed, capacity_placed, t.capacity_eq]
  · simp only [Queue.placed, extended, t.cursors_eq]
  · intro x hx
    rcases List.mem_append.mp hx with hm | hm
    · rw [t.layout'.entry_of_writes w' h' x hm, t.entry_eq x hm, t.layout.entry_of_writes w h x hm]
    · rw [List.mem_singleton.mp hm, w'.entry_written, w.entry_written]

/-- Twins grow to twins. -/
theorem grown (t : Twins q r shape blocks) (hg : Grown q need shape blocks g blocks')
    (hg' : Grown r need shape blocks g' blocks'') : blocks'' = blocks' ∧ ∃ shape', Twins g g' shape' blocks' := by
  have hkept : ∀ x ∈ blocks, Block.entry g'.buffer x = Block.entry g.buffer x := fun x hx => by
    rw [hg'.entry_eq x hx, t.entry_eq x hx, hg.entry_eq x hx]
  have hfiller : r.cursors.filler = q.cursors.filler := by rw [t.cursors_eq]
  -- The order changes in the same way, and the covered gap holds the same zeros.
  have hsame : blocks'' = blocks' ∧ ∀ x ∈ blocks', Block.entry g'.buffer x = Block.entry g.buffer x := by
    have order := hg.order
    have order' := hg'.order
    have hlay := t.layout
    generalize blocks = all at order order' hlay hkept
    cases order with
    | kept hs =>
      cases order' with
      | kept hs' => exact ⟨rfl, hkept⟩
      | inLine hw hf => exact absurd rfl hs
    | @inLine older newer hw hf =>
      generalize hl : older ++ newer = all at order' hkept
      cases order' with
      | kept hs' => exact absurd rfl hs'
      | @inLine older' newer' hw' hf' =>
        rw [t.cursors_eq] at hw'
        obtain ⟨rfl, rfl⟩ := hw.split_unique hw' hl
        have hzero : ∀ x ∈ q.cursors.filler, Block.entry g'.buffer x = Block.entry g.buffer x := by
          rw [hfiller, Cursors.fillerEntry, t.cursors_eq] at hf'
          exact List.map_inj_left.mp (hf'.trans hf.symm)
        refine ⟨by rw [hfiller], fun x hx => ?_⟩
        rcases List.mem_append.mp hx with hx | hx
        · rcases List.mem_append.mp hx with hx | hx
          · exact hkept x (List.mem_append_right _ hx)
          · exact hzero x hx
        · exact hkept x (List.mem_append_left _ hx)
  obtain ⟨rfl, hentry⟩ := hsame
  obtain ⟨shape', hs, h⟩ := hg.layout
  obtain ⟨shape'', hs', h'⟩ := hg'.layout
  have htail : g'.cursors.tail = g.cursors.tail := by rw [hg'.tail_eq, hg.tail_eq, t.cursors_eq]
  refine ⟨rfl, shape', twins_of_layouts ?_ ?_ (h'.cursors_eq h hs' hs htail) h h' hentry⟩
  · rw [hg'.capacity_eq, hg.capacity_eq, t.grownCapacity_eq]
  · rw [hg'.ceiling_eq, hg.ceiling_eq, t.ceiling_eq]

theorem growthFor_eq (t : Twins q r shape blocks) (need : Nat) : r.growthFor need shape = q.growthFor need shape := by
  rw [growthFor, growthFor, t.capacity_eq, t.grownCapacity_eq]

/-- **A push ends in the same way in both.** -/
theorem matches_of_pushed (t : Twins q r shape blocks) (hp : Pushed q payload shape blocks pushed blocks')
    (hp' : Pushed r payload shape blocks pushed' blocks'')
    (h : Layout pushed.queue.buffer pushed.queue.cursors shape' blocks') {shape'' : Shape}
    (h' : Layout pushed'.queue.buffer pushed'.queue.cursors shape'' blocks'') : Matches q r pushed pushed' blocks' := by
  have hslot_eq := t.slot?_eq payload.need
  have hm_eq := t.ceilingMet?_eq payload.need
  cases hp with
  | placed hslot w =>
    cases hp' with
    | placed hslot' w' =>
      cases hslot.symm.trans (hslot_eq.symm.trans hslot')
      exact ⟨rfl, ⟨[], rfl, rfl⟩, _, t.placed w w' h h'⟩
    | refused hslot' hm' => cases hslot.symm.trans (hslot_eq.symm.trans hslot')
    | grown hslot' hm' hg' w' => cases hslot.symm.trans (hslot_eq.symm.trans hslot')
  | refused hslot hm =>
    cases hp' with
    | placed hslot' w' => cases hslot.symm.trans (hslot_eq.symm.trans hslot')
    | refused hslot' hm' =>
      cases hm.symm.trans (hm_eq.symm.trans hm')
      refine ⟨?_, ⟨[], rfl, rfl⟩, _, t⟩
      rw [t.capacity_eq]
    | grown hslot' hm' hg' w' => cases hm.symm.trans (hm_eq.symm.trans hm')
  | grown hslot hm hg w =>
    cases hp' with
    | placed hslot' w' => cases hslot.symm.trans (hslot_eq.symm.trans hslot')
    | refused hslot' hm' => cases hm.symm.trans (hm_eq.symm.trans hm')
    | grown hslot' hm' hg' w' =>
      obtain ⟨rfl, _, tg⟩ := t.grown hg hg'
      have hmargin : r.cursors.margin = q.cursors.margin := by rw [t.cursors_eq]
      rw [hmargin] at w' h' ⊢
      refine ⟨rfl, ⟨[q.growthFor payload.need shape], ?_, ?_⟩, _, tg.placed w w' h h'⟩
      · exact (List.append_nil _).symm
      · rw [t.growthFor_eq]
        exact (List.append_nil _).symm

/-! ## Asking -/

theorem unchanged (t : Twins q r shape blocks) (reply : Reply) :
    Matches q r (q.unchanged reply) (r.unchanged reply) blocks := ⟨rfl, ⟨[], rfl, rfl⟩, shape, t⟩

theorem reset (t : Twins q r shape blocks) : Twins q.reset r.reset .empty [] :=
  ⟨t.capacity_eq, t.ceiling_eq, rfl, layout_reset t.layout, layout_reset t.layout', fun _ hm => by cases hm⟩

theorem checkOffset_eq (t : Twins q r shape blocks) (offset : Nat) : r.checkOffset offset = q.checkOffset offset := by
  rw [checkOffset, checkOffset, len, len, t.cursors_eq, t.capacity_eq]

theorem maxCapacity_eq (t : Twins q r shape blocks) : r.maxCapacity = q.maxCapacity := by
  rw [maxCapacity, maxCapacity, t.ceiling_eq]

/-- The first block goes from both. -/
theorem popped {block : Block} {rest : List Block} (t : Twins q r shape (block :: rest)) :
    ∃ shape', Twins (q.popped block.size) (r.popped block.size) shape' rest := by
  obtain ⟨_, shape', h⟩ := pop_of_cons t.layout
  obtain ⟨_, _, h'⟩ := pop_of_cons t.layout'
  refine ⟨shape', twins_of_layouts t.capacity_eq t.ceiling_eq ?_ h h' fun x hx => ?_⟩
  · simp only [Queue.popped, t.cursors_eq]
  · exact t.entry_eq x (List.mem_cons_of_mem _ hx)

theorem ask_pop (t : Twins q r shape blocks) : ∃ outcome outcome' blocks',
    q.ask .pop = .ok outcome ∧ r.ask .pop = .ok outcome' ∧ Matches q r outcome outcome' blocks' := by
  cases blocks with
  | nil =>
    refine ⟨_, _, [], ?_, ?_, t.unchanged (.error .empty)⟩
    · rw [ask, pop_of_nil t.layout]
      rfl
    · rw [ask, pop_of_nil t.layout']
      rfl
  | cons block rest =>
    obtain ⟨hp, _⟩ := pop_of_cons t.layout
    obtain ⟨hp', _⟩ := pop_of_cons t.layout'
    have hc : block.contents r.buffer = block.contents q.buffer :=
      congrArg Entry.payload (t.entry_eq block List.mem_cons_self)
    obtain ⟨shape', t'⟩ := t.popped
    refine ⟨{ reply := .ok (.payload (block.contents q.buffer)), queue := q.popped block.size },
      { reply := .ok (.payload (block.contents q.buffer)), queue := r.popped block.size }, rest, ?_, ?_,
      rfl, ⟨[], rfl, rfl⟩, shape', t'⟩
    · rw [ask, hp]
      rfl
    · rw [ask, hp', hc]
      rfl

/-- **A request has the same reply from both**, and leaves twins. -/
theorem ask (t : Twins q r shape blocks) (ha : q.Admits request) (hi : request.InOrder) : ∃ outcome outcome' blocks',
    q.ask request = .ok outcome ∧ r.ask request = .ok outcome' ∧ Matches q r outcome outcome' blocks' := by
  cases request with
  | push payload =>
    obtain ⟨pushed, _, blocks', hp, hpushed, h⟩ := push_of_layout t.layout ha.1 ha.2
    obtain ⟨pushed', _, _, hp', hpushed', h'⟩ := push_of_layout t.layout' ha.1 (t.allocates ha.2)
    obtain ⟨hreply, hgrowths, htwins⟩ := t.matches_of_pushed hpushed hpushed' h h'
    refine ⟨pushed.map (Reply.of .number), pushed'.map (Reply.of .number), blocks', ?_, ?_,
      congrArg (Reply.of .number) hreply, hgrowths, htwins⟩
    · rw [Queue.ask, hp]
      rfl
    · rw [Queue.ask, hp']
      rfl
  | pop => exact t.ask_pop
  | peek => exact ⟨_, _, _, ask_peek t.layout, by rw [ask_peek t.layout', t.map_entry_eq], t.unchanged _⟩
  | get offset => cases hi
  | checkOffset offset => exact ⟨_, _, _, rfl, by rw [Queue.ask, t.checkOffset_eq]; rfl, t.unchanged _⟩
  | scan start stop => cases hi
  | drain =>
    refine ⟨{ reply := .ok (.drained (blocks.map (Block.contents q.buffer)) .empty), queue := q.reset },
      { reply := .ok (.drained (blocks.map (Block.contents q.buffer)) .empty), queue := r.reset }, [], ?_, ?_,
      rfl, ⟨[], rfl, rfl⟩, _, t.reset⟩
    · rw [Queue.ask, drain_of_layout t.layout]
      rfl
    · rw [Queue.ask, drain_of_layout t.layout', t.map_contents_eq]
      rfl
  | tourPayloads steps =>
    exact ⟨_, _, _, ask_tourPayloads t.layout steps, by rw [ask_tourPayloads t.layout', t.map_entry_eq], t.unchanged _⟩
  | tourEntries steps =>
    exact ⟨_, _, _, ask_tourEntries t.layout steps, by rw [ask_tourEntries t.layout', t.map_entry_eq], t.unchanged _⟩
  | payloads => exact ⟨_, _, _, ask_payloads t.layout, by rw [ask_payloads t.layout', t.map_entry_eq], t.unchanged _⟩
  | reset => exact ⟨_, _, _, rfl, rfl, rfl, ⟨[], rfl, rfl⟩, _, t.reset⟩
  | observe tag => exact ⟨_, _, _, rfl, rfl, rfl, ⟨[], rfl, rfl⟩, shape, { t with }⟩
  | unobserve => exact ⟨_, _, _, rfl, rfl, rfl, ⟨[], rfl, rfl⟩, shape, { t with }⟩
  | maxCapacity => exact ⟨_, _, _, rfl, by rw [Queue.ask, t.maxCapacity_eq]; rfl, t.unchanged _⟩
  | describe => cases hi

/-! ## Sessions -/

theorem exists_snapshot (t : Twins q r shape blocks) : ∃ seen, q.snapshot = .ok seen ∧ r.snapshot = .ok seen := by
  have hf := front?_of_layout t.layout
  have hf' := front?_of_layout t.layout'
  refine ⟨{
    len := q.len
    capacity := q.capacity
    isEmpty := q.isEmpty
    isFull := q.isFull
    front := blocks.head?.map Block.offset }, ?_, ?_⟩
  · rw [snapshot, hf]
    rfl
  · rw [snapshot, hf']
    simp only [isEmpty, isFull, len, t.cursors_eq, t.capacity_eq]
    rfl

/-- **Twins go through every session in step.** -/
theorem inStep : ∀ {requests : List Request} {q r : Queue} {shape : Shape} {blocks : List Block},
    Twins q r shape blocks → (∀ request ∈ requests, request.InOrder) → q.InStep r requests
  | [], _, _, _, _, _, _ => trivial
  | request :: requests, q, r, _, _, t, hi => by
    intro ha
    obtain ⟨outcome, outcome', _, ho, ho', hreply, hgrowths, _, t'⟩ := t.ask ha (hi request List.mem_cons_self)
    obtain ⟨seen, hs, hs'⟩ := t'.exists_snapshot
    refine ⟨{ reply := outcome.reply, snapshot := seen, reports := outcome.reports },
      { reply := outcome'.reply, snapshot := seen, reports := outcome'.reports }, outcome.queue, outcome'.queue, ?_, ?_,
      hreply, rfl, hgrowths, t'.inStep fun x hx => hi x (List.mem_cons_of_mem _ hx)⟩
    · rw [step, ho]
      simp only [bind, Except.bind, hs]
      rfl
    · rw [step, ho']
      simp only [bind, Except.bind, hs']
      rfl

end Twins

/-- An emptied queue is the twin of a new one. -/
theorem twins_of_create {fresh : Queue} {verbose : Bool} (hc : q.ceiling = if q.maxCapacity = 0 then none else
    some q.maxCapacity) (h : Layout q.buffer q.cursors shape [])
    (hf : Queue.create q.capacity q.maxCapacity verbose = .ok (.ok fresh)) : Twins q fresh shape [] := by
  obtain ⟨_, _, hk, hceil, hcur, _⟩ := fields_of_create hf
  refine twins_of_layouts hk (hceil.trans hc.symm) (hcur.trans h.of_nil.symm) h (layout_of_create hf) ?_
  intro block hm
  cases hm

/-- **Queues that are alike go through every session in step**, and so does a queue that has been emptied, by a reset or
by pops, with a new queue of its capacity and maximum. -/
theorem inStep_of_alike {requests : List Request} (hq : Reachable q) (hi : ∀ request ∈ requests, request.InOrder)
    (verbose : Bool) : (∀ r, Alike q r → q.InStep r requests) ∧ ∃ fresh emptied,
      Queue.create q.capacity q.maxCapacity verbose = .ok (.ok fresh) ∧
        q.after (List.replicate q.len .pop) = .ok emptied ∧
        q.reset.InStep fresh requests ∧ emptied.InStep fresh requests := by
  obtain ⟨shape, blocks, h⟩ := hq.layout
  refine ⟨fun r ha => (ha.twins h).inStep hi, ?_⟩
  have hceil := hq.ceiling_eq
  have hfirst : 1 ≤ q.capacity := h.first_le_size
  have hmax : q.maxCapacity = 0 ∨ q.capacity ≤ q.maxCapacity := by
    rcases Nat.eq_zero_or_pos q.maxCapacity with h0 | hpos
    · exact .inl h0
    · rw [if_neg (by omega)] at hceil
      exact .inr (hq.capacity_le_ceiling hceil)
  obtain ⟨fresh, hf⟩ := exists_create hfirst hmax q.buffer.size_le_maxSize verbose
  obtain ⟨cursors, shape', hr, hl⟩ := exists_after_pops h (Nat.le_refl _)
  have hlen : q.len = blocks.length := h.count_eq
  rw [List.drop_length] at hl
  let emptied : Queue := { q with cursors }
  have t : Twins emptied fresh shape' [] := twins_of_create (q := emptied) hceil hl hf
  have t' : Twins q.reset fresh .empty [] := twins_of_create (q := q.reset) hceil (layout_reset h) hf
  refine ⟨fresh, emptied, hf, ?_, t'.inStep hi, t.inStep hi⟩
  rw [hlen]
  exact hr

/-- Two queues that hold an entry behind bytes of another one that is gone, in a session that wraps around and grows. -/
theorem inStep_of_alike_wrapping : ∃ q r : Queue, Reachable q ∧ Reachable r ∧ q.buffer ≠ r.buffer ∧ Alike q r ∧
    q.InStep r [.push [5], .push [6, 7, 8], .payloads, .pop] ∧
    ∃ fresh, Queue.create 8 0 true = .ok (.ok fresh) ∧
      q.reset.InStep fresh [.push [5], .push [6, 7, 8], .payloads, .pop] := by
  let q : Queue := {
    buffer := ⟨#[0, 3, 1, 2, 3, 3, 4, 0], by decide⟩
    cursors := { head := 4, tail := 7, margin := 7, count := 1 } }
  let r : Queue := {
    buffer := ⟨#[0, 3, 8, 9, 3, 3, 4, 0], by decide⟩
    cursors := { head := 4, tail := 7, margin := 7, count := 1 } }
  have hq : Reachable q := reachable_iff.mpr ⟨8, 0, false, { buffer := ⟨Array.replicate 8 0, by decide⟩ },
    [.push [1, 2], .push [3, 4], .pop], by cbv, by cbv⟩
  have hr : Reachable r := reachable_iff.mpr ⟨8, 0, false, { buffer := ⟨Array.replicate 8 0, by decide⟩ },
    [.push [8, 9], .push [3, 4], .pop], by cbv, by cbv⟩
  have hlay : Layout q.buffer q.cursors .linear [⟨4, 1, 3⟩] :=
    .linear ⟨by decide, by decide, rfl, by decide, rfl, ⟨by cbv, rfl⟩, rfl⟩
  have ha : Alike q r := by
    refine ⟨rfl, rfl, rfl, fun shape blocks h block hm i h1 h2 => ?_⟩
    rw [← (hlay.unique h).2, List.mem_singleton] at hm
    subst hm
    have hi : i = 4 ∨ i = 5 ∨ i = 6 := by
      change 4 ≤ i at h1
      change i < 4 + 3 at h2
      omega
    rcases hi with rfl | rfl | rfl <;> rfl
  obtain ⟨hstep, fresh, _, hf, _, hreset, _⟩ :=
    @inStep_of_alike q [.push [5], .push [6, 7, 8], .payloads, .pop] hq (by decide) true
  exact ⟨q, r, hq, hr, by decide, ha, hstep r ha, fresh, hf, hreset⟩

end Queue
end BlockRing
