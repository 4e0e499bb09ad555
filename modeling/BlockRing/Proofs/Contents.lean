import BlockRing.Proofs.FreeStretches
import BlockRing.Proofs.Sessions

/-!
# A queue as a list of entries

Seen from outside, a queue is the list of its entries, each an offset and a payload (`Queue.Holds`). `Effect` says what
each request makes of this list and what it replies: a pop takes the first entry off, a push adds one at the end, and
only a push for which wrapped entries are put in line changes the order of the others (`Queue.Enters`). Along every
session of a new queue the list goes on like this, request by request (`follows_of_create`).
-/

namespace BlockRing

section Wrapped

variable {b : Buffer} {c : Cursors} {older newer : List Block}

theorem Wrapped.head_le_offset (h : Wrapped b c older newer) :
    ∀ entry ∈ older.map (Block.entry b), c.head ≤ entry.offset := by
  intro entry hm
  obtain ⟨x, hx, rfl⟩ := List.mem_map.mp hm
  exact (h.older_tiles.mem x hx).2.1

theorem Wrapped.offset_lt_head (h : Wrapped b c older newer) :
    ∀ entry ∈ newer.map (Block.entry b), entry.offset < c.head := by
  intro entry hm
  obtain ⟨x, hx, rfl⟩ := List.mem_map.mp hm
  exact Nat.lt_of_lt_of_le (h.newer_tiles.offset_lt x hx) h.tail_le_head

end Wrapped

namespace Queue

/-- The queue holds the entries of a list, in this order. -/
def Holds (q : Queue) (entries : List Entry) : Prop := q.len = entries.length ∧ q.toList = .ok entries

/-- The reply with the first entry of a list. -/
def oldest : List Entry → Reply
  | [] => .error .empty
  | entry :: _ => .ok (.payload entry.payload)

/-- **What a push makes of the entries** of a queue. -/
inductive Enters (q : Queue) (payload : Payload) (outcome : Outcome Reply) (entries : List Entry) :
    List Entry → Prop
  /-- No free stretch takes the block, which would come to the maximum on top of the buffer: the push is refused, and
  nothing changes. -/
  | refused (hn : ¬ q.HasRoom payload.need) (hc : q.ceiling = some q.maxCapacity)
      (hm : q.maxCapacity ≤ q.capacity + payload.need)
      (hr : outcome.reply = .error (.noRoom payload.need q.capacity q.maxCapacity)) (hq : outcome.queue = q) :
      Enters q payload outcome entries entries
  /-- Without growing, or with nothing wrapped around, the entry becomes the last one. -/
  | last {offset : Nat} (hr : outcome.reply = .ok (.number offset))
      (hk : outcome.queue.capacity = q.capacity ∨ ¬ q.cursors.Wraps) :
      Enters q payload outcome entries (entries ++ [⟨offset, payload⟩])
  /-- With a growth the wrapped entries come first, then the covered gap, then those at the head or behind it. -/
  | inLine {offset : Nat} {older newer : List Entry} (hr : outcome.reply = .ok (.number offset))
      (hk : q.capacity < outcome.queue.capacity) (hw : q.cursors.Wraps) (he : entries = older ++ newer)
      (ho : ∀ entry ∈ older, q.cursors.head ≤ entry.offset) (hn : ∀ entry ∈ newer, entry.offset < q.cursors.head) :
      Enters q payload outcome entries (newer ++ q.cursors.fillerEntry ++ older ++ [⟨offset, payload⟩])

/-- **What a request makes of the entries** of a queue, and what it replies. -/
def Effect (q : Queue) (outcome : Outcome Reply) (entries entries' : List Entry) : Request → Prop
  | .push payload => Enters q payload outcome entries entries'
  | .pop => outcome.reply = oldest entries ∧ entries' = entries.tail
  | .peek => outcome.reply = oldest entries ∧ entries' = entries
  | .drain => outcome.reply = .ok (.drained (entries.map Entry.payload) .empty) ∧ entries' = []
  | .payloads => outcome.reply = .ok (.payloads (entries.map Entry.payload)) ∧ entries' = entries
  | .reset => outcome.reply = .ok .done ∧ entries' = []
  | _ => entries' = entries

/-- Along a session a list of entries goes on with what each admitted request makes of it, and the queue holds it. Its
maximum stays the same. -/
def Follows : Queue → List Entry → List Request → Prop
  | q, entries, [] => q.Holds entries
  | q, entries, request :: requests =>
    q.Holds entries ∧ (q.Admits request → ∃ outcome entries', q.ask request = .ok outcome ∧
      q.Effect outcome entries entries' request ∧ outcome.queue.maxCapacity = q.maxCapacity ∧
      outcome.queue.Follows entries' requests)

variable {q : Queue} {shape : Shape} {blocks blocks' : List Block} {request : Request} {outcome : Outcome Reply}
  {payload : Payload} {capacity maxCapacity need : Nat}

theorem holds_of_layout (h : Layout q.buffer q.cursors shape blocks) : q.Holds (blocks.map (Block.entry q.buffer)) :=
  ⟨by rw [List.length_map]; exact h.count_eq, toList_of_layout h⟩

/-! ## Pushing -/

/-- The entries once a block has been written behind all others. -/
theorem map_entry_of_writes {b b' : Buffer} {c c' : Cursors} {shape' : Shape} {offset size : Nat}
    (h : Layout b c shape blocks) (w : Writes b b' (Block.written offset size) payload)
    (h' : Layout b' c' shape' (blocks ++ [Block.written offset size])) :
    (blocks ++ [Block.written offset size]).map (Block.entry b') =
      blocks.map (Block.entry b) ++ [⟨offset, payload⟩] := by
  rw [List.map_append, List.map_congr_left (h.entry_of_writes w h'), List.map_singleton, w.entry_written]
  rfl

/-- The entries of wrapped blocks that have been put in line. -/
theorem Grown.map_entry {g : Queue} {older newer : List Block}
    (hg : Grown q need .wrapped (older ++ newer) g (newer ++ q.cursors.filler ++ older))
    (hf : q.cursors.filler.map (Block.entry g.buffer) = q.cursors.fillerEntry) :
    (newer ++ q.cursors.filler ++ older).map (Block.entry g.buffer) =
      newer.map (Block.entry q.buffer) ++ q.cursors.fillerEntry ++ older.map (Block.entry q.buffer) := by
  have hn : newer.map (Block.entry g.buffer) = newer.map (Block.entry q.buffer) :=
    List.map_congr_left fun x hx => hg.entry_eq x (List.mem_append_right _ hx)
  have ho : older.map (Block.entry g.buffer) = older.map (Block.entry q.buffer) :=
    List.map_congr_left fun x hx => hg.entry_eq x (List.mem_append_left _ hx)
  rw [List.map_append, List.map_append, hn, hf, ho]

/-- **A push enters its payload.** -/
theorem enters_of_pushed {pushed : Outcome (Except Refusal Nat)} {shape' : Shape}
    (h : Layout q.buffer q.cursors shape blocks) (hl : payload.length < Payload.limit)
    (hp : Pushed q payload shape blocks pushed blocks')
    (h' : Layout pushed.queue.buffer pushed.queue.cursors shape' blocks') :
    Enters q payload (pushed.map (Reply.of .number)) (blocks.map (Block.entry q.buffer))
      (blocks'.map (Block.entry pushed.queue.buffer)) := by
  cases hp with
  | placed hslot w =>
    rw [map_entry_of_writes h w h']
    exact .last rfl (.inl (q.capacity_placed _ payload))
  | refused hslot hm =>
    have hroom := (h.slot?_eq_none_iff payload.need_pos (Payload.need_add_lt hl)).mp hslot
    obtain ⟨hc, hle⟩ := of_ceilingMet? hm
    obtain rfl := maxCapacity_of_ceilingMet? hm
    exact .refused hroom hc hle rfl rfl
  | @grown g blocks' hslot hm hg w =>
    obtain ⟨_, _, hlay⟩ := hg.layout
    rw [map_entry_of_writes hlay w h']
    have hlt := hg.capacity_lt hm w
    have hentry := hg.entry_eq
    have order := hg.order
    cases order with
    | kept hns =>
      rw [List.map_congr_left hentry]
      exact .last rfl (.inr fun hw => hns (h.wraps_iff.mp hw))
    | inLine hw hf =>
      rw [hg.map_entry hf, List.map_append]
      refine .inLine rfl ?_ (h.wraps_iff.mpr rfl) rfl hw.head_le_offset hw.offset_lt_head
      show q.capacity < (g.placed q.cursors.margin payload).capacity
      rw [capacity_placed]
      exact hlt

/-! ## Asking -/

theorem ask_peek (h : Layout q.buffer q.cursors shape blocks) :
    q.ask .peek = .ok (q.unchanged (oldest (blocks.map (Block.entry q.buffer)))) := by
  cases blocks with
  | nil =>
    rw [ask, peek_of_nil h]
    rfl
  | cons block rest =>
    rw [ask, peek_of_cons h]
    rfl

theorem ask_payloads (h : Layout q.buffer q.cursors shape blocks) :
    q.ask .payloads =
      .ok (q.unchanged (.ok (.payloads ((blocks.map (Block.entry q.buffer)).map Entry.payload)))) := by
  rw [ask, toList_of_layout h]
  rfl

/-- **Each request has its effect** on the entries of the blocks in use. -/
theorem effect_of_answered {shape' : Shape} (h : Layout q.buffer q.cursors shape blocks) (hadm : q.Admits request)
    (ho : q.ask request = .ok outcome) (ha : Answered q shape blocks request outcome blocks')
    (h' : Layout outcome.queue.buffer outcome.queue.cursors shape' blocks') :
    q.Effect outcome (blocks.map (Block.entry q.buffer)) (blocks'.map (Block.entry outcome.queue.buffer)) request := by
  cases ha with
  | push hp => exact enters_of_pushed h hadm.1 hp h'
  | popNone hb =>
    subst hb
    exact ⟨rfl, rfl⟩
  | pop hb =>
    subst hb
    exact ⟨rfl, rfl⟩
  | drain =>
    refine ⟨?_, rfl⟩
    rw [List.map_map]
    rfl
  | reset => exact ⟨rfl, rfl⟩
  | observe => rfl
  | unobserve => rfl
  | read hr =>
    cases request with
    | push payload => cases hr
    | pop => cases hr
    | drain => cases hr
    | reset => cases hr
    | observe tag => cases hr
    | unobserve => cases hr
    | peek =>
      cases ho.symm.trans (ask_peek h)
      exact ⟨rfl, rfl⟩
    | payloads =>
      cases ho.symm.trans (ask_payloads h)
      exact ⟨rfl, rfl⟩
    | _ => rfl

/-! ## Sessions -/

/-- A session of a queue with a layout goes on from the entries of its blocks. -/
theorem follows_of_layout : ∀ {requests : List Request} {q : Queue} {shape : Shape} {blocks : List Block},
    Layout q.buffer q.cursors shape blocks → q.Follows (blocks.map (Block.entry q.buffer)) requests
  | [], _, _, _, h => holds_of_layout h
  | request :: requests, q, _, _, h => by
    refine ⟨holds_of_layout h, fun ha => ?_⟩
    obtain ⟨outcome, shape', blocks', ho, hans, h'⟩ := ask_of_layout h ha
    exact ⟨outcome, _, ho, effect_of_answered h ha ho hans h', hans.maxCapacity_eq, follows_of_layout h'⟩

/-- **A new queue goes on as a list of entries**, empty at first, through every session. It has the capacity and the
maximum that it was created with. -/
theorem follows_of_create (hc : 0 < capacity) (hm : maxCapacity = 0 ∨ capacity ≤ maxCapacity)
    (hs : capacity ≤ Buffer.maxSize) (verbose : Bool) (requests : List Request) :
    ∃ q, Queue.create capacity maxCapacity verbose = .ok (.ok q) ∧ q.capacity = capacity ∧
      q.maxCapacity = maxCapacity ∧ q.Follows [] requests := by
  obtain ⟨q, hq⟩ := exists_create hc hm hs verbose
  exact ⟨q, hq, (fields_of_create hq).2.2.1, maxCapacity_of_create hq, follows_of_layout (layout_of_create hq)⟩

/-- A session, all of it admitted, with an entry that wraps around and a growth that puts it in line. -/
theorem follows_of_create_growing : ∃ q wrapped grown, Queue.create 8 0 false = .ok (.ok q) ∧
    q.after [.push [1, 2], .push [3, 4], .pop, .push [5]] = .ok wrapped ∧ wrapped.cursors.Wraps ∧
    wrapped.Holds [⟨4, [3, 4]⟩, ⟨1, [5]⟩] ∧
    wrapped.after [.push [6, 7, 8]] = .ok grown ∧ grown.capacity = 16 ∧
    grown.Holds [⟨1, [5]⟩, ⟨3, []⟩, ⟨4, [3, 4]⟩, ⟨7, [6, 7, 8]⟩] ∧
    q.Along Admits [.push [1, 2], .push [3, 4], .pop, .push [5], .push [6, 7, 8], .pop, .peek, .reset] ∧
    q.Follows [] [.push [1, 2], .push [3, 4], .pop, .push [5], .push [6, 7, 8], .pop, .peek, .reset] := by
  have hw : wrappedAround.Holds [⟨4, [3, 4]⟩, ⟨1, [5]⟩] := ⟨rfl, by cbv⟩
  have hg : grownInLine.Holds [⟨1, [5]⟩, ⟨3, []⟩, ⟨4, [3, 4]⟩, ⟨7, [6, 7, 8]⟩] := ⟨rfl, by cbv⟩
  obtain ⟨q, hq, _, _, h⟩ := @follows_of_create 8 0 (by decide) (.inl rfl) (by decide) false
    [.push [1, 2], .push [3, 4], .pop, .push [5], .push [6, 7, 8], .pop, .peek, .reset]
  cases hq
  exact ⟨_, _, _, rfl, by cbv, by decide, hw, by cbv, rfl, hg, by decide +kernel, h⟩

end Queue
end BlockRing
