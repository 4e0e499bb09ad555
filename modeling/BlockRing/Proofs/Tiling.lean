import BlockRing.Proofs.Blocks

/-!
# Blocks that tile a stretch of a buffer

`Tiles b start blocks stop` says that stepping from `start` by the sizes that the bytes spell finds just these blocks,
and ends exactly at `stop`. Such blocks are the only ones (`Tiles.unique`), lie inside the stretch (`Tiles.mem`) and
one behind the other (`Tiles.ordered`), and stay there as long as the bytes of the stretch stay (`Tiles.of_agree`).
-/

namespace BlockRing

/-- The blocks lie one behind the other from `start` up to `stop`. -/
def Tiles (b : Buffer) : Nat → List Block → Nat → Prop
  | start, [], stop => start = stop
  | start, block :: blocks, stop => Block.at? b start = some block ∧ Tiles b block.stop blocks stop

variable {b c : Buffer} {start middle stop : Nat} {blocks front back : List Block} {block : Block}

theorem Tiles.single (h : Block.at? b start = some block) : Tiles b start [block] block.stop := ⟨h, rfl⟩

/-- Two stretches with a common border are tiled by the blocks of both. -/
theorem Tiles.append : ∀ {front : List Block} {start : Nat}, Tiles b start front middle → Tiles b middle back stop →
    Tiles b start (front ++ back) stop
  | [], _, h, h' => by cases h; exact h'
  | _ :: _, _, h, h' => ⟨h.1, Tiles.append h.2 h'⟩

/-- Every block takes at least one byte of the stretch. -/
theorem Tiles.add_length_le : ∀ {blocks : List Block} {start : Nat}, Tiles b start blocks stop →
    start + blocks.length ≤ stop
  | [], _, h => by cases h; simp
  | block :: _, _, h => by
    have h1 := Block.offset_lt_stop h.1
    have h2 := Tiles.add_length_le h.2
    rw [List.length_cons]
    omega

theorem Tiles.le (h : Tiles b start blocks stop) : start ≤ stop := by
  have := h.add_length_le
  omega

theorem Tiles.ne_nil (h : Tiles b start blocks stop) (hlt : start < stop) : blocks ≠ [] := by
  rintro rfl
  cases h
  omega

/-- Each block is found at its offset and lies inside the stretch. -/
theorem Tiles.mem : ∀ {blocks : List Block} {start : Nat}, Tiles b start blocks stop → ∀ block ∈ blocks,
    Block.at? b block.offset = some block ∧ start ≤ block.offset ∧ block.stop ≤ stop
  | [], _, _, _, hm => by cases hm
  | first :: blocks, start, h, block, hm => by
    have ho := Block.offset_of_at? h.1
    rcases List.mem_cons.mp hm with rfl | hm
    · exact ⟨by rw [ho]; exact h.1, by omega, h.2.le⟩
    · obtain ⟨h1, h2, h3⟩ := Tiles.mem h.2 block hm
      have := Block.offset_lt_stop h.1
      exact ⟨h1, by omega, h3⟩

/-- Each block lies before the end of the stretch. -/
theorem Tiles.offset_lt (h : Tiles b start blocks stop) : ∀ block ∈ blocks, block.offset < stop := by
  intro block hm
  obtain ⟨hat, _, hs⟩ := h.mem block hm
  exact Nat.lt_of_lt_of_le (Block.offset_lt_stop hat) hs

/-- Each block ends before the later ones start. -/
theorem Tiles.ordered : ∀ {blocks : List Block} {start : Nat}, Tiles b start blocks stop →
    blocks.Pairwise fun x y => x.stop ≤ y.offset
  | [], _, _ => .nil
  | _ :: _, _, h => .cons (fun y hy => (h.2.mem y hy).2.1) (Tiles.ordered h.2)

/-- The blocks of a stretch are determined by its bytes. -/
theorem Tiles.unique : ∀ {front back : List Block} {start : Nat}, Tiles b start front stop → Tiles b start back stop →
    front = back
  | [], [], _, _, _ => rfl
  | [], _ :: _, _, h, h' => by
    cases h
    have h1 := Block.offset_lt_stop h'.1
    have h2 := h'.2.le
    omega
  | _ :: _, [], _, h, h' => by
    cases h'
    have h1 := Block.offset_lt_stop h.1
    have h2 := h.2.le
    omega
  | x :: front, y :: back, _, h, h' => by
    have hxy : x = y := Option.some.inj (h.1.symm.trans h'.1)
    subst hxy
    rw [Tiles.unique h.2 h'.2]

/-! ## Stretches whose bytes stay -/

/-- The blocks stay as long as their own bytes stay. -/
theorem Tiles.of_own_bytes : ∀ {blocks : List Block} {start : Nat}, Tiles b start blocks stop →
    (∀ block ∈ blocks, b.Agree c block.offset block.stop) → stop ≤ c.size → Tiles c start blocks stop
  | [], _, h, _, _ => h
  | block :: blocks, start, h, ha, hs => by
    have hle := h.2.le
    have hown := ha block List.mem_cons_self
    rw [Block.offset_of_at? h.1] at hown
    have hat := Block.at?_of_agree h.1 hown (by omega)
    exact ⟨hat, Tiles.of_own_bytes h.2 (fun x hx => ha x (List.mem_cons_of_mem _ hx)) hs⟩

/-- The blocks stay as long as the bytes of the stretch stay. -/
theorem Tiles.of_agree (h : Tiles b start blocks stop) (ha : b.Agree c start stop) (hs : stop ≤ c.size) :
    Tiles c start blocks stop :=
  h.of_own_bytes (fun block hm => ha.mono (h.mem block hm).2.1 (h.mem block hm).2.2) hs

end BlockRing
