import Mathlib.Algebra.BigOperators.Ring.Finset
import Mathlib.Tactic.MkIffOfInductiveProp
import Mathlib.Tactic.Ring
import BlockRing.Proofs.Varint

/-!
# Numerals

A numeral of `width` bytes lies at the start of some bytes if all of these but the last one have their high bit set
(`Delimits`). It stands for the sum of its groups of seven bits, each group worth 128 times the one before it
(`valueOf`). This says nothing about how a numeral is read or written.

- There is at most one numeral at the start of some bytes (`Delimits.unique`), and one of `width` bytes stands for a
  number of at most `7 * width` bits (`valueOf_lt`).
- Reading finds the numeral if there is one of at most ten bytes, and replies with the number that it stands for, less
  what does not fit into a machine word (`decode?_eq_some_iff`).
- Only the last group of a numeral of ten bytes may not fit (`Delimits.bound_le_valueOf_iff`). **So just the numerals
  that fit are read, each as the number that it stands for, unless there is one that does not**
  (`decode?_denotes_unless_surplus`): that one is read as another number, and not refused (`not_denotes_surplus`).
-/

namespace BlockRing
namespace Varint

/-! ## Numerals and what they stand for -/

/-- The byte at a place, or 0 where there is none. -/
def byteAt (xs : List UInt8) (k : Nat) : Nat := (xs.getD k 0).toNat

/-- The bytes begin with a numeral of `width` bytes: the high bit is set in all of them but the last. -/
@[mk_iff]
structure Delimits (xs : List UInt8) (width : Nat) : Prop where
  pos : 0 < width
  le_length : width ≤ xs.length
  continued : ∀ k < width - 1, 128 ≤ byteAt xs k
  ended : byteAt xs (width - 1) < 128

instance (xs : List UInt8) (width : Nat) : Decidable (Delimits xs width) :=
  decidable_of_iff' _ (delimits_iff xs width)

/-- The sum of the groups of seven bits in the first `width` bytes, the least significant group first. -/
def valueOf (xs : List UInt8) (width : Nat) : Nat := ∑ k ∈ Finset.range width, byteAt xs k % 128 * 2 ^ (7 * k)

/-- The bytes begin with a numeral of at most ten bytes, which stands for the machine word `value`. -/
def Denotes (xs : List UInt8) (value width : Nat) : Prop :=
  Delimits xs width ∧ width ≤ maxWidth ∧ value = valueOf xs width ∧ value < Word.bound

/-- The bytes begin with a numeral of ten bytes, and its last group has more than the one bit that fits. -/
def Surplus (xs : List UInt8) : Prop := Delimits xs maxWidth ∧ 1 < byteAt xs (maxWidth - 1)

instance (xs : List UInt8) : Decidable (Surplus xs) :=
  inferInstanceAs (Decidable (Delimits xs maxWidth ∧ 1 < byteAt xs (maxWidth - 1)))

variable {x : UInt8} {xs : List UInt8} {limit value width width' : Nat}

theorem byteAt_cons_zero : byteAt (x :: xs) 0 = x.toNat := rfl

theorem byteAt_cons_succ (k : Nat) : byteAt (x :: xs) (k + 1) = byteAt xs k := rfl

/-- A byte without its high bit is a numeral of its own. -/
theorem delimits_cons_of_lt (hx : x.toNat < 128) : Delimits (x :: xs) width ↔ width = 1 := by
  constructor
  · intro h
    refine Nat.le_antisymm (Nat.le_of_not_lt fun hw => ?_) h.pos
    have hc := h.continued 0 (by omega)
    rw [byteAt_cons_zero] at hc
    omega
  · rintro rfl
    exact ⟨Nat.one_pos, by simp, fun k hk => absurd hk (Nat.not_lt_zero k), hx⟩

/-- A byte with its high bit belongs to the numeral behind it. -/
theorem delimits_cons_of_le (hx : 128 ≤ x.toNat) : Delimits (x :: xs) (width + 1) ↔ Delimits xs width := by
  constructor
  · intro h
    have hw : 0 < width := by
      refine Nat.pos_of_ne_zero fun h0 => ?_
      subst h0
      have he : x.toNat < 128 := h.ended
      omega
    obtain ⟨width, rfl⟩ := Nat.exists_eq_add_one.mpr hw
    exact ⟨hw, Nat.le_of_succ_le_succ h.le_length, fun k hk => h.continued (k + 1) (Nat.succ_lt_succ hk), h.ended⟩
  · intro h
    obtain ⟨width, rfl⟩ := Nat.exists_eq_add_one.mpr h.pos
    refine ⟨Nat.succ_pos _, Nat.succ_le_succ h.le_length, fun k hk => ?_, h.ended⟩
    cases k with
    | zero => exact hx
    | succ k => exact h.continued k (Nat.lt_of_succ_lt_succ hk)

/-- There is no second numeral at the start of the bytes. -/
theorem Delimits.unique (h : Delimits xs width) (h' : Delimits xs width') : width = width' := by
  rcases Nat.lt_trichotomy width width' with hlt | heq | hlt
  · have hc := h'.continued (width - 1) (by have := h.pos; omega)
    exact absurd h.ended (Nat.not_lt.mpr hc)
  · exact heq
  · have hc := h.continued (width' - 1) (by have := h'.pos; omega)
    exact absurd h'.ended (Nat.not_lt.mpr hc)

theorem valueOf_succ (xs : List UInt8) (width : Nat) :
    valueOf xs (width + 1) = valueOf xs width + byteAt xs width % 128 * 2 ^ (7 * width) :=
  Finset.sum_range_succ _ _

theorem valueOf_cons (x : UInt8) (xs : List UInt8) (width : Nat) :
    valueOf (x :: xs) (width + 1) = x.toNat % 128 + 128 * valueOf xs width := by
  have hstep : ∀ k ∈ Finset.range width, byteAt (x :: xs) (k + 1) % 128 * 2 ^ (7 * (k + 1)) =
      128 * (byteAt xs k % 128 * 2 ^ (7 * k)) := by
    intro k _
    rw [byteAt_cons_succ]
    ring
  rw [valueOf, Finset.sum_range_succ', Finset.sum_congr rfl hstep, ← Finset.mul_sum, ← valueOf, byteAt_cons_zero,
    Nat.mul_zero, Nat.pow_zero, Nat.mul_one, Nat.add_comm]

/-- A numeral stands for a number of at most seven bits a byte. -/
theorem valueOf_lt (xs : List UInt8) (width : Nat) : valueOf xs width < 2 ^ (7 * width) := by
  induction width with
  | zero => exact Nat.one_pos
  | succ width ih =>
    have hg : byteAt xs width % 128 * 2 ^ (7 * width) ≤ 127 * 2 ^ (7 * width) :=
      Nat.mul_le_mul_right _ (Nat.le_of_lt_succ (Nat.mod_lt _ (by omega)))
    have hp : 2 ^ (7 * (width + 1)) = 128 * 2 ^ (7 * width) := by rw [Nat.mul_add, Nat.pow_add, Nat.mul_comm]
    rw [valueOf_succ, hp]
    omega

/-! ## Reading numerals -/

theorem decodeWithin_nil (limit : Nat) : decodeWithin limit [] = none := by
  cases limit <;> rfl

/-- Reading finds the numeral of at most `limit` bytes, and what it stands for. -/
theorem decodeWithin_eq_some_iff : decodeWithin limit xs = some (value, width) ↔
    Delimits xs width ∧ width ≤ limit ∧ value = valueOf xs width := by
  induction limit generalizing xs value width with
  | zero =>
    rw [decodeWithin]
    refine iff_of_false (Option.some_ne_none _).symm ?_
    rintro ⟨hd, hw, _⟩
    exact absurd hd.pos (Nat.not_lt.mpr hw)
  | succ limit ih =>
    cases xs with
    | nil =>
      rw [decodeWithin_nil]
      refine iff_of_false (Option.some_ne_none _).symm ?_
      rintro ⟨hd, _, _⟩
      exact absurd hd.le_length (Nat.not_le.mpr hd.pos)
    | cons x xs =>
      rw [decodeWithin]
      -- The first byte is the whole numeral, or one group more than the numeral behind it has.
      rcases Nat.lt_or_ge x.toNat 128 with hx | hx
      · rw [if_pos hx, delimits_cons_of_lt hx, Option.some.injEq, Prod.mk.injEq]
        have hone : valueOf (x :: xs) 1 = x.toNat := by
          rw [valueOf_cons, valueOf, Finset.sum_range_zero]
          omega
        constructor
        · rintro ⟨rfl, rfl⟩
          exact ⟨rfl, by omega, hone.symm⟩
        · rintro ⟨rfl, _, rfl⟩
          exact ⟨hone.symm, rfl⟩
      · rw [if_neg (Nat.not_lt.mpr hx), Option.map_eq_some_iff]
        constructor
        · rintro ⟨⟨v, w⟩, hv, he⟩
          cases he
          obtain ⟨hd, hw, rfl⟩ := ih.mp hv
          exact ⟨(delimits_cons_of_le hx).mpr hd, Nat.succ_le_succ hw, (valueOf_cons x xs w).symm⟩
        · rintro ⟨hd, hw, rfl⟩
          obtain ⟨w, rfl⟩ := Nat.exists_eq_add_one.mpr hd.pos
          refine ⟨(valueOf xs w, w), ih.mpr ⟨(delimits_cons_of_le hx).mp hd, Nat.le_of_succ_le_succ hw, rfl⟩, ?_⟩
          rw [valueOf_cons]

/-- **Reading finds the numeral of at most ten bytes**, and as much of what it stands for as fits into a machine
word. -/
theorem decode?_eq_some_iff : decode? xs = some (value, width) ↔
    Delimits xs width ∧ width ≤ maxWidth ∧ value = valueOf xs width % Word.bound := by
  rw [decode?, Option.map_eq_some_iff]
  constructor
  · rintro ⟨⟨v, w⟩, hv, he⟩
    cases he
    obtain ⟨hd, hw, rfl⟩ := decodeWithin_eq_some_iff.mp hv
    exact ⟨hd, hw, rfl⟩
  · rintro ⟨hd, hw, rfl⟩
    exact ⟨(valueOf xs width, width), decodeWithin_eq_some_iff.mpr ⟨hd, hw, rfl⟩, rfl⟩

/-- Reading finds nothing just if the bytes begin with no numeral of at most ten bytes. -/
theorem decode?_eq_none_iff : decode? xs = none ↔ ∀ width ≤ maxWidth, ¬ Delimits xs width := by
  constructor
  · intro h width hw hd
    have hread := decode?_eq_some_iff.mpr ⟨hd, hw, rfl⟩
    rw [h] at hread
    cases hread
  · intro hno
    cases h : decode? xs with
    | none => rfl
    | some found =>
      obtain ⟨hd, hw, _⟩ := decode?_eq_some_iff.mp h
      exact absurd hd (hno _ hw)

/-! ## Numerals that do not fit -/

/-- Nine groups and the lowest bit of a tenth one fit into a machine word, and no more. -/
theorem bound_le_valueOf_maxWidth (xs : List UInt8) :
    Word.bound ≤ valueOf xs maxWidth ↔ 1 < byteAt xs (maxWidth - 1) % 128 := by
  have hlow := valueOf_lt xs 9
  show Word.bound ≤ valueOf xs (9 + 1) ↔ 1 < byteAt xs 9 % 128
  rw [valueOf_succ]
  unfold Word.bound
  omega

/-- **Only the last of ten groups may not fit.** -/
theorem Delimits.bound_le_valueOf_iff (h : Delimits xs width) (hw : width ≤ maxWidth) :
    Word.bound ≤ valueOf xs width ↔ Surplus xs := by
  unfold Surplus
  rcases Nat.lt_or_eq_of_le hw with hlt | rfl
  · have hshort : valueOf xs width < Word.bound :=
      calc valueOf xs width < 2 ^ (7 * width) := valueOf_lt xs width
        _ ≤ 2 ^ (7 * 9) := Nat.pow_le_pow_right (by omega) (by unfold maxWidth at hlt; omega)
        _ < Word.bound := by decide
    refine iff_of_false (Nat.not_le.mpr hshort) ?_
    rintro ⟨hd, _⟩
    exact absurd (h.unique hd) (Nat.ne_of_lt hlt)
  · rw [bound_le_valueOf_maxWidth, Nat.mod_eq_of_lt h.ended, and_iff_right h]

/-- A numeral that does not fit stands for no machine word. -/
theorem Surplus.not_denotes (h : Surplus xs) : ¬ Denotes xs value width := by
  rintro ⟨hd, hw, rfl, hlt⟩
  exact absurd ((hd.bound_le_valueOf_iff hw).mpr h) (Nat.not_le.mpr hlt)

/-- **What is read.** Reading finds the numeral of at most ten bytes that the bytes begin with, and nothing if there is
none, and replies with what the numeral stands for, modulo the number of machine words. Hence it replies with just the
machine words that such a numeral stands for, unless there is one of ten bytes whose last group does not fit. -/
theorem decode?_denotes_unless_surplus (xs : List UInt8) :
    (∀ value width, decode? xs = some (value, width) ↔
      Delimits xs width ∧ width ≤ maxWidth ∧ value = valueOf xs width % Word.bound) ∧
    (decode? xs = none ↔ ∀ width ≤ maxWidth, ¬ Delimits xs width) ∧
    ((∀ value width, decode? xs = some (value, width) ↔ Denotes xs value width) ↔ ¬ Surplus xs) := by
  refine ⟨fun _ _ => decode?_eq_some_iff, decode?_eq_none_iff, fun h hs => ?_, fun hno value width => ?_⟩
  · have hread := decode?_eq_some_iff.mpr ⟨hs.1, Nat.le_refl _, rfl⟩
    exact hs.not_denotes ((h _ _).mp hread)
  · rw [decode?_eq_some_iff, Denotes]
    refine and_congr_right fun hd => and_congr_right fun hw => ?_
    have hlt : valueOf xs width < Word.bound :=
      Nat.lt_of_not_le fun hle => hno ((hd.bound_le_valueOf_iff hw).mp hle)
    rw [Nat.mod_eq_of_lt hlt]
    exact ⟨fun hv => ⟨hv, hv ▸ hlt⟩, And.left⟩

/-- A numeral of ten bytes that stands for `2 ^ 64 + 12` is not refused, but read as 12. -/
theorem not_denotes_surplus : ∃ xs : List UInt8,
    xs = [0x8c, 0x80, 0x80, 0x80, 0x80, 0x80, 0x80, 0x80, 0x80, 0x02] ∧ Delimits xs maxWidth ∧
      valueOf xs maxWidth = 2 ^ 64 + 12 ∧ decode? xs = some (12, maxWidth) ∧
      (∀ value width, ¬ Denotes xs value width) ∧
      ¬ (decode? xs = some (12, maxWidth) ↔ Denotes xs 12 maxWidth) := by
  let xs : List UInt8 := [0x8c, 0x80, 0x80, 0x80, 0x80, 0x80, 0x80, 0x80, 0x80, 0x02]
  have hs : Surplus xs := by decide
  have hread : decode? xs = some (12, maxWidth) := by decide
  exact ⟨xs, rfl, hs.1, by decide, hread, fun _ _ => hs.not_denotes, fun h => hs.not_denotes (h.mp hread)⟩

end Varint
end BlockRing
