import Mathlib.Algebra.Group.Nat.Defs
import BlockRing.Varint

/-!
# Variable-width numbers, written and read

- A number takes at most `k` bytes exactly if it has at most `7 * k` bits (`width_le_iff`); a machine word takes at most
  ten (`width_le`), so that the array for them is never too short (`header_eq_ok`); and none but 0 takes more bytes than
  it counts (`width_le_self`).
- A written machine word reads back, whatever follows it (`decode?_encode_append`).
- Reading a number needs its own bytes only (`decode?_take`).
-/

namespace BlockRing
namespace Varint

/-! ## Width -/

theorem encode_of_lt {n : Nat} (h : n < 128) : encode n = [UInt8.ofNat n] := by
  rw [encode, if_pos h]

theorem encode_of_le {n : Nat} (h : 128 ≤ n) : encode n = UInt8.ofNat (n % 128 + 128) :: encode (n / 128) := by
  rw [encode, if_neg (by omega)]

theorem width_of_lt {n : Nat} (h : n < 128) : width n = 1 := by
  rw [width, encode_of_lt h]; rfl

theorem width_of_le {n : Nat} (h : 128 ≤ n) : width n = width (n / 128) + 1 := by
  rw [width, encode_of_le h]; rfl

theorem width_pos (n : Nat) : 0 < width n := by
  rcases Nat.lt_or_ge n 128 with h | h
  · rw [width_of_lt h]; omega
  · rw [width_of_le h]; omega

/-- A number takes at most `k` bytes exactly if it has at most `7 * k` bits. -/
theorem width_le_iff (k n : Nat) : width n ≤ k + 1 ↔ n < 128 ^ (k + 1) := by
  induction k generalizing n with
  | zero =>
    rcases Nat.lt_or_ge n 128 with h | h
    · simp [width_of_lt h, h]
    · rw [width_of_le h]
      have := width_pos (n / 128)
      omega
  | succ k ih =>
    rcases Nat.lt_or_ge n 128 with h | h
    · have hp : 128 ^ 1 ≤ 128 ^ (k + 1 + 1) := Nat.pow_le_pow_right (by omega) (by omega)
      rw [width_of_lt h]
      omega
    · rw [width_of_le h, Nat.add_le_add_iff_right, ih, Nat.div_lt_iff_lt_mul (by omega), ← Nat.pow_succ]

/-- A machine word takes at most ten bytes. -/
theorem width_le {n : Nat} (h : n < Word.bound) : width n ≤ maxWidth := by
  refine (width_le_iff 9 n).mpr (Nat.lt_of_lt_of_le h ?_)
  decide

/-- A machine word fits into the array that it is written into. -/
theorem header_eq_ok {n : Nat} (h : n < Word.bound) : header n = .ok (encode n) := if_pos (width_le h)

theorem eq_encode_of_header {n : Nat} {xs : List UInt8} (h : header n = .ok xs) : xs = encode n := by
  unfold header at h
  split at h <;> cases h
  rfl

/-- A number takes no more bytes than it counts. -/
theorem width_le_self : ∀ {n : Nat}, 0 < n → width n ≤ n := by
  intro n
  induction n using Nat.strongRecOn with
  | ind n ih =>
    intro h
    rcases Nat.lt_or_ge n 128 with hn | hn
    · rw [width_of_lt hn]; omega
    · have := ih (n / 128) (by omega) (by omega)
      rw [width_of_le hn]
      omega

/-- The width of a number between two powers of 128. -/
theorem width_eq_iff {k n : Nat} (hk : 0 < k) : width n = k + 1 ↔ 128 ^ k ≤ n ∧ n < 128 ^ (k + 1) := by
  obtain ⟨j, rfl⟩ : ∃ j, k = j + 1 := ⟨k - 1, by omega⟩
  have h1 := width_le_iff (j + 1) n
  have h2 := width_le_iff j n
  omega

/-! ## Reading what was written -/

/-- A number that fits into the limit reads back, whatever follows it. -/
theorem decodeWithin_encode_append {limit n : Nat} (h : width n ≤ limit) (rest : List UInt8) :
    decodeWithin limit (encode n ++ rest) = some (n, width n) := by
  induction limit generalizing n with
  | zero => have := width_pos n; omega
  | succ limit ih =>
    rcases Nat.lt_or_ge n 128 with hn | hn
    · have hb : (UInt8.ofNat n).toNat = n := by simp; omega
      rw [encode_of_lt hn, width_of_lt hn, List.singleton_append, decodeWithin, if_pos (by omega), hb]
    · have hb : (UInt8.ofNat (n % 128 + 128)).toNat = n % 128 + 128 := by simp; omega
      rw [width_of_le hn] at h ⊢
      rw [encode_of_le hn, List.cons_append, decodeWithin, if_neg (by omega), ih (by omega), hb]
      simp only [Option.map_some, Option.some.injEq, Prod.mk.injEq, and_true]
      omega

/-- **A written machine word reads back**, whatever follows it. -/
theorem decode?_encode_append {n : Nat} (h : n < Word.bound) (rest : List UInt8) :
    decode? (encode n ++ rest) = some (n, width n) := by
  rw [decode?, decodeWithin_encode_append (width_le h)]
  simp [Nat.mod_eq_of_lt h]

/-! ## Reading a number from its own bytes -/

/-- What follows a number is never looked at. -/
theorem decodeWithin_append {limit : Nat} {xs : List UInt8} {value width : Nat}
    (h : decodeWithin limit xs = some (value, width)) (rest : List UInt8) :
    decodeWithin limit (xs ++ rest) = some (value, width) := by
  induction limit generalizing xs value width with
  | zero => cases h
  | succ limit ih =>
    cases xs with
    | nil => cases h
    | cons x xs =>
      rw [decodeWithin] at h
      rw [List.cons_append, decodeWithin]
      split at h
      · rename_i hx; rw [if_pos hx, h]
      · rename_i hx
        obtain ⟨⟨v, w⟩, hv, he⟩ := Option.map_eq_some_iff.mp h
        rw [if_neg hx, ih hv, Option.map_some, ← he]

theorem decodeWithin_take {limit : Nat} {xs : List UInt8} {value width : Nat}
    (h : decodeWithin limit xs = some (value, width)) :
    0 < width ∧ width ≤ xs.length ∧ decodeWithin limit (xs.take width) = some (value, width) := by
  induction limit generalizing xs value width with
  | zero => cases h
  | succ limit ih =>
    cases xs with
    | nil => cases h
    | cons x xs =>
      rw [decodeWithin] at h
      split at h
      · rename_i hx
        cases h
        refine ⟨by omega, by simp, ?_⟩
        rw [List.take_succ_cons, decodeWithin, if_pos hx]
      · rename_i hx
        obtain ⟨⟨v, w⟩, hv, he⟩ := Option.map_eq_some_iff.mp h
        obtain ⟨_, hl, ht⟩ := ih hv
        cases he
        refine ⟨by omega, by rw [List.length_cons]; omega, ?_⟩
        rw [List.take_succ_cons, decodeWithin, if_neg hx, ht]
        rfl

/-- A number is read from its own bytes alone. -/
theorem decode?_take {xs : List UInt8} {value width : Nat} (h : decode? xs = some (value, width)) :
    0 < width ∧ width ≤ xs.length ∧
      ∀ ys : List UInt8, ys.take width = xs.take width → decode? ys = some (value, width) := by
  obtain ⟨⟨v, w⟩, hv, he⟩ := Option.map_eq_some_iff.mp h
  cases he
  obtain ⟨hp, hl, ht⟩ := decodeWithin_take hv
  refine ⟨hp, hl, fun ys hy => ?_⟩
  have ha := decodeWithin_append ht (ys.drop width)
  rw [← hy, List.take_append_drop] at ha
  rw [decode?, ha]
  rfl

end Varint
end BlockRing
