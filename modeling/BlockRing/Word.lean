import BlockRing.Fault

/-!
# Machine words

Offsets, sizes and counts are natural numbers below `2 ^ 64`. Sums and differences are either checked, and stop with a
fault where they leave that range (`add_eq_ok`, `sub_eq_ok`), or saturate at its largest number (`addSat`, `doubleSat`).
-/

namespace BlockRing
namespace Word

/-- The number of machine words. -/
def bound : Nat := 1 <<< 64

/-- The largest machine word. -/
def largest : Nat := bound - 1

/-- The sum, where it is a machine word. -/
def add (a b : Nat) : Except Fault Nat :=
  if a + b < bound then .ok (a + b) else .error .addOverflow

/-- The difference, where it is not negative. -/
def sub (a b : Nat) : Except Fault Nat :=
  if b ≤ a then .ok (a - b) else .error .subOverflow

/-- The sum, or the largest machine word if the sum is larger. -/
def addSat (a b : Nat) : Nat := min (a + b) largest

/-- Twice the number, or the largest machine word if that is larger. -/
def doubleSat (a : Nat) : Nat := min (2 * a) largest

theorem add_eq_ok {a b : Nat} (h : a + b < bound) : add a b = .ok (a + b) := if_pos h

theorem add_eq_error {a b : Nat} (h : bound ≤ a + b) : add a b = .error .addOverflow :=
  if_neg (Nat.not_lt.mpr h)

theorem sub_eq_ok {a b : Nat} (h : b ≤ a) : sub a b = .ok (a - b) := if_pos h

theorem sub_eq_error {a b : Nat} (h : a < b) : sub a b = .error .subOverflow :=
  if_neg (Nat.not_le.mpr h)

/-- A saturating sum is exact below the largest machine word. -/
theorem addSat_eq {a b : Nat} (h : a + b < bound) : addSat a b = a + b := by
  unfold addSat largest; omega

/-- A saturating double is exact below the largest machine word. -/
theorem doubleSat_eq {a : Nat} (h : 2 * a < bound) : doubleSat a = 2 * a := by
  unfold doubleSat largest; omega

end Word
end BlockRing
