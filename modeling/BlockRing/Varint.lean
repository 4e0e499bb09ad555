import BlockRing.Word

/-!
# Variable-width numbers

A number is written in groups of seven bits, the least significant first; every byte but the last has its high bit set.
`encode` writes the fewest groups, and `header` writes them into an array of ten bytes. `decode?` reads at most ten
bytes and reports how many it took, so that what follows a number is never looked at.
-/

namespace BlockRing
namespace Varint

/-- The most bytes that a machine word takes. -/
def maxWidth : Nat := 10

/-- The groups of a number, the least significant first. -/
def encode (n : Nat) : List UInt8 :=
  if n < 128 then [UInt8.ofNat n] else UInt8.ofNat (n % 128 + 128) :: encode (n / 128)

/-- The number of bytes of a written number. -/
def width (n : Nat) : Nat := (encode n).length

/-- Writes a number into an array of `maxWidth` bytes, of which it returns those that the number takes. A number that
takes more runs over the end of the array. -/
def header (n : Nat) : Except Fault (List UInt8) :=
  if width n ≤ maxWidth then .ok (encode n) else .error (.badIndex maxWidth maxWidth)

/-- Reads a number of at most `limit` bytes, with its width; nothing if the bytes or the limit end before it does. -/
def decodeWithin : Nat → List UInt8 → Option (Nat × Nat)
  | 0, _ => none
  | _, [] => none
  | limit + 1, x :: xs =>
    if x.toNat < 128 then some (x.toNat, 1)
    else (decodeWithin limit xs).map fun (value, width) => (x.toNat % 128 + 128 * value, width + 1)

/-- Reads a machine word, with its width. Ten groups hold more bits than a machine word has; the surplus is dropped. -/
def decode? (xs : List UInt8) : Option (Nat × Nat) :=
  (decodeWithin maxWidth xs).map fun (value, width) => (value % Word.bound, width)

end Varint
end BlockRing
