import BlockRing.Word

/-!
# Byte buffers

A buffer is an array of bytes that fits into the address space. A fresh one holds zeros (`get?_allocate`). Reading
and filling a slice check its range. Filling a slice leaves every byte outside of it (`get?_fill_of_lt`,
`get?_fill_of_le`) and makes it read what was written (`get?_fill`).
-/

namespace BlockRing

/-- The largest size that a buffer can be allocated with. -/
def Buffer.maxSize : Nat := (1 <<< 63) - 1

/-- An array of bytes that fits into the address space. -/
structure Buffer where
  bytes : Array UInt8
  size_le : bytes.size ≤ Buffer.maxSize
  deriving DecidableEq

namespace Buffer

/-- The number of bytes. -/
def size (b : Buffer) : Nat := b.bytes.size

/-- The byte at an offset, if the buffer reaches that far. -/
def get? (b : Buffer) (offset : Nat) : Option UInt8 := b.bytes[offset]?

/-- A buffer of `size` zero bytes. -/
def allocate (size : Nat) : Except Fault Buffer :=
  if h : size ≤ maxSize then .ok ⟨Array.replicate size 0, by simpa using h⟩
  else .error .capacityOverflow

/-- The bytes from `offset` on, `limit` of them or as many as there are. -/
def window (b : Buffer) (offset limit : Nat) : List UInt8 := (b.bytes.extract offset (offset + limit)).toList

/-- The bytes from `start` up to `stop`. -/
def slice (b : Buffer) (start stop : Nat) : Except Fault (List UInt8) :=
  if start ≤ stop ∧ stop ≤ b.size then .ok (b.bytes.extract start stop).toList
  else .error (.badSlice start stop b.size)

/-- Writes bytes from an offset on, those that fit. -/
def fill (b : Buffer) : Nat → List UInt8 → Buffer
  | _, [] => b
  | offset, x :: xs =>
    fill ⟨b.bytes.setIfInBounds offset x, by simpa using b.size_le⟩ (offset + 1) xs

/-- Replaces the bytes from `start` up to `stop` by as many others. -/
def replace (b : Buffer) (start stop : Nat) (xs : List UInt8) : Except Fault Buffer :=
  if start ≤ stop ∧ stop ≤ b.size then
    if xs.length = stop - start then .ok (b.fill start xs) else .error (.lengthMismatch (stop - start) xs.length)
  else .error (.badSlice start stop b.size)

theorem size_le_maxSize (b : Buffer) : b.size ≤ maxSize := b.size_le

theorem isSome_get? {b : Buffer} {i : Nat} : (b.get? i).isSome ↔ i < b.size := by
  simp [get?, size]

/-! ## Fresh buffers -/

theorem exists_allocate {n : Nat} : (∃ b, allocate n = .ok b) ↔ n ≤ maxSize := by
  unfold allocate; split <;> simp_all

theorem size_allocate {n : Nat} {b : Buffer} (h : allocate n = .ok b) : b.size = n := by
  unfold allocate at h
  split at h <;> cases h
  simp [size]

/-- A fresh buffer holds zeros. -/
theorem get?_allocate {n : Nat} {b : Buffer} (h : allocate n = .ok b) (i : Nat) :
    b.get? i = if i < n then some 0 else none := by
  unfold allocate at h
  split at h <;> cases h
  simp only [get?, Array.getElem?_replicate]

/-! ## Filling -/

theorem size_fill (b : Buffer) (start : Nat) (xs : List UInt8) : (b.fill start xs).size = b.size := by
  induction xs generalizing b start with
  | nil => rfl
  | cons x xs ih => rw [fill, ih]; simp [size]

theorem get?_fill_of_lt {b : Buffer} {start i : Nat} (xs : List UInt8) (h : i < start) :
    (b.fill start xs).get? i = b.get? i := by
  induction xs generalizing b start with
  | nil => rfl
  | cons x xs ih =>
    rw [fill, ih (by omega)]
    simp only [get?, Array.getElem?_setIfInBounds]
    rw [if_neg (by omega)]

theorem get?_fill_of_le {b : Buffer} {start i : Nat} {xs : List UInt8} (h : start + xs.length ≤ i) :
    (b.fill start xs).get? i = b.get? i := by
  induction xs generalizing b start with
  | nil => rfl
  | cons x xs ih =>
    rw [List.length_cons] at h
    rw [fill, ih (by omega)]
    simp only [get?, Array.getElem?_setIfInBounds]
    rw [if_neg (by omega)]

/-- A filled slice reads what was written. -/
theorem get?_fill {b : Buffer} {start i : Nat} {xs : List UInt8} (hi : i < xs.length)
    (hb : start + xs.length ≤ b.size) : (b.fill start xs).get? (start + i) = xs[i]? := by
  induction xs generalizing b start i with
  | nil => cases hi
  | cons x xs ih =>
    rw [List.length_cons] at hi hb
    rw [fill]
    cases i with
    | zero =>
      rw [get?_fill_of_lt xs (by omega)]
      simp only [size] at hb
      simp only [get?, Nat.add_zero, Array.getElem?_setIfInBounds, if_true, List.getElem?_cons_zero]
      rw [if_pos (by omega)]
    | succ i =>
      rw [show start + (i + 1) = start + 1 + i by omega, ih (by omega) (by simp only [size] at *; simp; omega)]
      rfl

/-! ## Slices -/

/-- Replacing a slice is filling it, wherever that is allowed. -/
theorem eq_fill_of_replace {b c : Buffer} {start stop : Nat} {xs : List UInt8} (h : b.replace start stop xs = .ok c) :
    c = b.fill start xs ∧ start ≤ stop ∧ stop ≤ b.size ∧ xs.length = stop - start := by
  unfold replace at h
  split at h
  · rename_i hr
    split at h
    · rename_i hl
      cases h
      exact ⟨rfl, hr.1, hr.2, hl⟩
    · cases h
  · cases h

theorem size_replace {b c : Buffer} {start stop : Nat} {xs : List UInt8} (h : b.replace start stop xs = .ok c) :
    c.size = b.size := by
  rw [(eq_fill_of_replace h).1, size_fill]

theorem slice_eq_ok {b : Buffer} {start stop : Nat} (h : start ≤ stop) (hb : stop ≤ b.size) :
    b.slice start stop = .ok (b.bytes.extract start stop).toList := if_pos ⟨h, hb⟩

theorem replace_eq_ok {b : Buffer} {start : Nat} {xs : List UInt8} (h : start + xs.length ≤ b.size) :
    b.replace start (start + xs.length) xs = .ok (b.fill start xs) := by
  unfold replace
  rw [if_pos ⟨by omega, h⟩, if_pos (by omega)]

end Buffer
end BlockRing
