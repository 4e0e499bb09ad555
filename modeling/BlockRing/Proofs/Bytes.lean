import BlockRing.Buffer

/-!
# Bytes that two buffers share

- `Agree b c start stop`: the buffers hold the same bytes from `start` up to `stop`. What is read from there is then the
  same in both (`Agree.window_eq`).
- A fill agrees with the old buffer on both sides of what it writes (`agree_fill_before`, `agree_fill_behind`) and reads
  what it wrote (`window_fill`); two fills in a row are one (`fill_append`).
- The bytes of one buffer can be copied to the start of another one (`agree_copy`).
- Numbers of bytes in two buffers add up to a machine word (`add_lt_bound`).
-/

namespace BlockRing
namespace Buffer

/-- The buffers hold the same bytes from `start` up to `stop`. -/
def Agree (b c : Buffer) (start stop : Nat) : Prop := ∀ i, start ≤ i → i < stop → c.get? i = b.get? i

variable {b c : Buffer} {start stop : Nat}

theorem add_lt_bound {m n : Nat} (hm : m ≤ b.size) (hn : n ≤ c.size) : m + n < Word.bound := by
  have h1 := b.size_le_maxSize
  have h2 := c.size_le_maxSize
  unfold maxSize at h1 h2
  unfold Word.bound
  omega

theorem lt_bound {n : Nat} (h : n ≤ b.size) : n < Word.bound := add_lt_bound h (Nat.zero_le b.size)

theorem Agree.mono (h : Agree b c start stop) {start' stop' : Nat} (h1 : start ≤ start') (h2 : stop' ≤ stop) :
    Agree b c start' stop' :=
  fun i hi hs => h i (by omega) (by omega)

/-! ## Windows -/

theorem getElem?_window (b : Buffer) (offset limit i : Nat) :
    (b.window offset limit)[i]? = if i < limit then b.get? (offset + i) else none := by
  unfold window get?
  rw [Array.getElem?_toList, Array.getElem?_extract]
  split
  · rw [if_pos (by omega)]
  · split
    · rw [Array.getElem?_eq_none (by omega)]
    · rfl

theorem length_window (b : Buffer) (offset limit : Nat) :
    (b.window offset limit).length = min limit (b.size - offset) := by
  unfold window size
  rw [Array.length_toList, Array.size_extract]
  omega

theorem take_window (b : Buffer) (offset : Nat) {n limit : Nat} (h : n ≤ limit) :
    (b.window offset limit).take n = b.window offset n := by
  apply List.ext_getElem?
  intro i
  rw [List.getElem?_take, getElem?_window, getElem?_window]
  split
  · rw [if_pos (by omega)]
  · rfl

theorem drop_window (b : Buffer) (offset n limit : Nat) :
    (b.window offset limit).drop n = b.window (offset + n) (limit - n) := by
  apply List.ext_getElem?
  intro i
  rw [List.getElem?_drop, getElem?_window, getElem?_window, show offset + (n + i) = offset + n + i by omega]
  by_cases hi : n + i < limit
  · rw [if_pos hi, if_pos (by omega)]
  · rw [if_neg hi, if_neg (by omega)]

/-- Windows on bytes that agree are equal. -/
theorem Agree.window_eq {limit : Nat} (h : Agree b c start (start + limit)) :
    c.window start limit = b.window start limit := by
  apply List.ext_getElem?
  intro i
  rw [getElem?_window, getElem?_window]
  split
  · exact h (start + i) (by omega) (by omega)
  · rfl

/-! ## Fills -/

theorem agree_fill_before (b : Buffer) (start : Nat) (xs : List UInt8) {n : Nat} (h : n ≤ start) (first : Nat) :
    Agree b (b.fill start xs) first n :=
  fun _ _ hi => get?_fill_of_lt xs (by omega)

theorem agree_fill_behind (b : Buffer) {start n : Nat} {xs : List UInt8} (h : start + xs.length ≤ n) (last : Nat) :
    Agree b (b.fill start xs) n last :=
  fun _ hi _ => get?_fill_of_le (by omega)

/-- A fill reads what it wrote. -/
theorem window_fill {xs : List UInt8} (h : start + xs.length ≤ b.size) :
    (b.fill start xs).window start xs.length = xs := by
  apply List.ext_getElem?
  intro i
  rw [getElem?_window]
  split
  · rename_i hi
    rw [get?_fill hi h]
  · rename_i hi
    exact (List.getElem?_eq_none (by omega)).symm

/-- Two fills in a row are one. -/
theorem fill_append (b : Buffer) (start : Nat) (xs ys : List UInt8) :
    b.fill start (xs ++ ys) = (b.fill start xs).fill (start + xs.length) ys := by
  induction xs generalizing b start with
  | nil => rfl
  | cons x xs ih =>
    rw [List.cons_append, fill, ih, fill, List.length_cons]
    congr 1
    omega

/-! ## Copies -/

/-- A buffer with the bytes of another one below `stop` at its start. -/
def copyInto (b fresh : Buffer) (stop : Nat) : Buffer := fresh.fill 0 (b.window 0 stop)

theorem size_copyInto (b fresh : Buffer) (stop : Nat) : (b.copyInto fresh stop).size = fresh.size := size_fill _ _ _

/-- A copy agrees with the buffer it was made from. -/
theorem agree_copy {fresh : Buffer} (h : stop ≤ b.size) (hf : stop ≤ fresh.size) :
    Agree b (b.copyInto fresh stop) 0 stop := by
  intro i _ hi
  have hl : (b.window 0 stop).length = stop := by rw [length_window]; omega
  have hr : (fresh.fill 0 (b.window 0 stop)).get? (0 + i) = (b.window 0 stop)[i]? := get?_fill (by omega) (by omega)
  rw [Nat.zero_add] at hr
  rw [copyInto, hr, getElem?_window, if_pos hi, Nat.zero_add]

theorem slice_eq_window (h : start ≤ stop) (hb : stop ≤ b.size) :
    b.slice start stop = .ok (b.window start (stop - start)) := by
  rw [slice_eq_ok h hb, window, show start + (stop - start) = stop by omega]

end Buffer
end BlockRing
