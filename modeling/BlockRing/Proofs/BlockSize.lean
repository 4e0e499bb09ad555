import Mathlib.Data.Nat.Find
import Mathlib.Order.Bounds.Defs
import BlockRing.Proofs.Blocks

/-!
# Sizes that count their own header

The header of a block holds the size of the whole block, so this size has to count the bytes that it takes itself. A
total fits a payload if the payload and the header that holds the total fill the block (`Block.Fits`).

- Every payload has a least total that fits, with the shortest header that is wide enough (`exists_isLeast_fits`).
- The size that is computed for a block is never larger than a total that fits (`add_headerWidth_le_of_fits`), and is
  one itself just for payloads below the limit (`fits_add_headerWidth_iff`).
- **So it is the least total that fits for all payloads below the limit, and too small for all others**
  (`sizeFor_isLeast_unless_long`). The first payload at the limit is such a case: its size takes six bytes, and its
  header has five (`not_fits_sizeFor_limit`).
-/

namespace BlockRing
namespace Block

/-- A payload of `length` bytes and the header that holds the total fill a block of `total` bytes. -/
def Fits (length total : Nat) : Prop := total = length + Varint.width total

/-- A header of `width` bytes is wide enough for the size of the block that it makes with the payload. -/
def WideEnough (length width : Nat) : Prop := 0 < width ∧ length + width < 128 ^ width

variable {length total width need : Nat}

/-! ## The shortest header -/

/-- The header in a total that fits is wide enough. -/
theorem Fits.wideEnough (h : Fits length total) : WideEnough length (Varint.width total) := by
  have hpos := Varint.width_pos total
  have hlt := (Varint.width_le_iff (Varint.width total - 1) total).mp (by omega)
  rw [Nat.sub_add_cancel hpos] at hlt
  exact ⟨hpos, h ▸ hlt⟩

/-- The shortest header that is wide enough makes a total that fits. -/
theorem WideEnough.fits (h : WideEnough length width) (hmin : ∀ v < width, ¬ WideEnough length v) :
    Fits length (length + width) := by
  have hle : Varint.width (length + width) ≤ width := by
    have hlt := h.2
    rw [← Nat.sub_add_cancel h.1] at hlt ⊢
    exact (Varint.width_le_iff _ _).mpr hlt
  have hge : ¬ Varint.width (length + width) < width := by
    intro hlt
    have hw := (Varint.width_le_iff (Varint.width (length + width) - 1) (length + width)).mp (by omega)
    rw [Nat.sub_add_cancel (Varint.width_pos _)] at hw
    exact hmin _ hlt ⟨Varint.width_pos _, by omega⟩
  unfold Fits
  omega

/-- Some header is wide enough. -/
theorem exists_wideEnough (length : Nat) : ∃ width, WideEnough length width := by
  refine ⟨length + 1, Nat.succ_pos _, ?_⟩
  calc length + (length + 1) < 7 * (length + 1) := by omega
    _ < 2 ^ (7 * (length + 1)) := Nat.lt_two_pow_self
    _ = 128 ^ (length + 1) := by rw [Nat.pow_mul]

/-- **Every payload has a least total that fits.** -/
theorem exists_isLeast_fits (length : Nat) : ∃ total, IsLeast {total | Fits length total} total := by
  classical
  have hex := exists_wideEnough length
  refine ⟨length + Nat.find hex, (Nat.find_spec hex).fits fun v hv => Nat.find_min hex hv, ?_⟩
  intro total (h : Fits length total)
  have hle := Nat.find_min' hex h.wideEnough
  have ht : total = length + Varint.width total := h
  omega

/-! ## The computed size -/

/-- No header that is wide enough is shorter than the computed one. -/
theorem WideEnough.headerWidth_le (h : WideEnough length width) : headerWidth length ≤ width := by
  obtain ⟨hpos, hlt⟩ := h
  have hmost := (headerWidth_bounds length).2
  refine Nat.le_of_not_lt fun hshort => ?_
  obtain rfl | rfl | rfl | rfl : width = 1 ∨ width = 2 ∨ width = 3 ∨ width = 4 := by omega
  all_goals
    unfold headerWidth at hshort
    grind

/-- The computed size is not larger than any total that fits. -/
theorem add_headerWidth_le_of_fits (h : Fits length total) : length + headerWidth length ≤ total := by
  have hle := h.wideEnough.headerWidth_le
  have ht : total = length + Varint.width total := h
  omega

/-- **The computed size fits just the payloads below the limit.** -/
theorem fits_add_headerWidth_iff : Fits length (length + headerWidth length) ↔ length < Payload.limit := by
  constructor
  · intro h
    refine Nat.lt_of_not_le fun hle => ?_
    have hshort := headerWidth_lt_width hle
    unfold Fits at h
    omega
  · intro h
    rw [Fits, width_add_headerWidth h]

/-- **What is computed as the size of a block.** Where it is a machine word, its number of bytes is what it adds to the
payload just if the payload is below the limit. No smaller total fits, whatever the payload. There always is a least
total that fits: it is this size below the limit, and it is larger from the limit on. -/
theorem sizeFor_isLeast_unless_long (h : sizeFor length = .ok need) :
    ((Varint.encode need).length = need - length ↔ length < Payload.limit) ∧
      (∀ total < need, total ≠ length + (Varint.encode total).length) ∧
      ∃ least, IsLeast {total | Fits length total} least ∧ (length < Payload.limit → need = least) ∧
        (Payload.limit ≤ length → need < least) := by
  obtain rfl := eq_of_sizeFor h
  obtain ⟨least, hfits, hleast⟩ := exists_isLeast_fits length
  have hle := add_headerWidth_le_of_fits hfits
  refine ⟨?_, fun total hlt hfit => ?_, least, ⟨hfits, hleast⟩, fun hshort => ?_, fun hlong => ?_⟩
  · rw [← fits_add_headerWidth_iff, Fits, Varint.width]
    omega
  · have hle : length + headerWidth length ≤ total := add_headerWidth_le_of_fits hfit
    omega
  · exact Nat.le_antisymm hle (hleast (fits_add_headerWidth_iff.mpr hshort))
  · refine Nat.lt_of_le_of_ne hle fun he => ?_
    rw [← he] at hfits
    exact absurd (fits_add_headerWidth_iff.mp hfits) (Nat.not_lt.mpr hlong)

/-- The longest payload with a header of two bytes, and the shortest one with three. -/
theorem sizeFor_isLeast_unless_long_boundary : sizeFor 16381 = .ok 16383 ∧ (Varint.encode 16383).length = 2 ∧
    sizeFor 16382 = .ok 16385 ∧ (Varint.encode 16385).length = 3 ∧
    ∀ total < 16385, total ≠ 16382 + (Varint.encode total).length := by
  obtain ⟨hwidth, _⟩ := sizeFor_isLeast_unless_long (show sizeFor 16381 = .ok 16383 by rfl)
  obtain ⟨hwidth', hleast, _⟩ := sizeFor_isLeast_unless_long (show sizeFor 16382 = .ok 16385 by rfl)
  exact ⟨by rfl, hwidth.mpr (by decide), by rfl, hwidth'.mpr (by decide), hleast⟩

/-- The size of the first payload at the limit takes six bytes where five have been added, and the next larger total is
the least one that fits. -/
theorem not_fits_sizeFor_limit : sizeFor (2 ^ 35 - 5) = .ok (2 ^ 35) ∧ (Varint.encode (2 ^ 35)).length = 6 ∧
    (Varint.encode (2 ^ 35)).length ≠ 2 ^ 35 - (2 ^ 35 - 5) ∧
    IsLeast {total | Fits (2 ^ 35 - 5) total} (2 ^ 35 + 1) := by
  have hwidth : (Varint.encode (2 ^ 35)).length = 6 := (Varint.width_eq_iff (k := 5) (by decide)).mpr (by decide)
  have hnext : Varint.width (2 ^ 35 + 1) = 6 := (Varint.width_eq_iff (k := 5) (by decide)).mpr (by decide)
  have hfits : Fits (2 ^ 35 - 5) (2 ^ 35 + 1) := by
    unfold Fits
    omega
  refine ⟨by rfl, hwidth, by rw [hwidth]; decide, hfits, ?_⟩
  intro total (htotal : Fits (2 ^ 35 - 5) total)
  have hle : 2 ^ 35 ≤ total := add_headerWidth_le_of_fits htotal
  have hne : total ≠ 2 ^ 35 := by
    rintro rfl
    exact absurd (fits_add_headerWidth_iff.mp htotal) (by decide)
  omega

end Block
end BlockRing
