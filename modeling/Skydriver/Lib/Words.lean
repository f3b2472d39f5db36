import Mathlib

/-!
# Fixed-width lengths

What wrapping 64-bit arithmetic computes when a range is cut into pieces of one length: inside the range nothing wraps.
-/

namespace Words

theorem toNat_min (left right : UInt64) : (min left right).toNat = min left.toNat right.toNat := by
  change (if left ≤ right then left else right).toNat = _
  split_ifs with h
  · rw [Nat.min_eq_left (UInt64.le_iff_toNat_le.mp h)]
  · rw [UInt64.le_iff_toNat_le] at h
    rw [Nat.min_eq_right (by omega)]

theorem toNat_min32 (left right : UInt32) : (min left right).toNat = min left.toNat right.toNat := by
  change (if left ≤ right then left else right).toNat = _
  split_ifs with h
  · rw [Nat.min_eq_left (UInt32.le_iff_toNat_le.mp h)]
  · rw [UInt32.le_iff_toNat_le] at h
    rw [Nat.min_eq_right (by omega)]

theorem toNat_max (left right : UInt64) : (max left right).toNat = max left.toNat right.toNat := by
  change (if left ≤ right then right else left).toNat = _
  split_ifs with h
  · rw [Nat.max_eq_right (UInt64.le_iff_toNat_le.mp h)]
  · rw [UInt64.le_iff_toNat_le] at h
    rw [Nat.max_eq_left (by omega)]

/-- A piece taken from the rest of a range ends inside the range. -/
theorem blockLength_spec (blockBytes : UInt64) {sizeBytes offset : UInt64} (h : offset < sizeBytes) :
    (min blockBytes (sizeBytes - offset)).toNat = min blockBytes.toNat (sizeBytes.toNat - offset.toNat) ∧
      (offset + min blockBytes (sizeBytes - offset)).toNat =
        offset.toNat + min blockBytes.toNat (sizeBytes.toNat - offset.toNat) := by
  rw [UInt64.lt_iff_toNat_lt] at h
  have hlength : (min blockBytes (sizeBytes - offset)).toNat =
      min blockBytes.toNat (sizeBytes.toNat - offset.toNat) := by
    rw [toNat_min, UInt64.toNat_sub_of_le _ _ (UInt64.le_iff_toNat_le.mpr h.le)]
  have hbound := sizeBytes.toNat_lt
  refine ⟨hlength, ?_⟩
  rw [UInt64.toNat_add, hlength, Nat.mod_eq_of_lt]
  omega

/-- Past a piece of positive length, less of the range is left. -/
theorem rest_lt {sizeBytes blockBytes offset : UInt64} (hblock : blockBytes ≠ 0) (h : offset < sizeBytes) :
    sizeBytes.toNat - (offset + min blockBytes (sizeBytes - offset)).toNat < sizeBytes.toNat - offset.toNat := by
  have hnext := (blockLength_spec blockBytes h).2
  have hpositive : 0 < blockBytes.toNat := by
    rw [Nat.pos_iff_ne_zero, ne_eq, ← UInt64.toNat_zero, UInt64.toNat_inj]
    exact hblock
  rw [UInt64.lt_iff_toNat_lt] at h
  omega

end Words
