import Mathlib
import Courier.SealedBox

/-!
## Lengths of sealed boxes

How many messages a content takes, and that a longer content never makes a shorter box.

* `segmentCount_le_iff`: the contents that fit a number of messages.
* `sealedLength_mono`, `overhead_mono`: boxes and what sealing adds grow with the content.
* `sealedLength_lt_size_iff`: the contents whose boxes have a length of 64 bits.
-/

namespace Courier.SealedBox

/-- The contents that fit `m` messages. -/
theorem segmentCount_le_iff {n m : Nat} (hm : 0 < m) :
    segmentCount n ≤ m ↔ n ≤ m * maxSegmentContent := by
  have hroom : 0 < maxSegmentContent := by decide
  rw [segmentCount, max_le_iff, Nat.div_le_iff_le_mul_add_pred hroom,
    Nat.mul_comm maxSegmentContent m]
  omega

theorem segmentCount_pos (n : Nat) : 0 < segmentCount n := Nat.le_max_left _ _

theorem lt_segmentCount_iff {n m : Nat} (hm : 0 < m) :
    m < segmentCount n ↔ m * maxSegmentContent < n := by
  rw [← Nat.not_le, segmentCount_le_iff hm, Nat.not_le]

theorem segmentCount_mono {a b : Nat} (h : a ≤ b) : segmentCount a ≤ segmentCount b := by
  rw [segmentCount_le_iff (segmentCount_pos b)]
  exact Nat.le_trans h ((segmentCount_le_iff (segmentCount_pos b)).mp (Nat.le_refl _))

theorem sealedLength_mono {a b : Nat} (h : a ≤ b) : sealedLength a ≤ sealedLength b := by
  have htags := Nat.mul_le_mul_right tagLength (segmentCount_mono h)
  unfold sealedLength
  omega

/-- The longest content whose box has a length of 64 bits. -/
def maxWord : Nat := 18442240405361655743

/-- The next byte after the longest content makes the box one byte too long. -/
theorem sealedLength_lt_size_iff {n : Nat} : sealedLength n < UInt64.size ↔ n ≤ maxWord := by
  have hlast : sealedLength maxWord + 1 = UInt64.size := by decide
  have hnext : sealedLength (maxWord + 1) = UInt64.size := by decide
  constructor
  · intro h
    by_contra hlt
    have hmono := sealedLength_mono (Nat.not_le.mp hlt)
    rw [hnext] at hmono
    omega
  · intro h
    have hmono := sealedLength_mono h
    omega

/-- Full messages are all of the same length. -/
theorem sealedLength_mul {m : Nat} (hm : 0 < m) :
    sealedLength (m * maxSegmentContent) = handshakeLength + m * maxSegment := by
  have hle : segmentCount (m * maxSegmentContent) ≤ m :=
    (segmentCount_le_iff hm).mpr (Nat.le_refl _)
  have hge : m * maxSegmentContent ≤ segmentCount (m * maxSegmentContent) * maxSegmentContent :=
    (segmentCount_le_iff (segmentCount_pos _)).mp (Nat.le_refl _)
  have hcount := Nat.le_antisymm hle (Nat.le_of_mul_le_mul_right hge (by decide))
  have hmax : maxSegment = maxSegmentContent + tagLength := rfl
  rw [sealedLength, hcount, hmax, Nat.mul_add]
  omega

/-- What sealing adds are the handshake and a tag for each message. -/
theorem overhead_eq (n : Nat) : overhead n = handshakeLength + segmentCount n * tagLength := by
  rw [overhead, sealedLength]
  omega

theorem overhead_mono {a b : Nat} (h : a ≤ b) : overhead a ≤ overhead b := by
  have htags := Nat.mul_le_mul_right tagLength (segmentCount_mono h)
  rw [overhead_eq, overhead_eq]
  omega

end Courier.SealedBox
