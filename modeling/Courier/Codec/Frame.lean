import Courier.Codec.Varint

/-!
## Frames

On a stream of bytes every call and every answer is preceded by its length. A frame carries at most
64 MiB.

* `decode_encode`: a frame is split off whatever follows it.
-/

namespace Courier.Frame

/-- The longest record that a frame carries. -/
def maxLength : Nat := 64 * 1024 * 1024

/-- A record with its length in front. -/
def encode (record : Bytes) : Except CodecError Bytes :=
  if maxLength < record.length then .error (.frameTooLarge record.length)
  else .ok (Varint.encode record.length ++ record)

/-- The record of the frame that some bytes start with, and the bytes after the frame. -/
def decode (bs : Bytes) : Except CodecError (Bytes × Bytes) :=
  match Varint.decode bs with
  | .error .inputTooShort => .error .needMore
  | .error e => .error e
  | .ok (length, rest) =>
    if maxLength < length then .error (.frameTooLarge length)
    else match Bytes.take? length rest with
      | none => .error .needMore
      | some split => .ok split

theorem decode_encode {record frame : Bytes} (h : encode record = .ok frame) (rest : Bytes) :
    decode (frame ++ rest) = .ok (record, rest) := by
  unfold encode at h
  split at h
  · cases h
  · rename_i hle
    cases h
    have hlt : record.length < UInt64.size := by unfold maxLength at hle; unfold UInt64.size; omega
    have ht : Bytes.take? record.length (record ++ rest) = some (record, rest) :=
      Bytes.take?_eq_some_iff.2 ⟨rfl, rfl⟩
    simp [decode, Varint.decode_encode hlt, hle, ht]

/-- A frame takes at least one byte. -/
theorem length_lt_of_decode {bs record rest : Bytes} (h : decode bs = .ok (record, rest)) :
    rest.length < bs.length := by
  unfold decode at h
  split at h
  · cases h
  · cases h
  · rename_i length left hv
    split at h
    · cases h
    · split at h
      · cases h
      · rename_i split ht
        cases h
        obtain ⟨rfl, -⟩ := Bytes.take?_eq_some_iff.1 ht
        have := Varint.length_lt_of_decodeWithin hv
        rw [List.length_append] at this
        omega

/-- Splits off every whole frame. The answer holds the records, the bytes left, and why no further
frame could be split off. -/
def decodeAll (bs : Bytes) : List Bytes × Bytes × CodecError :=
  match _h : decode bs with
  | .error e => ([], bs, e)
  | .ok (record, rest) =>
    let (records, left, e) := decodeAll rest
    (record :: records, left, e)
termination_by bs.length
decreasing_by exact length_lt_of_decode ‹_›

end Courier.Frame
