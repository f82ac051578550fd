import Mathlib
import Courier.Bytes.Digits
import Courier.Bytes.Pieces
import Courier.Stream.Reassembly
import Courier.Proofs.Table

/-!
## Streams as they are sent

A content that was split is a header and chunks in the order of their indices, which run from zero
up to the total in the header. Their payloads in a row are the content, and each record reads
back.

* `StreamHeader.decode_encode`, `Chunk.decode_encode`: the records of a stream read back.
* `Sending.pieces_eq`: the pieces of a content.
* `Sending.flatten_payloads`: the payloads in the order of the chunks are the content.
-/

namespace Courier

/-! ### Records read back -/

/-- The four bytes of a number are taken off the front. -/
theorem Bytes.take?_ofNat (n : UInt32) (rest : Bytes) :
    Bytes.take? 4 (Bytes.ofNat 4 n.toNat ++ rest) = some (Bytes.ofNat 4 n.toNat, rest) :=
  Bytes.take?_eq_some_iff.mpr ⟨rfl, Bytes.length_ofNat 4 _⟩

theorem Bytes.toNat_ofNat_uint32 (n : UInt32) : Bytes.toNat (Bytes.ofNat 4 n.toNat) = n.toNat :=
  Bytes.toNat_ofNat (Nat.lt_of_lt_of_le n.toNat_lt (by decide))

/-- A header that announces at least one chunk reads back. -/
theorem StreamHeader.decode_encode {h : StreamHeader} (hpos : h.total ≠ 0) :
    decode h.encode = .ok h := by
  have htotal : h.total.toNat ≠ 0 := fun h0 => hpos (UInt32.toNat_inj.mp h0)
  simp only [decode, encode, Bytes.take?_ofNat, Bytes.toString?_ofString, Bytes.toNat_ofNat_uint32]
  rw [if_neg htotal, UInt32.ofNat_toNat, UInt32.ofNat_toNat]

theorem Chunk.decode_encode (c : Chunk) : decode c.encode = .ok c := by
  simp only [decode, encode, Bytes.take?_ofNat, Bytes.toNat_ofNat_uint32]
  rw [UInt32.ofNat_toNat, UInt32.ofNat_toNat]

namespace Stream

/-! ### Chunks in a row -/

/-- The chunks carry the indices in a row. -/
theorem mem_chunksFrom {stream : UInt32} {index : Nat} {payloads : List Bytes} {c : Chunk}
    (h : c ∈ chunksFrom stream index payloads) :
    c.stream = stream ∧
      ∃ j, index ≤ j ∧ j < index + payloads.length ∧ c.index = UInt32.ofNat j := by
  induction payloads generalizing index with
  | nil => cases h
  | cons payload rest ih =>
    rcases List.mem_cons.mp h with rfl | h
    · exact ⟨rfl, index, Nat.le_refl _, by rw [List.length_cons]; omega, rfl⟩
    · obtain ⟨hs, j, hle, hlt, hj⟩ := ih h
      exact ⟨hs, j, by omega, by rw [List.length_cons]; omega, hj⟩

theorem ofNat_lt_ofNat {i j : Nat} (hij : i < j) (hj : j < UInt32.size) :
    UInt32.ofNat i < UInt32.ofNat j := by
  rw [UInt32.lt_iff_toNat_lt, UInt32.toNat_ofNat_of_lt' (Nat.lt_trans hij hj),
    UInt32.toNat_ofNat_of_lt' hj]
  exact hij

theorem pairwise_chunksFrom {stream : UInt32} {index : Nat} {payloads : List Bytes}
    (h : index + payloads.length ≤ UInt32.size) :
    (chunksFrom stream index payloads).Pairwise fun c d => c.index < d.index := by
  induction payloads generalizing index with
  | nil => exact .nil
  | cons payload rest ih =>
    rw [List.length_cons] at h
    refine List.pairwise_cons.mpr ⟨fun c hc => ?_, ih (by omega)⟩
    obtain ⟨_, j, hle, hlt, hj⟩ := mem_chunksFrom hc
    rw [hj]
    exact ofNat_lt_ofNat hle (by omega)

theorem map_payload_chunksFrom (stream : UInt32) (index : Nat) (payloads : List Bytes) :
    (chunksFrom stream index payloads).map Chunk.payload = payloads := by
  induction payloads generalizing index with
  | nil => rfl
  | cons payload rest ih => rw [chunksFrom, List.map_cons, ih]

theorem map_index_chunksFrom (stream : UInt32) (index : Nat) (payloads : List Bytes) :
    (chunksFrom stream index payloads).map Chunk.index =
      (List.range' index payloads.length).map UInt32.ofNat := by
  induction payloads generalizing index with
  | nil => rfl
  | cons payload rest ih =>
    rw [chunksFrom, List.map_cons, ih, List.length_cons, List.range'_succ, List.map_cons]

/-! ### Sendings -/

/-- A content that was split into a stream. -/
structure Sending where
  content : Bytes
  /-- The longest piece. -/
  size : Nat
  channel : Option String
  stream : UInt32
  pieces : List Piece
  split_eq : split content size channel stream = .ok pieces

namespace Sending

/-- The parts of the content. -/
def payloads (s : Sending) : List Bytes := Bytes.pieces (s.size - Chunk.headerLength) s.content

/-- The header of the stream. -/
def header (s : Sending) : StreamHeader :=
  ⟨s.stream, UInt32.ofNat s.payloads.length, s.channel.getD ""⟩

/-- The chunks of the stream. -/
def chunks (s : Sending) : List Chunk := chunksFrom s.stream 0 s.payloads

/-- What a receiver is to hand on, if the header was opened with a key of some class. -/
def delivery (s : Sending) (mailClass : MailClass) : Delivery :=
  ⟨mailClass, s.header.channel, s.content⟩

/-- A content that was split has chunks within bounds. -/
theorem split_spec (s : Sending) :
    Chunk.headerLength < s.size ∧ s.payloads.length < UInt32.size ∧
      s.pieces = Piece.ofHeader s.header :: s.chunks.map Piece.ofChunk := by
  have h := s.split_eq
  unfold split at h
  split at h
  · cases h
  · rename_i hsize
    dsimp only at h
    split at h
    · cases h
    · rename_i hcount
      exact ⟨Nat.lt_of_not_le hsize, Nat.lt_of_not_le hcount, (Except.ok.inj h).symm⟩

theorem length_payloads_lt (s : Sending) : s.payloads.length < UInt32.size := s.split_spec.2.1

theorem pieces_eq (s : Sending) :
    s.pieces = Piece.ofHeader s.header :: s.chunks.map Piece.ofChunk := s.split_spec.2.2

/-- No piece is both a header and a chunk. -/
theorem flags_of_mem {s : Sending} {p : Piece} (h : p ∈ s.pieces) :
    (p.flags.chunked && p.flags.streamHeader) = false := by
  rw [s.pieces_eq] at h
  rcases List.mem_cons.mp h with rfl | h
  · rfl
  · obtain ⟨c, -, rfl⟩ := List.mem_map.mp h
    rfl

theorem length_chunks (s : Sending) : s.chunks.length = s.payloads.length := by
  have h := congrArg List.length (map_payload_chunksFrom s.stream 0 s.payloads)
  rwa [List.length_map] at h

theorem toNat_total (s : Sending) : s.header.total.toNat = s.chunks.length := by
  rw [length_chunks]
  exact UInt32.toNat_ofNat_of_lt' s.length_payloads_lt

theorem total_ne_zero (s : Sending) : s.header.total ≠ 0 := by
  intro h0
  have hn := s.split_spec.1
  have hlen := Bytes.length_pieces (n := s.size - Chunk.headerLength) (by omega) s.content
  have htotal := s.toNat_total
  rw [h0, length_chunks] at htotal
  have hzero : s.payloads.length = 0 := htotal.symm
  unfold payloads at hzero
  omega

theorem stream_of_mem {s : Sending} {c : Chunk} (h : c ∈ s.chunks) : c.stream = s.stream :=
  (mem_chunksFrom h).1

theorem pairwise_chunks (s : Sending) : s.chunks.Pairwise fun c d => c.index < d.index :=
  pairwise_chunksFrom (by rw [Nat.zero_add]; exact Nat.le_of_lt s.length_payloads_lt)

theorem index_lt_total {s : Sending} {c : Chunk} (h : c ∈ s.chunks) :
    c.index < s.header.total := by
  obtain ⟨_, j, _, hlt, hj⟩ := mem_chunksFrom h
  rw [Nat.zero_add] at hlt
  rw [hj]
  exact ofNat_lt_ofNat hlt s.length_payloads_lt

/-- The indices run from zero up to the total. -/
theorem map_toNat_index (s : Sending) :
    s.chunks.map (fun c => c.index.toNat) = List.range s.chunks.length := by
  have hindex := map_index_chunksFrom s.stream 0 s.payloads
  rw [← List.range_eq_range'] at hindex
  have hcompose : (fun c : Chunk => c.index.toNat) = UInt32.toNat ∘ Chunk.index := rfl
  rw [hcompose, ← List.map_map, chunks, hindex, List.map_map, ← chunks, length_chunks]
  refine (List.map_congr_left fun i hi => ?_).trans (List.map_id _)
  exact UInt32.toNat_ofNat_of_lt' (Nat.lt_trans (List.mem_range.mp hi) s.length_payloads_lt)

theorem flatten_payloads (s : Sending) : (s.chunks.map Chunk.payload).flatten = s.content := by
  rw [chunks, map_payload_chunksFrom]
  exact Bytes.flatten_pieces _ _

theorem nodup_indices (s : Sending) : (s.chunks.map Chunk.index).Nodup :=
  List.pairwise_map.mpr (s.pairwise_chunks.imp fun h => Std.ne_of_lt h)

/-- Chunks of one index are the same. -/
theorem eq_of_index_eq {s : Sending} {c d : Chunk} (hc : c ∈ s.chunks) (hd : d ∈ s.chunks)
    (h : c.index = d.index) : c = d :=
  List.inj_on_of_nodup_map s.nodup_indices hc hd h

end Sending

end Stream

end Courier
