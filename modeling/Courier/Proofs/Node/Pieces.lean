import Mathlib
import Courier.Proofs.Node.Echo
import Courier.Proofs.SealedBox.Transparent

/-!
## The pieces of a content

A channel name is paid for twice: it stands in the clear at the head of every envelope, and again
within the header of a stream. What an envelope has left beside the name is the room for content, and
a content that is longer is cut up for that room: into a header, which must have room for the name
once more, and into chunks, of which only the last may be short.

* `Stream.exists_split_iff`: which contents can be cut up at all.
* `Stream.Sending.isCut`: what they are cut into.
* `pieces_within_room`: every piece that a node forms is within the room, and the room and the name
  make up the envelope.
-/

namespace Courier

namespace Stream

/-- Only a size without room for a payload and a content of too many chunks cannot be cut up. -/
theorem exists_split_iff {content : Bytes} (hne : content ≠ []) (size : Nat)
    (channel : Option String) (stream : UInt32) :
    (∃ ps, split content size channel stream = .ok ps) ↔
      Chunk.headerLength < size ∧
        (content.length + (size - Chunk.headerLength) - 1) / (size - Chunk.headerLength) <
          UInt32.size := by
  have hpos : 0 < content.length := List.length_pos_of_ne_nil hne
  unfold split
  by_cases hsize : size ≤ Chunk.headerLength
  · rw [if_pos hsize]
    exact ⟨nofun, fun h => absurd h.1 (Nat.not_lt.mpr hsize)⟩
  · have hroom : 0 < size - Chunk.headerLength := by omega
    have hcount := Bytes.length_pieces hroom content
    rw [Nat.max_eq_right (Nat.div_pos (by omega) hroom)] at hcount
    rw [if_neg hsize]
    dsimp only
    rw [hcount]
    split
    · rename_i hmany
      exact ⟨nofun, fun h => absurd h.2 (Nat.not_lt.mpr hmany)⟩
    · rename_i hfew
      exact ⟨fun _ => ⟨Nat.not_le.mp hsize, Nat.not_le.mp hfew⟩, fun _ => ⟨_, rfl⟩⟩

/-- A header and chunks that a content is cut into for some room. -/
structure IsCut (content : Bytes) (room : Nat) (h : StreamHeader) (chunks : List Chunk) : Prop where
  total : h.total.toNat = chunks.length
  stream : ∀ c ∈ chunks, c.stream = h.stream
  indices : chunks.map (fun c => c.index.toNat) = List.range chunks.length
  nonempty : ∀ c ∈ chunks, c.payload ≠ []
  /-- All chunks but the last use up the room. -/
  full : ∀ c ∈ chunks.dropLast, c.payload.length = room - Chunk.headerLength
  whole : (chunks.map Chunk.payload).flatten = content

theorem Sending.isCut (s : Sending) (hne : s.content ≠ []) :
    IsCut s.content s.size s.header s.chunks := by
  have hsize := s.split_spec.1
  have hpayloads : s.chunks.map Chunk.payload =
      Bytes.chunks (s.size - Chunk.headerLength) s.content := by
    rw [chunks, map_payload_chunksFrom, payloads, Bytes.pieces, if_neg (by simpa using hne)]
  refine ⟨s.toNat_total, fun c hc => stream_of_mem hc, s.map_toNat_index, fun c hc hnil => ?_,
    fun c hc => ?_, s.flatten_payloads⟩
  · have hmem := List.mem_map_of_mem (f := Chunk.payload) hc
    rw [hpayloads, hnil] at hmem
    exact Bytes.nil_notMem_chunks _ _ hmem
  · have hmem := List.mem_map_of_mem (f := Chunk.payload) hc
    rw [List.map_dropLast, hpayloads] at hmem
    exact Bytes.length_of_mem_dropLast (by omega) hmem

end Stream

namespace Node

/-- A content beyond the room is cut up, if it is at all. -/
theorem exists_isCut_of_pieces {room : Nat} {channel : Option String} {content : Bytes}
    {stream : UInt32} {ps : List Stream.Piece} (hlong : room < content.length)
    (h : pieces content room channel stream = .ok ps) :
    ∃ header chunks, ps = Stream.Piece.ofHeader header :: chunks.map Stream.Piece.ofChunk ∧
      header.stream = stream ∧ header.name = channel.getD "" ∧
      Stream.IsCut content room header chunks := by
  rcases pieces_cases h with ⟨hshort, -⟩ | ⟨s, rfl, rfl, rfl, rfl, rfl⟩
  · exact absurd hshort (Nat.not_le.mpr hlong)
  · exact ⟨s.header, s.chunks, s.pieces_eq, rfl, rfl,
      s.isCut (List.ne_nil_of_length_pos (Nat.zero_lt_of_lt hlong))⟩

variable [Cryptography]

/-- **Every piece keeps within the room that is left beside the name of its channel.** For every chunk
size, no channel or one with a name, and every content: if there is room, it makes up the chunk size
together with the name as it stands in an envelope. A content within the room is one piece. A longer
one is cut up, if the room takes more than the head of a chunk and the chunks can be counted: into a
header with the name and chunks in the order of their indices, none of them empty and all but the last
as long as can be, that make up the content. No piece is longer than the room, and these are the
pieces that a node seals. -/
theorem pieces_within_room {chunkSize room : Nat} {channel : Option String}
    (hname : channel ≠ some "") (hroom : contentRoom chunkSize channel = .ok room)
    (content : Bytes) :
    room + Envelope.nameLength channel = chunkSize ∧
    (∀ stream,
      (content.length ≤ room → pieces content room channel stream = .ok [⟨Flags.none, content⟩]) ∧
      (room < content.length →
        ((∃ ps, pieces content room channel stream = .ok ps) ↔
          Chunk.headerLength < room ∧
            (content.length + (room - Chunk.headerLength) - 1) / (room - Chunk.headerLength) <
              UInt32.size)) ∧
      ∀ ps, pieces content room channel stream = .ok ps →
        (∀ p ∈ ps, p.plaintext.length ≤ room) ∧
        (room < content.length → ∃ header chunks,
          ps = Stream.Piece.ofHeader header :: chunks.map Stream.Piece.ofChunk ∧
            header.stream = stream ∧ header.name = channel.getD "" ∧
            Stream.IsCut content room header chunks)) ∧
    ∀ (n n' : Node) (recipient : PublicKey) (count : Nat), n.chunkSize = chunkSize →
      n.emit recipient channel content = (.ok count, n') →
      ∃ ps sent, pieces content room channel n.entropy.draw32.1 = .ok ps ∧ count = ps.length ∧
        Emits { n with entropy := n.entropy.draw32.2 } recipient channel ps n' sent := by
  refine ⟨(room_of_contentRoom hroom hname).1, fun stream => ⟨fun hshort => if_pos hshort,
    fun hlong => ?_, fun ps hps => ⟨length_plaintext_le hroom hname hps,
      fun hlong => exists_isCut_of_pieces hlong hps⟩⟩, fun n n' recipient count hsize hemit => ?_⟩
  · rw [← Stream.exists_split_iff (List.ne_nil_of_length_pos (Nat.zero_lt_of_lt hlong)) room
      channel stream, pieces, if_neg (Nat.not_le.mpr hlong)]
    cases Stream.split content room channel stream with
    | error e => exact ⟨nofun, nofun⟩
    | ok ps => exact ⟨fun _ => ⟨ps, rfl⟩, fun _ => ⟨ps, rfl⟩⟩
  · obtain ⟨room', ps, sent, hroom', hpieces, hcount, hemits⟩ := emits_pieces hemit
    rw [hsize, hroom] at hroom'
    obtain rfl := Except.ok.inj hroom'
    exact ⟨ps, sent, hpieces, hcount, hemits⟩

omit [Cryptography] in
/-- The longest name that an envelope of forty bytes has room for, and a content of forty. -/
theorem pieces_within_room_longest_name :
    contentRoom 40 (some "harbour-master") = .ok 24 ∧
      24 + Envelope.nameLength (some "harbour-master") = 40 ∧
      ∃ ps header chunks, pieces (List.replicate 40 7) 24 (some "harbour-master") 9 = .ok ps ∧
        ps.map (fun p => p.plaintext.length) = [22, 24, 24, 16] ∧
        (∀ p ∈ ps, p.plaintext.length ≤ 24) ∧
        ps = Stream.Piece.ofHeader header :: chunks.map Stream.Piece.ofChunk ∧
        header.name = "harbour-master" ∧
        Stream.IsCut (List.replicate 40 7) 24 header chunks := by
  have hroom : contentRoom 40 (some "harbour-master") = .ok 24 := by decide +kernel
  have hlong : 24 < (List.replicate 40 (7 : UInt8)).length := by decide
  obtain ⟨hwhole, hpieces, -⟩ := @pieces_within_room Cryptography.transparent 40 24
    (some "harbour-master") (by decide) hroom (List.replicate 40 7)
  obtain ⟨-, hexists, hforms⟩ := hpieces 9
  obtain ⟨ps, hps⟩ := (hexists hlong).mpr (by decide)
  obtain ⟨hfits, hcut⟩ := hforms ps hps
  obtain ⟨header, chunks, hstream, -, hname, hisCut⟩ := hcut hlong
  refine ⟨hroom, hwhole, ps, header, chunks, hps, ?_, hfits, hstream, hname, hisCut⟩
  have hlengths : (pieces (List.replicate 40 7) 24 (some "harbour-master") 9).toOption.map
      (fun ps => ps.map fun p => p.plaintext.length) = some [22, 24, 24, 16] := by decide +kernel
  rw [hps] at hlengths
  exact Option.some.inj hlengths

end Node

end Courier
