import Courier.Envelope

/-!
## Splitting content into streams

Content that does not fit one envelope travels as a stream: a header that announces the number of
chunks, and the chunks, each in an envelope of its own.

* `StreamError.message`: the wording of what can go wrong with streams.
* `split`: the header and the chunks of a content.
-/

namespace Courier

/-- What can go wrong with streams. -/
inductive StreamError
  /-- There is no transport to take the size of envelopes from. -/
  | noTransports
  /-- The frames of a transport leave no room for content. -/
  | limitTooSmall (limit : Nat)
  /-- A chunk of this size has no room for a payload. -/
  | sizeTooSmall (size : Nat)
  /-- There are more chunks than a header can announce. -/
  | tooManyChunks
  | wire (error : WireError)
deriving DecidableEq, Repr

namespace Stream

/-- What sealing and framing may add to the plaintext of an envelope. -/
def reserve : Nat := 1024

end Stream

/-- The wording of the error. -/
def StreamError.message : StreamError → String
  | .noTransports => "no transports attached"
  | .limitTooSmall limit =>
    "transport byte limit " ++ toString limit ++ " is at or below the " ++
      toString Stream.reserve ++ "-byte crypto reserve"
  | .sizeTooSmall size => "chunk size " ++ toString size ++ " cannot hold the chunk header"
  | .tooManyChunks => "content needs more than u32::MAX chunks"
  | .wire error => error.message

namespace Stream

/-- The longest plaintext of an envelope that every transport carries, given the longest frame of
each. -/
def chunkSize (limits : List Nat) : Except StreamError Nat :=
  match limits.min? with
  | none => .error .noTransports
  | some limit => if limit ≤ reserve then .error (.limitTooSmall limit) else .ok (limit - reserve)

/-- A plaintext and the flags of its envelope. -/
structure Piece where
  flags : Flags
  plaintext : Bytes
deriving DecidableEq

/-- The piece that announces a stream. -/
def Piece.ofHeader (h : StreamHeader) : Piece := ⟨⟨false, false, true⟩, h.encode⟩

/-- The piece that carries a chunk. -/
def Piece.ofChunk (c : Chunk) : Piece := ⟨⟨false, true, false⟩, c.encode⟩

/-- The chunks of a stream with the given payloads, the first of them with the given index. -/
def chunksFrom (stream : UInt32) : (index : Nat) → List Bytes → List Chunk
  | _, [] => []
  | index, payload :: rest =>
    ⟨stream, UInt32.ofNat index, payload⟩ :: chunksFrom stream (index + 1) rest

/-- The header and the chunks of a content, in pieces of at most `size` bytes. -/
def split (content : Bytes) (size : Nat) (channel : Option String) (stream : UInt32) :
    Except StreamError (List Piece) :=
  if size ≤ Chunk.headerLength then .error (.sizeTooSmall size)
  else
    -- Even an empty content has one chunk, since no header may announce none.
    let payloads := Bytes.pieces (size - Chunk.headerLength) content
    if UInt32.size ≤ payloads.length then .error .tooManyChunks
    else
      let header : StreamHeader := ⟨stream, UInt32.ofNat payloads.length, channel.getD ""⟩
      .ok (Piece.ofHeader header :: (chunksFrom stream 0 payloads).map Piece.ofChunk)

end Stream

end Courier
