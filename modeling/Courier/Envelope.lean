import Courier.Record
import Courier.SealedBox

/-!
## Envelopes

An envelope is a byte of flags, the name of a channel if the flags say so, and a sealed box. Relays
read and replace the name without opening the box. What is inside the box is either plain content or
one of two records by which longer content travels in parts: a stream header, or a chunk.
-/

namespace Courier

/-! ### Errors -/

/-- Why bytes are no envelope or record, or none can be written. -/
inductive WireError
  | truncated
  | reservedFlags (bits : UInt8)
  | conflictingFlags (bits : UInt8)
  | channelNameUtf8
  | emptyChannelName
  | channelNameTooLong (length : Nat)
  | emptyStream
deriving DecidableEq, Repr

/-- The wording of the error. -/
def WireError.message : WireError → String
  | .truncated => "truncated record"
  | .reservedFlags bits => "reserved flag bits set: " ++ Hex.literal bits
  | .conflictingFlags bits => "CHUNKED and STREAM_HEADER both set: " ++ Hex.literal bits
  | .channelNameUtf8 => "channel name is not valid UTF-8"
  | .emptyChannelName => "channel flag set with an empty channel name"
  | .channelNameTooLong length => "channel name too long (" ++ toString length ++ " bytes)"
  | .emptyStream => "stream header declares zero chunks"

/-! ### Flags -/

/-- What the first byte of an envelope says. -/
structure Flags where
  /-- A channel name follows, and the box is sealed to the channel. -/
  channel : Bool
  /-- The box holds a chunk. -/
  chunked : Bool
  /-- The box holds a stream header. -/
  streamHeader : Bool
deriving DecidableEq, Repr, Inhabited

namespace Flags

/-- No flag. -/
def none : Flags := ⟨false, false, false⟩

/-- Whether the box holds a part of a stream. -/
def isPart (f : Flags) : Bool := f.chunked || f.streamHeader

/-- The byte of the flags. -/
def bits (f : Flags) : UInt8 :=
  (if f.channel then 1 else 0) ||| (if f.chunked then 2 else 0) |||
    (if f.streamHeader then 4 else 0)

/-- Flags that may stand in an envelope: a box holds a chunk or a header, not both. -/
def check (f : Flags) : Except WireError Flags :=
  if f.chunked && f.streamHeader then .error (.conflictingFlags f.bits) else .ok f

/-- The flags in a byte. The upper five bits are reserved. -/
def ofBits (b : UInt8) : Except WireError Flags :=
  if b &&& 0xf8 ≠ 0 then .error (.reservedFlags b)
  else check ⟨b &&& 1 ≠ 0, b &&& 2 ≠ 0, b &&& 4 ≠ 0⟩

@[simp] theorem ofBits_bits (f : Flags) : ofBits f.bits = f.check := by
  obtain ⟨channel, chunked, streamHeader⟩ := f
  cases channel <;> cases chunked <;> cases streamHeader <;> rfl

end Flags

/-! ### Envelopes -/

/-- An envelope whose box stays closed. The channel is present exactly when the flags say so. -/
structure Envelope where
  flags : Flags
  channel : Option String
  ciphertext : Bytes
deriving DecidableEq

/-- What tells envelopes apart: the start of the sealed box, which is fresh for every box. -/
abbrev Fingerprint := Bytes

/-- The length of a fingerprint. -/
def fingerprintLength : Nat := 16

/-- The most bytes that a channel name in an envelope takes. -/
def maxChannelName : Nat := 65535

namespace Envelope

/-- The channel name of two length bytes and as many bytes of text, and the bytes after it. -/
def parseName (bs : Bytes) : Except WireError (String × Bytes) :=
  match Bytes.take? 2 bs with
  | none => .error .truncated
  | some (length, rest) =>
    match Bytes.take? (Bytes.toNat length) rest with
    | none => .error .truncated
    | some (raw, rest) =>
      match Bytes.toString? raw with
      | none => .error .channelNameUtf8
      | some name => if name.isEmpty then .error .emptyChannelName else .ok (name, rest)

/-- The envelope that a byte string writes. -/
def parse (bs : Bytes) : Except WireError Envelope :=
  match bs with
  | [] => .error .truncated
  | b :: rest =>
    match Flags.ofBits b with
    | .error e => .error e
    | .ok flags =>
      if flags.channel then
        (parseName rest).map fun (name, rest) => ⟨flags, some name, rest⟩
      else .ok ⟨flags, none, rest⟩

/-- The first bytes of the box. -/
def fingerprint (e : Envelope) : Except WireError Fingerprint :=
  if e.ciphertext.length < fingerprintLength then .error .truncated
  else .ok (e.ciphertext.take fingerprintLength)

/-- The bytes before the box. The channel flag follows the channel. -/
def header (flags : Flags) (channel : Option String) : Except WireError Bytes :=
  match Flags.check { flags with channel := channel.isSome } with
  | .error e => .error e
  | .ok flags =>
    match channel with
    | none => .ok [flags.bits]
    | some name =>
      let length := name.utf8ByteSize
      if name.isEmpty then .error .emptyChannelName
      else if maxChannelName < length then .error (.channelNameTooLong length)
      else .ok (flags.bits :: (Bytes.ofNat 2 length ++ Bytes.ofString name))

/-- The envelope in another channel, or in none: the other flags and the box stay as they are. -/
def retag (bs : Bytes) (channel : Option String) : Except WireError Bytes := do
  let e ← parse bs
  let header ← header e.flags channel
  return header ++ e.ciphertext

/-- The length that the header of a channel adds to an envelope. -/
def nameLength : Option String → Nat
  | none => 0
  | some name => 2 + name.utf8ByteSize

/-- The length of an envelope around `n` bytes of plaintext. -/
def length (n : Nat) (channel : Option String) : Nat :=
  1 + nameLength channel + SealedBox.sealedLength n

variable [Cryptography]

/-- The envelope around a plaintext that only the recipient can open. -/
def close (plaintext : Bytes) (recipient : PublicKey) (once : Key) (flags : Flags)
    (channel : Option String) : Except WireError Bytes := do
  let header ← header flags channel
  return header ++ SealedBox.close recipient once plaintext

end Envelope

/-! ### Parts of streams -/

/-- What announces a stream of chunks. -/
structure StreamHeader where
  stream : UInt32
  /-- The number of chunks. -/
  total : UInt32
  /-- The name of the channel, empty for private mail. -/
  name : String
deriving DecidableEq

namespace StreamHeader

/-- Eight bytes of numbers and the name. -/
def encode (h : StreamHeader) : Bytes :=
  Bytes.ofNat 4 h.stream.toNat ++ (Bytes.ofNat 4 h.total.toNat ++ Bytes.ofString h.name)

/-- The header that a byte string writes. -/
def decode (bs : Bytes) : Except WireError StreamHeader :=
  match Bytes.take? 4 bs with
  | none => .error .truncated
  | some (stream, rest) =>
    match Bytes.take? 4 rest with
    | none => .error .truncated
    | some (total, raw) =>
      match Bytes.toString? raw with
      | none => .error .channelNameUtf8
      | some name =>
        if Bytes.toNat total = 0 then .error .emptyStream
        else .ok ⟨UInt32.ofNat (Bytes.toNat stream), UInt32.ofNat (Bytes.toNat total), name⟩

/-- The channel of the stream, if it has one. -/
def channel (h : StreamHeader) : Option String := if h.name.isEmpty then none else some h.name

end StreamHeader

/-- One part of a stream. -/
structure Chunk where
  stream : UInt32
  /-- The place of the part, counted from zero. -/
  index : UInt32
  payload : Bytes
deriving DecidableEq

namespace Chunk

/-- The length of what precedes the payload. -/
def headerLength : Nat := 8

/-- Eight bytes of numbers and the payload. -/
def encode (c : Chunk) : Bytes :=
  Bytes.ofNat 4 c.stream.toNat ++ (Bytes.ofNat 4 c.index.toNat ++ c.payload)

/-- The chunk that a byte string writes. -/
def decode (bs : Bytes) : Except WireError Chunk :=
  match Bytes.take? 4 bs with
  | none => .error .truncated
  | some (stream, rest) =>
    match Bytes.take? 4 rest with
    | none => .error .truncated
    | some (index, payload) =>
      .ok ⟨UInt32.ofNat (Bytes.toNat stream), UInt32.ofNat (Bytes.toNat index), payload⟩

end Chunk

end Courier
