import Courier.Cryptography

/-!
## Sealed boxes

A sealed box can be opened with one key pair and no other. It is a handshake message of 48 bytes
followed by the content in numbered messages of at most 65535 bytes, each 16 bytes longer than what
it carries. An empty content is one empty message, so that every box is authenticated to its end.

* `sealedLength`: the size of a box is a function of the size of its content alone.
-/

namespace Courier

namespace SealedBox

/-! ### Sizes -/

/-- The length of the handshake message. -/
def handshakeLength : Nat := 48

/-- The length that sealing adds to each message. -/
def tagLength : Nat := 16

/-- The longest message after the handshake. -/
def maxSegment : Nat := 65535

/-- The longest content of one message. -/
def maxSegmentContent : Nat := maxSegment - tagLength

/-- The length of the shortest box: a handshake and an empty message. -/
def minLength : Nat := handshakeLength + tagLength

/-- The number of messages that a content of `n` bytes takes. -/
def segmentCount (n : Nat) : Nat := max 1 ((n + maxSegmentContent - 1) / maxSegmentContent)

/-- The length of a box around `n` bytes. -/
def sealedLength (n : Nat) : Nat := handshakeLength + n + segmentCount n * tagLength

/-- What sealing adds to `n` bytes. -/
def overhead (n : Nat) : Nat := sealedLength n - n

/-! ### Closing and opening -/

/-- Why a box that should open does not. -/
inductive OpenError
  /-- The box is shorter than any box can be. -/
  | tooShort (length : Nat)
  /-- The box is meant for this key, but a message in it is damaged. -/
  | corrupt
deriving DecidableEq, Repr

/-- The wording of the error. -/
def OpenError.message : OpenError → String
  | .tooShort length => "sealed box too short (" ++ toString length ++ " bytes)"
  | .corrupt => "sealed box body failed authentication"

variable [Cryptography]

open Cryptography (Session)

/-- The messages of a session that carry the given pieces, one after the other, the first of them
with the given number. -/
def encryptAll (session : Session) : (number : Nat) → List Bytes → Bytes
  | _, [] => []
  | number, piece :: rest =>
    Cryptography.encrypt session number piece ++ encryptAll session (number + 1) rest

/-- The contents of the given messages joined, the first of them with the given number. -/
def decryptAll (session : Session) : (number : Nat) → List Bytes → Except OpenError Bytes
  | _, [] => .ok []
  | number, message :: rest =>
    if message.length < tagLength then .error .corrupt
    else match Cryptography.decrypt? session number message with
      | none => .error .corrupt
      | some piece => (decryptAll session (number + 1) rest).map (piece ++ ·)

/-- The box around a content that only the recipient can open. The secret `once` is used for this
box alone. -/
def close (recipient : PublicKey) (once : Key) (content : Bytes) : Bytes :=
  let (hello, session) := Cryptography.initiate recipient once
  hello ++ encryptAll session 0 (Bytes.pieces maxSegmentContent content)

/-- The session of a box, if it is meant for this key pair. -/
def session? (k : Keypair) (sealed : Bytes) : Except OpenError (Option Session) :=
  if sealed.length < minLength then .error (.tooShort sealed.length)
  else .ok (Cryptography.respond? k (sealed.take handshakeLength))

/-- Whether a box is meant for this key pair, by its handshake alone. -/
def isFor (k : Keypair) (sealed : Bytes) : Except OpenError Bool :=
  (session? k sealed).map Option.isSome

/-- The content of a box, or nothing if it is not meant for this key pair. -/
def open? (k : Keypair) (sealed : Bytes) : Except OpenError (Option Bytes) :=
  match session? k sealed with
  | .error e => .error e
  | .ok none => .ok none
  | .ok (some session) =>
    (decryptAll session 0 (Bytes.chunks maxSegment (sealed.drop handshakeLength))).map some

end SealedBox

end Courier
