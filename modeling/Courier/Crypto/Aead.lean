import Courier.Crypto.Word

/-!
## Authenticated encryption

An authenticated cipher turns a plaintext into a ciphertext and a tag of 16 bytes over it and some
associated data. This module holds what such ciphers share.
-/

namespace Courier.Crypto

/-- An authenticated cipher with keys of 32 bytes, numbered messages and tags of 16 bytes. -/
structure Aead where
  /-- The ciphertext of a plaintext, followed by the tag. -/
  encrypt : (key : ByteArray) → (number : Nat) → (associated plaintext : ByteArray) → ByteArray
  /-- The plaintext of a ciphertext and its tag, if the tag is right. -/
  decrypt? : (key : ByteArray) → (number : Nat) → (associated sealed : ByteArray) → Option ByteArray

namespace Aead

/-- The length of a tag. -/
def tagSize : Nat := 16

/-- Appends zeros up to a multiple of 16 bytes. -/
def padded (a : ByteArray) : ByteArray := a ++ zeros ((16 - a.size % 16) % 16)

/-- A cipher from a key stream, which combines with plaintext and ciphertext alike, and a tag over
associated data and ciphertext. -/
def ofStream (stream : ByteArray → Nat → ByteArray → ByteArray)
    (tag : ByteArray → Nat → ByteArray → ByteArray → ByteArray) : Aead where
  encrypt key number associated plaintext :=
    let body := stream key number plaintext
    body ++ tag key number associated body
  decrypt? key number associated sealed :=
    if sealed.size < tagSize then none
    else
      let n := sealed.size - tagSize
      let body := sealed.extract 0 n
      if (sealed.extract n sealed.size).data = (tag key number associated body).data then
        some (stream key number body)
      else none

end Aead

end Courier.Crypto
