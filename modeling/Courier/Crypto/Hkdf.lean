import Courier.Crypto.Blake2s
import Courier.Crypto.Sha256

/-!
## Hash functions and derived keys

A hash with blocks of 64 bytes and digests of 32, its keyed form, and the two keys that a handshake
draws from a chaining key and some fresh material.
-/

namespace Courier.Crypto

/-- A hash function with blocks of 64 bytes and digests of 32 bytes. -/
structure Hash where
  /-- The digest of a message. -/
  digest : ByteArray → ByteArray

namespace Hash

/-- SHA-256. -/
def sha256 : Hash := ⟨Sha256.hash⟩

/-- BLAKE2s with 32-byte digests. -/
def blake2s : Hash := ⟨Blake2s.hash⟩

/-- Every byte of a key block combined with a mask. -/
def masked (block : ByteArray) (mask : UInt8) : ByteArray :=
  Nat.fold 64 (fun i _ out => out.push (byteAt block i ^^^ mask)) (ByteArray.emptyWithCapacity 64)

/-- The keyed digest of a message, for a key of at most 64 bytes. -/
def keyed (h : Hash) (key message : ByteArray) : ByteArray :=
  h.digest (masked key 0x5c ++ h.digest (masked key 0x36 ++ message))

/-- The two keys drawn from a chaining key and input material. -/
def deriveTwo (h : Hash) (chaining material : ByteArray) : ByteArray × ByteArray :=
  let extracted := h.keyed chaining material
  let first := h.keyed extracted (ByteArray.empty.push 1)
  (first, h.keyed extracted (first.push 2))

end Hash

end Courier.Crypto
