import Courier.Cryptography
import Courier.Crypto.AesGcm
import Courier.Crypto.Blake3
import Courier.Crypto.ChaChaPoly
import Courier.Crypto.Hkdf
import Courier.Crypto.X25519

/-!
## One-way handshakes

The pattern `N` of the Noise protocol framework over Curve25519: the sender makes a fresh key,
agrees with the recipient's static key, and authenticates an empty payload under the result. Both
ends hash the same transcript, and split the chaining key into the key of the numbered messages.

The message is the fresh public key and a tag of 16 bytes.
-/

namespace Courier.Crypto.Noise

/-- The name of a suite, its hash and its cipher. -/
structure Suite where
  name : String
  hash : Hash
  cipher : Aead

/-- The suite of each key family. -/
def suite : KeyFamily → Suite
  | .chacha => ⟨"Noise_N_25519_ChaChaPoly_BLAKE2s", .blake2s, ChaChaPoly.cipher⟩
  | .aes => ⟨"Noise_N_25519_AESGCM_SHA256", .sha256, AesGcm.cipher⟩

/-- What both ends know after the handshake. -/
structure Session where
  family : KeyFamily
  key : ByteArray

/-- The hash of the transcript once the recipient's key is known: the name filled up with zeros, an
empty prologue, and the key. -/
def transcript (s : Suite) (recipient : ByteArray) : ByteArray :=
  let name := s.name.toByteArray
  s.hash.digest (s.hash.digest (name ++ zeros (32 - name.size)) ++ recipient)

/-- The tag over the empty payload and the session, given the fresh public key and the agreed
secret. -/
def finish (family : KeyFamily) (recipient fresh agreed : ByteArray) : ByteArray × Session :=
  let s := suite family
  let name := s.name.toByteArray
  let hashed := s.hash.digest (transcript s recipient ++ fresh)
  -- The chain starts from the name, which is at most as long as a digest.
  let (chaining, key) := s.hash.deriveTwo (name ++ zeros (32 - name.size)) agreed
  let tag := s.cipher.encrypt key 0 hashed ByteArray.empty
  (tag, ⟨family, (s.hash.deriveTwo chaining ByteArray.empty).1⟩)

/-- The handshake message to a recipient and its session. -/
def initiate (recipient : PublicKey) (once : Key) : Bytes × Session :=
  let key := recipient.key.bytes.toByteArray
  let secret := once.bytes.toByteArray
  let fresh := X25519.scalarMultBase secret
  let (tag, session) := finish recipient.family key fresh (X25519.scalarMult secret key)
  (Bytes.ofByteArray (fresh ++ tag), session)

/-- The session of a handshake message, if its tag is the one this recipient arrives at. -/
def respond? (k : Keypair) (message : Bytes) : Option Session :=
  let received := message.toByteArray
  let secret := k.secret.bytes.toByteArray
  let fresh := received.extract 0 32
  let (tag, session) := finish k.family (X25519.scalarMultBase secret) fresh
    (X25519.scalarMult secret fresh)
  if (received.extract 32 received.size).data = tag.data then some session else none

/-- The context of secrets drawn from passphrases. -/
def passphraseContext : String := "waypost 2026-01 channel passphrase key"

/-- Key agreement on Curve25519, passphrases through BLAKE3, and the handshakes of this module. -/
instance cryptography : Cryptography where
  publicKey _ secret :=
    Key.ofPadded (Bytes.ofByteArray (X25519.scalarMultBase secret.bytes.toByteArray))
  deriveSecret material :=
    Key.ofPadded (Bytes.ofByteArray (Blake3.deriveKey passphraseContext material.toByteArray))
  Session := Session
  initiate := initiate
  respond? := respond?
  encrypt session number plain :=
    Bytes.ofByteArray ((suite session.family).cipher.encrypt session.key number ByteArray.empty
      plain.toByteArray)
  decrypt? session number message :=
    ((suite session.family).cipher.decrypt? session.key number ByteArray.empty
      message.toByteArray).map Bytes.ofByteArray

end Courier.Crypto.Noise
