import Mathlib
import Courier.Crypto.Noise
import Courier.Proofs.Crypto.Ciphers
import Courier.Proofs.SealedBox.RoundTrip

/-!
## Boxes of the suites in use

For the handshakes and the ciphers of this library, what boxes rely on comes down to key agreement:
that the sender and the recipient arrive at the same point of the curve. Everything else follows from
the lengths of keys and tags and from ciphers that undo themselves.

* `Agree`: two secrets lead to the same point, whichever of them comes first.
* `sound_of_agree`: what one box relies on, if its two secrets agree.
* `lawful_of_agree`: what all boxes rely on, if all secrets agree.
-/

namespace Courier.Crypto.Noise

/-- Either secret times the public half of the other is the same point. -/
def Agree (a b : Key) : Prop :=
  X25519.scalarMult a.bytes.toByteArray (X25519.scalarMultBase b.bytes.toByteArray) =
    X25519.scalarMult b.bytes.toByteArray (X25519.scalarMultBase a.bytes.toByteArray)

theorem lawful_suite (family : KeyFamily) : (suite family).cipher.Lawful := by
  cases family with
  | chacha => exact ChaChaPoly.lawful_cipher
  | aes => exact AesGcm.lawful_cipher

theorem size_finish (family : KeyFamily) (recipient fresh agreed : ByteArray) :
    (finish family recipient fresh agreed).1.size = 16 :=
  (lawful_suite family).size_encrypt _ _ _ _

theorem size_scalarMultBase (scalar : ByteArray) : (X25519.scalarMultBase scalar).size = 32 :=
  X25519.size_scalarMult _ _

theorem toByteArray_publicKey (k : Keypair) :
    k.publicKey.key.bytes.toByteArray = X25519.scalarMultBase k.secret.bytes.toByteArray := by
  show (Key.ofPadded _).bytes.toByteArray = _
  rw [Key.bytes_ofPadded (by rw [Bytes.length_ofByteArray, size_scalarMultBase]),
    Bytes.toByteArray_ofByteArray]

/-- The tag and the session that a sender arrives at. -/
def meet (k : Keypair) (once : Key) : ByteArray × Session :=
  finish k.family (X25519.scalarMultBase k.secret.bytes.toByteArray)
    (X25519.scalarMultBase once.bytes.toByteArray)
    (X25519.scalarMult once.bytes.toByteArray (X25519.scalarMultBase k.secret.bytes.toByteArray))

theorem initiate_eq (k : Keypair) (once : Key) :
    initiate k.publicKey once =
      (Bytes.ofByteArray (X25519.scalarMultBase once.bytes.toByteArray ++ (meet k once).1),
        (meet k once).2) := by
  rw [initiate, toByteArray_publicKey]
  rfl

/-- A recipient accepts a fresh key with the tag that it arrives at itself. -/
theorem respond?_append (k : Keypair) {fresh tag : ByteArray} (hfresh : fresh.size = 32)
    (htag : tag = (finish k.family (X25519.scalarMultBase k.secret.bytes.toByteArray) fresh
      (X25519.scalarMult k.secret.bytes.toByteArray fresh)).1) :
    respond? k (Bytes.ofByteArray (fresh ++ tag)) =
      some (finish k.family (X25519.scalarMultBase k.secret.bytes.toByteArray) fresh
        (X25519.scalarMult k.secret.bytes.toByteArray fresh)).2 := by
  have hfront : (fresh ++ tag).extract 0 32 = fresh :=
    ByteArray.extract_append_eq_left hfresh.symm
  have hback : (fresh ++ tag).extract 32 (fresh ++ tag).size = tag :=
    ByteArray.extract_append_eq_right hfresh.symm ByteArray.size_append
  rw [respond?, Bytes.toByteArray_ofByteArray]
  simp only [hfront, hback]
  exact if_pos (congrArg _ htag)

theorem respond?_initiate {k : Keypair} {once : Key} (h : Agree once k.secret) :
    respond? k (initiate k.publicKey once).1 = some (initiate k.publicKey once).2 := by
  rw [initiate_eq, meet, h]
  exact respond?_append k (size_scalarMultBase _) rfl

theorem length_initiate (recipient : PublicKey) (once : Key) :
    (initiate recipient once).1.length = SealedBox.handshakeLength := by
  rw [initiate, Bytes.length_ofByteArray, ByteArray.size_append, size_scalarMultBase, size_finish]
  rfl

theorem length_encrypt (session : Session) (number : Nat) (piece : Bytes) :
    (Cryptography.encrypt session number piece).length = piece.length + SealedBox.tagLength := by
  show (Bytes.ofByteArray ((suite session.family).cipher.encrypt _ number _ _)).length = _
  rw [Bytes.length_ofByteArray, (lawful_suite session.family).size_encrypt, List.size_toByteArray]
  rfl

theorem decrypt_encrypt (session : Session) (number : Nat) (piece : Bytes) :
    Cryptography.decrypt? session number (Cryptography.encrypt session number piece) =
      some piece := by
  show ((suite session.family).cipher.decrypt? _ number _ (Bytes.ofByteArray
    ((suite session.family).cipher.encrypt _ number _ _)).toByteArray).map _ = _
  rw [Bytes.toByteArray_ofByteArray, (lawful_suite session.family).decrypt_encrypt, Option.map_some,
    Bytes.ofByteArray_toByteArray]

/-- **A box between two secrets that agree has all that it relies on.** -/
theorem sound_of_agree {k : Keypair} {once : Key} (h : Agree once k.secret) :
    SealedBox.Sound k once :=
  ⟨length_initiate _ once, respond?_initiate h, length_encrypt _, decrypt_encrypt _⟩

/-- **All that is proved from the laws holds for the suites in use**, as far as secrets agree. -/
theorem lawful_of_agree (h : ∀ once secret, Agree once secret) : Cryptography.Lawful :=
  ⟨length_initiate, fun k once => respond?_initiate (h once k.secret), length_encrypt,
    decrypt_encrypt⟩

end Courier.Crypto.Noise
