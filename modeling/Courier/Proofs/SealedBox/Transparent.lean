import Mathlib
import Courier.Proofs.SealedBox.RoundTrip

/-!
## Transparent boxes

The laws that sealed boxes rely on can be met: here is a choice of primitives that meets them and
keeps no secret. A handshake names the recipient in the clear, and the tag of a message is its
number. What is proved from the laws alone can be seen at work on these boxes.
-/

namespace Courier.Cryptography

/-- The tag of a message is its number, and a handshake is the start of the secret used for it and
the recipient's key, which is its own secret half. -/
abbrev transparent : Cryptography where
  publicKey _ secret := secret
  deriveSecret := Key.ofPadded
  Session := Unit
  initiate p once := (once.bytes.take 16 ++ p.key.bytes, ())
  respond? k hello := if hello.drop 16 = k.secret.bytes then some () else none
  encrypt _ number piece := Bytes.ofNat SealedBox.tagLength number ++ piece
  decrypt? _ number message :=
    if message.take SealedBox.tagLength = Bytes.ofNat SealedBox.tagLength number then
      some (message.drop SealedBox.tagLength)
    else none

theorem lawful_transparent : @Lawful transparent :=
  letI := transparent
  { length_initiate := by
      intro p once
      show (once.bytes.take 16 ++ p.key.bytes).length = 48
      rw [List.length_append, List.length_take, once.length_bytes, p.key.length_bytes]
      rfl
    respond_initiate := by
      intro k once
      have hlen : (once.bytes.take 16).length = 16 := by
        rw [List.length_take, once.length_bytes]
        rfl
      show (if (once.bytes.take 16 ++ k.secret.bytes).drop 16 = k.secret.bytes then some ()
        else none) = some ()
      rw [if_pos (List.drop_left' hlen)]
    length_encrypt := by
      intro _ number piece
      show (Bytes.ofNat 16 number ++ piece).length = piece.length + 16
      rw [List.length_append, Bytes.length_ofNat, Nat.add_comm]
    decrypt_encrypt := by
      intro _ number piece
      have hlen := Bytes.length_ofNat SealedBox.tagLength number
      show (if (Bytes.ofNat SealedBox.tagLength number ++ piece).take SealedBox.tagLength =
          Bytes.ofNat SealedBox.tagLength number then
        some ((Bytes.ofNat SealedBox.tagLength number ++ piece).drop SealedBox.tagLength)
        else none) = some piece
      rw [if_pos (List.take_left' hlen), List.drop_left' hlen] }

end Courier.Cryptography
