import Mathlib
import Courier.Proofs.SealedBox.Transparent

/-!
## Boxes for somebody else

A handshake names its addressee in a way that only the addressee can make out. Where this holds, a
box tells every other key pair that it is not meant for it, whatever is in it.

* `open?_close_of_ne`: no other key pair opens a box.
* `Cryptography.labelled`: boxes that bear the key of their addressee.
-/

namespace Courier

/-- Nobody but its addressee answers a handshake. -/
class Cryptography.Addressed [Cryptography] : Prop where
  respond_initiate_of_ne {k : Keypair} {p : PublicKey} (once : Key) (h : p ≠ k.publicKey) :
    Cryptography.respond? k (Cryptography.initiate p once).1 = none

namespace SealedBox

/-- A box is not meant for any other key pair. -/
theorem open?_close_of_ne [Cryptography] [Cryptography.Lawful] [Cryptography.Addressed]
    {k : Keypair} {p : PublicKey} (h : p ≠ k.publicKey) (once : Key) (content : Bytes) :
    open? k (close p once content) = .ok none := by
  have hlen := minLength_le_length_close p once content
  have hhello := Cryptography.Lawful.length_initiate p once
  have hsession : session? k (close p once content) = .ok none := by
    rw [session?, if_neg (by omega), close, List.take_left' hhello,
      Cryptography.Addressed.respond_initiate_of_ne once h]
  rw [open?, hsession]

end SealedBox

theorem PublicKey.toBytes_injective {p q : PublicKey} (h : p.toBytes = q.toBytes) : p = q := by
  have hread := p.ofBytes_toBytes
  rw [h, q.ofBytes_toBytes] at hread
  exact (Except.ok.inj hread).symm

theorem PublicKey.length_toBytes (p : PublicKey) : p.toBytes.length = 33 := by
  rw [toBytes, List.length_cons, p.key.length_bytes]

namespace Cryptography

/-- Boxes like the transparent ones, but whose handshake also tells the family of the key. -/
abbrev labelled : Cryptography :=
  { transparent with
    initiate := fun p once => (once.bytes.take 15 ++ p.toBytes, ())
    respond? := fun k hello =>
      if hello.drop 15 = PublicKey.toBytes ⟨k.family, k.secret⟩ then some () else none }

theorem length_take_bytes (once : Key) : (once.bytes.take 15).length = 15 := by
  rw [List.length_take, once.length_bytes]
  rfl

theorem lawful_labelled : @Lawful labelled :=
  letI := labelled
  { length_initiate := by
      intro p once
      show (once.bytes.take 15 ++ p.toBytes).length = 48
      rw [List.length_append, length_take_bytes, p.length_toBytes]
    respond_initiate := by
      intro k once
      show (if (once.bytes.take 15 ++ PublicKey.toBytes ⟨k.family, k.secret⟩).drop 15 =
          PublicKey.toBytes ⟨k.family, k.secret⟩ then some () else none) = some ()
      rw [if_pos (List.drop_left' (length_take_bytes once))]
    length_encrypt := @Lawful.length_encrypt transparent lawful_transparent
    decrypt_encrypt := @Lawful.decrypt_encrypt transparent lawful_transparent }

theorem addressed_labelled : @Addressed labelled :=
  letI := labelled
  { respond_initiate_of_ne := by
      intro k p once h
      show (if (once.bytes.take 15 ++ p.toBytes).drop 15 =
          PublicKey.toBytes ⟨k.family, k.secret⟩ then some () else none) = none
      rw [List.drop_left' (length_take_bytes once), if_neg]
      exact fun hbytes => h (PublicKey.toBytes_injective hbytes) }

end Cryptography

end Courier
