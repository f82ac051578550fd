import Mathlib
import Courier.Proofs.Crypto.Handshake
import Courier.Proofs.SealedBox.Length

/-!
## Boxes of every size

A content is cut into pieces of 65519 bytes and a box into messages of 65535. The two cuts fall in the
same places whatever the length of the content, so that a box opens to what was put there and its
length follows from that of the content. The lengths are those of machine words: no sum in them
overflows as long as the content is one that can be held in memory.

* `sealedLength_strictMono`: no two lengths of contents lead to the same length of a box.
* `sealedLength_lt_size`: the lengths of boxes are machine words.
* `close_every_size`: a box of any size, and how its size grows.
-/

namespace Courier.SealedBox

/-- The longest content there can be in memory, where offsets are signed words. -/
def maxContent : Nat := 2 ^ 63 - 1

theorem sealedLength_strictMono : StrictMono sealedLength := by
  intro a b hlt
  have htags := Nat.mul_le_mul_right tagLength (segmentCount_mono (Nat.le_of_lt hlt))
  unfold sealedLength
  omega

theorem sealedLength_lt_size {n : Nat} (h : n ≤ maxContent) : sealedLength n < UInt64.size := by
  have hmax : maxContent ≤ maxWord := by decide
  exact Iff.mpr sealedLength_lt_size_iff (Nat.le_trans h hmax)

/-- **A box has the predicted length and opens to what was put there, whatever the size.** The
predicted length grows with every byte and stays a machine word for all that can be sealed, and what
sealing adds never shrinks. -/
theorem close_every_size [Cryptography] :
    (∀ (k : Keypair) (once : Key) (content : Bytes), Sound k once →
      (close k.publicKey once content).length = sealedLength content.length ∧
        open? k (close k.publicKey once content) = .ok (some content)) ∧
      StrictMono sealedLength ∧ Monotone overhead ∧
      ∀ n ≤ maxContent, sealedLength n < UInt64.size := by
  refine ⟨fun k once content h => ⟨?_, h.open?_close content⟩, sealedLength_strictMono, ?_, ?_⟩
  · exact length_close_of content h.length_hello h.length_encrypt
  · exact fun a b hle => overhead_mono hle
  · exact fun n hn => sealedLength_lt_size hn

/-- The key pair of a family whose secret is a one and zeros. -/
def plainKeys (family : KeyFamily) : Keypair := ⟨family, Key.ofPadded [1]⟩

/-- Boxes of the suites in use, around nothing and around exactly two full messages. -/
theorem close_every_size_noise :
    (close (plainKeys .chacha).publicKey (Key.ofPadded [2]) []).length = 64 ∧
      open? (plainKeys .chacha) (close (plainKeys .chacha).publicKey (Key.ofPadded [2]) []) =
        .ok (some []) ∧
      (close (plainKeys .aes).publicKey (Key.ofPadded [2])
        (List.replicate (2 * maxSegmentContent) 7)).length = 48 + 2 * maxSegment ∧
      open? (plainKeys .aes) (close (plainKeys .aes).publicKey (Key.ofPadded [2])
        (List.replicate (2 * maxSegmentContent) 7)) =
        .ok (some (List.replicate (2 * maxSegmentContent) 7)) := by
  have hagree : Crypto.Noise.Agree (Key.ofPadded [2]) (Key.ofPadded [1]) := by
    unfold Crypto.Noise.Agree
    decide +kernel
  obtain ⟨hlength, hopen⟩ := close_every_size.1 (plainKeys .chacha) (Key.ofPadded [2]) []
    (Crypto.Noise.sound_of_agree hagree)
  obtain ⟨hlength', hopen'⟩ := close_every_size.1 (plainKeys .aes) (Key.ofPadded [2])
    (List.replicate (2 * maxSegmentContent) 7) (Crypto.Noise.sound_of_agree hagree)
  refine ⟨hlength, hopen, ?_, hopen'⟩
  rw [hlength', List.length_replicate, sealedLength_mul (by decide), handshakeLength]

end Courier.SealedBox
