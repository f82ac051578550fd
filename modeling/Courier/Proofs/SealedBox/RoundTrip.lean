import Mathlib
import Courier.Bytes.Pieces
import Courier.SealedBox

/-!
## Sealed boxes open again

What a box relies on is that a handshake sets up the same session at both ends, that messages of a
session read back under their numbers, and that both have the lengths by which a box is cut up
again. From this alone, the key pair that a box is made for finds in it what was put there,
however long.

* `Sound`: what one box relies on, and `Sound.open?_close`: it opens again.
* `open?_close`: opening undoes closing.
* `length_close`: a box has the predicted length.
-/

namespace Courier

/-- What sealed boxes rely on. -/
class Cryptography.Lawful [Cryptography] : Prop where
  length_initiate (p : PublicKey) (once : Key) :
    (Cryptography.initiate p once).1.length = SealedBox.handshakeLength
  /-- Both ends of a handshake hold the same session. -/
  respond_initiate (k : Keypair) (once : Key) :
    Cryptography.respond? k (Cryptography.initiate k.publicKey once).1 =
      some (Cryptography.initiate k.publicKey once).2
  length_encrypt (s : Cryptography.Session) (number : Nat) (piece : Bytes) :
    (Cryptography.encrypt s number piece).length = piece.length + SealedBox.tagLength
  /-- A message reads back under its number. -/
  decrypt_encrypt (s : Cryptography.Session) (number : Nat) (piece : Bytes) :
    Cryptography.decrypt? s number (Cryptography.encrypt s number piece) = some piece

namespace SealedBox

theorem minLength_le_sealedLength (n : Nat) : minLength ≤ sealedLength n := by
  have hseg : 1 ≤ segmentCount n := Nat.le_max_left _ _
  have htag : tagLength ≤ segmentCount n * tagLength := Nat.le_mul_of_pos_left _ hseg
  rw [sealedLength, minLength]
  omega

variable [Cryptography]

/-- What one box relies on: both ends come to the same session, whose messages are as much longer than
their content as a tag is, and read back under their numbers. -/
structure Sound (k : Keypair) (once : Key) : Prop where
  length_hello : (Cryptography.initiate k.publicKey once).1.length = handshakeLength
  respond : Cryptography.respond? k (Cryptography.initiate k.publicKey once).1 =
    some (Cryptography.initiate k.publicKey once).2
  length_encrypt : ∀ number piece,
    (Cryptography.encrypt (Cryptography.initiate k.publicKey once).2 number piece).length =
      piece.length + tagLength
  decrypt_encrypt : ∀ number piece,
    Cryptography.decrypt? (Cryptography.initiate k.publicKey once).2 number
      (Cryptography.encrypt (Cryptography.initiate k.publicKey once).2 number piece) = some piece

theorem Sound.of_lawful [Cryptography.Lawful] (k : Keypair) (once : Key) : Sound k once :=
  ⟨Cryptography.Lawful.length_initiate _ once, Cryptography.Lawful.respond_initiate k once,
    Cryptography.Lawful.length_encrypt _, Cryptography.Lawful.decrypt_encrypt _⟩

section Messages

variable {session : Cryptography.Session}
  (hlength : ∀ number piece, (Cryptography.encrypt session number piece).length =
    piece.length + tagLength)
  (hopens : ∀ number piece, Cryptography.decrypt? session number
    (Cryptography.encrypt session number piece) = some piece)

include hlength

/-- Messages of a session are as long as their pieces and a tag for each. -/
theorem length_encryptAll (number : Nat) (pieces : List Bytes) :
    (encryptAll session number pieces).length =
      pieces.flatten.length + pieces.length * tagLength := by
  induction pieces generalizing number with
  | nil => simp [encryptAll]
  | cons piece rest ih =>
    rw [encryptAll, List.length_append, ih, hlength, List.flatten_cons, List.length_append,
      List.length_cons, Nat.succ_mul]
    omega

include hopens

theorem decryptAll_encrypt_cons (number : Nat) (piece : Bytes) (rest : List Bytes) :
    decryptAll session number (Cryptography.encrypt session number piece :: rest) =
      (decryptAll session (number + 1) rest).map (piece ++ ·) := by
  rw [decryptAll, if_neg (by rw [hlength]; omega), hopens]

theorem decryptAll_chunks_encryptAll (number : Nat) (content : Bytes) :
    decryptAll session number (Bytes.chunks maxSegment
      (encryptAll session number (Bytes.chunks maxSegmentContent content))) = .ok content := by
  induction hn : content.length using Nat.strong_induction_on generalizing number content with
  | _ n ih =>
  by_cases hne : content = []
  · subst hne
    simp [Bytes.chunks, encryptAll, decryptAll]
  · have hpos : 0 < content.length := List.length_pos_of_ne_nil hne
    have hm : 0 < maxSegmentContent := by decide
    have hmax : maxSegment = maxSegmentContent + tagLength := rfl
    -- The first message is full unless it is the last one.
    have hcut : (Cryptography.encrypt session number (content.take maxSegmentContent)).length =
          maxSegment ∨
        Cryptography.encrypt session number (content.take maxSegmentContent) ≠ [] ∧
          (Cryptography.encrypt session number (content.take maxSegmentContent)).length ≤
            maxSegment ∧
          encryptAll session (number + 1)
            (Bytes.chunks maxSegmentContent (content.drop maxSegmentContent)) = [] := by
      have hlen := hlength number (content.take maxSegmentContent)
      rw [List.length_take] at hlen
      rcases Nat.lt_or_ge content.length maxSegmentContent with hlt | hge
      · right
        refine ⟨List.ne_nil_of_length_pos (by omega), by omega, ?_⟩
        rw [List.drop_of_length_le (by omega), Bytes.chunks, encryptAll]
      · left
        omega
    rw [Bytes.chunks_of_ne_nil hm hne, encryptAll, Bytes.chunks_append (by decide) hcut,
      decryptAll_encrypt_cons hlength hopens,
      ih _ (by rw [List.length_drop]; omega) (number + 1) _ rfl, Except.map,
      List.take_append_drop]

theorem decryptAll_encryptAll_pieces (content : Bytes) :
    decryptAll session 0 (Bytes.chunks maxSegment
      (encryptAll session 0 (Bytes.pieces maxSegmentContent content))) = .ok content := by
  unfold Bytes.pieces
  split
  · rename_i hempty
    have hnil : content = [] := List.isEmpty_iff.mp hempty
    set sealed := Cryptography.encrypt session 0 ([] : Bytes)
    have hlen : sealed.length = tagLength := by
      have h := hlength 0 ([] : Bytes)
      rwa [List.length_nil, Nat.zero_add] at h
    have hne : sealed ≠ [] := List.ne_nil_of_length_pos (by rw [hlen]; decide)
    have hle : sealed.length ≤ maxSegment := by
      rw [hlen]
      decide
    have hcut : Bytes.chunks maxSegment (sealed ++ []) = sealed :: Bytes.chunks maxSegment [] :=
      Bytes.chunks_append (by decide) (.inr ⟨hne, hle, rfl⟩)
    rw [encryptAll, encryptAll, hcut, decryptAll_encrypt_cons hlength hopens, Bytes.chunks,
      decryptAll, hnil]
    rfl
  · exact decryptAll_chunks_encryptAll hlength hopens 0 content

end Messages

/-- A box has the predicted length where its handshake and its messages have theirs. -/
theorem length_close_of {recipient : PublicKey} {once : Key} (content : Bytes)
    (hhello : (Cryptography.initiate recipient once).1.length = handshakeLength)
    (hlength : ∀ number piece,
      (Cryptography.encrypt (Cryptography.initiate recipient once).2 number piece).length =
        piece.length + tagLength) :
    (close recipient once content).length = sealedLength content.length := by
  rw [close, List.length_append, hhello, length_encryptAll hlength, Bytes.flatten_pieces,
    Bytes.length_pieces (by decide), sealedLength, segmentCount]
  omega

/-- **A box opens to what was put there**, where it can rely on its handshake and its messages. -/
theorem Sound.open?_close {k : Keypair} {once : Key} (h : Sound k once) (content : Bytes) :
    open? k (close k.publicKey once content) = .ok (some content) := by
  have hlen : minLength ≤ (close k.publicKey once content).length := by
    rw [length_close_of content h.length_hello h.length_encrypt]
    exact minLength_le_sealedLength content.length
  have hsession : session? k (close k.publicKey once content) =
      .ok (some (Cryptography.initiate k.publicKey once).2) := by
    rw [session?, if_neg (by omega), close, List.take_left' h.length_hello, h.respond]
  rw [open?, hsession]
  simp only [close, List.drop_left' h.length_hello,
    decryptAll_encryptAll_pieces h.length_encrypt h.decrypt_encrypt]
  rfl

variable [Cryptography.Lawful]

/-- A box has the predicted length. -/
theorem length_close (recipient : PublicKey) (once : Key) (content : Bytes) :
    (close recipient once content).length = sealedLength content.length :=
  length_close_of content (Cryptography.Lawful.length_initiate recipient once)
    (Cryptography.Lawful.length_encrypt _)

theorem minLength_le_length_close (recipient : PublicKey) (once : Key) (content : Bytes) :
    minLength ≤ (close recipient once content).length := by
  rw [length_close]
  exact minLength_le_sealedLength content.length

/-- **Opening undoes closing.** -/
theorem open?_close (k : Keypair) (once : Key) (content : Bytes) :
    open? k (close k.publicKey once content) = .ok (some content) :=
  (Sound.of_lawful k once).open?_close content

end SealedBox

end Courier
