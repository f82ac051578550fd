import Mathlib
import Courier.Proofs.SealedBox.Length
import Courier.Proofs.SealedBox.Transparent

/-!
## Boxes that are cut short

The messages of a box are numbered, and none opens unless it is as it was written. But nothing in a
box says how many messages there are. So a cut is noticed wherever it leaves a part of a message, and
only there: a box that is cut behind a whole message opens to the front of its content.

* `Ideal`: what is assumed of the primitives, for one box.
* `decryptAll_take`: what becomes of messages that are cut short.
* `open?_take`: what becomes of a box that is cut short.
* `open?_take_eq_some_iff`: the cuts that go unnoticed.
-/

namespace Courier.SealedBox

section Cut

variable [Cryptography]

/-- From a number on, a session opens what was written in it and nothing else: under each number
the one message that carries the piece with that number. -/
def Genuine (session : Cryptography.Session) (number : Nat) (pieces : List Bytes) : Prop :=
  ∀ i message piece, Cryptography.decrypt? session (number + i) message = some piece ↔
    pieces[i]? = some piece ∧ message = Cryptography.encrypt session (number + i) piece

/-- What is assumed of the primitives for one box: both ends come to the same session, whose messages
are as much longer than their content as a tag is, and nothing opens in it but the messages of the
box, each under its number. -/
structure Ideal (k : Keypair) (once : Key) (content : Bytes) : Prop where
  length_hello : (Cryptography.initiate k.publicKey once).1.length = handshakeLength
  respond : Cryptography.respond? k (Cryptography.initiate k.publicKey once).1 =
    some (Cryptography.initiate k.publicKey once).2
  length_encrypt : ∀ number piece,
    (Cryptography.encrypt (Cryptography.initiate k.publicKey once).2 number piece).length =
      piece.length + tagLength
  genuine : Genuine (Cryptography.initiate k.publicKey once).2 0
    (Bytes.pieces maxSegmentContent content)

theorem Genuine.tail {session : Cryptography.Session} {number : Nat} {piece : Bytes}
    {rest : List Bytes} (h : Genuine session number (piece :: rest)) :
    Genuine session (number + 1) rest := by
  intro i message piece'
  have hnext := h (i + 1) message piece'
  rwa [List.getElem?_cons_succ, show number + (i + 1) = number + 1 + i by omega] at hnext

/-- The first message opens. -/
theorem Genuine.decrypt_head {session : Cryptography.Session} {number : Nat} {piece : Bytes}
    {rest : List Bytes} (h : Genuine session number (piece :: rest)) :
    Cryptography.decrypt? session number (Cryptography.encrypt session number piece) =
      some piece :=
  (h 0 _ piece).mpr ⟨rfl, rfl⟩

/-- Nothing opens in place of the first message. -/
theorem Genuine.decrypt_of_ne {session : Cryptography.Session} {number : Nat} {piece : Bytes}
    {rest : List Bytes} (h : Genuine session number (piece :: rest)) {message : Bytes}
    (hne : message ≠ Cryptography.encrypt session number piece) :
    Cryptography.decrypt? session number message = none := by
  cases hopen : Cryptography.decrypt? session number message with
  | none => rfl
  | some piece' =>
    obtain ⟨hpiece, hmessage⟩ := (h 0 message piece').mp hopen
    obtain rfl := Option.some.inj hpiece
    exact absurd hmessage hne

/-- A part of the first message is told to be corrupt. -/
theorem decryptAll_part {session : Cryptography.Session} {number : Nat} {piece : Bytes}
    {rest : List Bytes} (h : Genuine session number (piece :: rest)) {part : Bytes}
    (hpos : part ≠ []) (hle : part.length ≤ maxSegment)
    (hne : part ≠ Cryptography.encrypt session number piece) :
    decryptAll session number (Bytes.chunks maxSegment part) = .error .corrupt := by
  have hchunk := Bytes.chunks_append (by decide : 0 < maxSegment) (.inr ⟨hpos, hle, rfl⟩)
  rw [List.append_nil] at hchunk
  rw [hchunk, decryptAll, h.decrypt_of_ne hne]
  split <;> rfl

/-- **Messages that are cut short.** Behind whole messages a cut leaves what they carry; any other
cut leaves a part of a message, which is corrupt. -/
theorem decryptAll_take {session : Cryptography.Session}
    (hlength : ∀ number piece, (Cryptography.encrypt session number piece).length =
      piece.length + tagLength)
    {number : Nat} {content : Bytes} (cut : Nat)
    (h : Genuine session number (Bytes.chunks maxSegmentContent content))
    (hcut : cut < (encryptAll session number (Bytes.chunks maxSegmentContent content)).length) :
    decryptAll session number (Bytes.chunks maxSegment
        ((encryptAll session number (Bytes.chunks maxSegmentContent content)).take cut)) =
      if cut % maxSegment = 0 then .ok (content.take (cut / maxSegment * maxSegmentContent))
      else .error .corrupt := by
  induction hn : content.length using Nat.strong_induction_on generalizing number content cut with
  | _ n ih =>
  by_cases hne : content = []
  · subst hne
    simp [Bytes.chunks, encryptAll] at hcut
  have hpos : 0 < content.length := List.length_pos_of_ne_nil hne
  have hmax : maxSegment = maxSegmentContent + tagLength := rfl
  have htag : 0 < tagLength := by decide
  have hroom : 0 < maxSegmentContent := by decide
  rw [Bytes.chunks_of_ne_nil (by decide) hne, encryptAll] at hcut ⊢
  rw [Bytes.chunks_of_ne_nil (by decide) hne] at h
  set first := Cryptography.encrypt session number (content.take maxSegmentContent) with hfirst
  have hlen := hlength number (content.take maxSegmentContent)
  rw [← hfirst, List.length_take] at hlen
  rcases Nat.lt_or_ge cut first.length with hlt | hge
  · -- The cut falls into the first message, or before it.
    rw [List.take_append_of_le_length hlt.le]
    rcases Nat.eq_zero_or_pos cut with rfl | hcutPos
    · simp [Bytes.chunks, decryptAll]
    · have hpart : (first.take cut).length = cut := by
        rw [List.length_take]
        omega
      have hmod : cut % maxSegment = cut := Nat.mod_eq_of_lt (by omega)
      rw [hmod, if_neg (by omega)]
      refine decryptAll_part h (List.ne_nil_of_length_pos (by omega)) (by omega) ?_
      intro heq
      rw [heq, ← hfirst] at hpart
      omega
  · -- What follows the first message is not empty, so the message is full.
    rw [List.length_append] at hcut
    have hfull : first.length = maxSegment := by
      rcases Nat.lt_or_ge maxSegmentContent content.length with hlt | hle
      · omega
      · rw [List.drop_of_length_le hle, Bytes.chunks, encryptAll, List.length_nil] at hcut
        omega
    have hstep : cut = cut - maxSegment + maxSegment := by omega
    have hquot : cut / maxSegment = (cut - maxSegment) / maxSegment + 1 := by
      conv_lhs => rw [hstep, Nat.add_div_right _ (by decide)]
    have hrem : cut % maxSegment = (cut - maxSegment) % maxSegment := by
      conv_lhs => rw [hstep, Nat.add_mod_right]
    rw [List.take_append, List.take_of_length_le hge, hfull,
      Bytes.chunks_append (by decide) (.inl hfull), decryptAll, if_neg (by omega), h.decrypt_head]
    dsimp only
    rw [ih _ (by rw [List.length_drop]; omega) _ h.tail (by omega) rfl, hrem, hquot]
    split
    · rw [Except.map, Nat.succ_mul, Nat.add_comm, List.take_add]
    · rfl

variable {k : Keypair} {once : Key} {content : Bytes} {cut : Nat}

theorem Ideal.length_close (h : Ideal k once content) :
    (close k.publicKey once content).length = sealedLength content.length :=
  length_close_of content h.length_hello h.length_encrypt

/-- **What becomes of a box that is cut short.** It may be too short for a box. Otherwise it opens
where the cut is behind a whole message, and is corrupt where it is not. -/
theorem open?_take (h : Ideal k once content)
    (hcut : cut < (close k.publicKey once content).length) :
    open? k ((close k.publicKey once content).take cut) =
      if cut < minLength then .error (.tooShort cut)
      else if (cut - handshakeLength) % maxSegment = 0 then
        .ok (some (content.take ((cut - handshakeLength) / maxSegment * maxSegmentContent)))
      else .error .corrupt := by
  have hlen : ((close k.publicKey once content).take cut).length = cut := by
    rw [List.length_take]
    omega
  have hmin : minLength = handshakeLength + tagLength := rfl
  rw [open?, session?, hlen]
  by_cases hshort : cut < minLength
  · rw [if_pos hshort, if_pos hshort]
  rw [if_neg hshort, if_neg hshort]
  have hne : content ≠ [] := by
    rintro rfl
    rw [h.length_close] at hcut
    exact hshort hcut
  have hpieces : Bytes.pieces maxSegmentContent content = Bytes.chunks maxSegmentContent content :=
    if_neg (by simpa using hne)
  have hgenuine := h.genuine
  rw [close, List.length_append, h.length_hello, hpieces] at hcut
  rw [hpieces] at hgenuine
  have hbody := decryptAll_take h.length_encrypt (cut - handshakeLength) hgenuine (by omega)
  have hhello : ((close k.publicKey once content).take cut).take handshakeLength =
      (Cryptography.initiate k.publicKey once).1 := by
    rw [List.take_take, Nat.min_eq_left (by omega), close, List.take_left' h.length_hello]
  have hdrop : ((close k.publicKey once content).take cut).drop handshakeLength =
      (encryptAll (Cryptography.initiate k.publicKey once).2 0
        (Bytes.chunks maxSegmentContent content)).take (cut - handshakeLength) := by
    rw [List.drop_take, close, List.drop_left' h.length_hello, hpieces]
  rw [hhello, h.respond]
  dsimp only
  rw [hdrop, hbody]
  split <;> rfl

/-- **The cuts that go unnoticed.** A box that is cut short opens exactly where the cut is behind a
whole number of full messages, at least one, and it opens to what these carry, which is less than the
content. -/
theorem open?_take_eq_some_iff (h : Ideal k once content)
    (hcut : cut < (close k.publicKey once content).length) (found : Bytes) :
    open? k ((close k.publicKey once content).take cut) = .ok (some found) ↔
      ∃ messages, 0 < messages ∧ cut = handshakeLength + messages * maxSegment ∧
        found = content.take (messages * maxSegmentContent) ∧
        messages * maxSegmentContent < content.length := by
  rw [open?_take h hcut]
  have hmin : minLength = handshakeLength + tagLength := rfl
  have hsegment : 0 < maxSegment := by decide
  constructor
  · intro hopen
    split at hopen
    · cases hopen
    rename_i hshort
    split at hopen
    · rename_i hborder
      obtain rfl := Option.some.inj (Except.ok.inj hopen)
      have hmessages := Nat.div_add_mod (cut - handshakeLength) maxSegment
      rw [hborder, Nat.add_zero, Nat.mul_comm] at hmessages
      set messages := (cut - handshakeLength) / maxSegment
      have hpos : 0 < messages := by
        rcases Nat.eq_zero_or_pos messages with hzero | hpos
        · rw [hzero, Nat.zero_mul] at hmessages
          have htag : 0 < tagLength := by decide
          omega
        · exact hpos
      refine ⟨messages, hpos, by omega, rfl, ?_⟩
      -- A content that these messages carry whole makes a box that ends with them.
      by_contra hwhole
      have hle := sealedLength_mono (Nat.le_of_not_lt hwhole)
      rw [sealedLength_mul hpos, ← h.length_close] at hle
      omega
    · cases hopen
  · rintro ⟨messages, hpos, rfl, rfl, -⟩
    have hlong : maxSegment ≤ messages * maxSegment := Nat.le_mul_of_pos_left _ hpos
    have htag : tagLength ≤ maxSegment := by decide
    rw [if_neg (by omega), Nat.add_sub_cancel_left, if_pos (Nat.mul_mod_left _ _),
      Nat.mul_div_cancel _ hsegment]

end Cut

/-! ### A box around one byte more than a message holds -/

/-- Transparent boxes in which nothing opens but the messages that carry a given content. -/
abbrev recorded (content : Bytes) : Cryptography :=
  { Cryptography.transparent with
    decrypt? := fun _ number message =>
      (Bytes.pieces maxSegmentContent content)[number]?.filter fun piece =>
        message == Bytes.ofNat tagLength number ++ piece }

theorem ideal_recorded (k : Keypair) (once : Key) (content : Bytes) :
    @Ideal (recorded content) k once content :=
  letI := recorded content
  { length_hello := Cryptography.lawful_transparent.length_initiate k.publicKey once
    respond := Cryptography.lawful_transparent.respond_initiate k once
    length_encrypt := Cryptography.lawful_transparent.length_encrypt ()
    genuine := by
      intro i message piece
      show (Bytes.pieces maxSegmentContent content)[0 + i]?.filter (fun piece =>
        message == Bytes.ofNat tagLength (0 + i) ++ piece) = some piece ↔ _
      rw [Option.filter_eq_some_iff, beq_iff_eq, Nat.zero_add]
      exact Iff.rfl }

/-- One byte more than a message holds. -/
def overfull : Bytes := List.replicate 65520 7

theorem lt_length_close_overfull :
    letI := recorded overfull
    65583 < (close (Keypair.publicKey ⟨.chacha, Key.zero⟩) Key.zero overfull).length := by
  let _ := recorded overfull
  rw [(ideal_recorded ⟨.chacha, Key.zero⟩ Key.zero overfull).length_close, overfull,
    List.length_replicate]
  decide

/-- Behind one full message and 48 bytes of handshake, the cut goes unnoticed. -/
theorem open?_take_eq_some_iff_overfull :
    letI := recorded overfull
    Ideal ⟨.chacha, Key.zero⟩ Key.zero overfull ∧
      65583 < (close (Keypair.publicKey ⟨.chacha, Key.zero⟩) Key.zero overfull).length ∧
      (open? ⟨.chacha, Key.zero⟩ ((close (Keypair.publicKey ⟨.chacha, Key.zero⟩) Key.zero
          overfull).take 65583) = .ok (some (overfull.take 65519)) ↔
        ∃ messages, 0 < messages ∧ 65583 = handshakeLength + messages * maxSegment ∧
          overfull.take 65519 = overfull.take (messages * maxSegmentContent) ∧
          messages * maxSegmentContent < overfull.length) :=
  let _ := recorded overfull
  ⟨ideal_recorded _ _ _, lt_length_close_overfull,
    open?_take_eq_some_iff (ideal_recorded _ _ _) lt_length_close_overfull _⟩

/-- A box without its last message that opens as if nothing were missing. -/
theorem open?_take_overfull :
    letI := recorded overfull
    Ideal ⟨.chacha, Key.zero⟩ Key.zero overfull ∧
      65583 < (close (Keypair.publicKey ⟨.chacha, Key.zero⟩) Key.zero overfull).length ∧
      open? ⟨.chacha, Key.zero⟩ ((close (Keypair.publicKey ⟨.chacha, Key.zero⟩) Key.zero
          overfull).take 65583) = .ok (some (overfull.take 65519)) := by
  let _ := recorded overfull
  refine ⟨ideal_recorded _ _ _, lt_length_close_overfull, ?_⟩
  rw [open?_take (ideal_recorded _ _ _) lt_length_close_overfull, if_neg (by decide),
    if_pos (by decide)]
  rfl

end Courier.SealedBox
