import Mathlib
import Courier.Proofs.Exchange.Frames

/-!
## Bundles in frames

A bundle travels in the answer to a pickup or in the call that drops it off, and either goes into one
frame. The budget of a transport takes off its limit what sealing adds to a content as long as the
limit, which is no less than what it adds to a batch, and a fixed room for the lengths that are put
around the bundle: around its sealed bytes, around the record, and around the answer or call.

* `Frame.exists_encode`: a record that fits a limit is framed within it.
* `Bundle.framed_of_length_add_le`: a bundle with room for its lengths, in an answer and in a call.
* `Node.pickup_framed`: whatever a pickup within the budget of a transport answers.
-/

namespace Courier

open Codec

/-- A record that fits a limit with its length in front is framed, within that limit. -/
theorem Frame.exists_encode {record : Bytes} {limit : Nat} (hmax : limit ≤ Frame.maxLength)
    (h : counted record.length ≤ limit) :
    ∃ frame, Frame.encode record = .ok frame ∧ frame.length ≤ limit := by
  have hrecord := lt_counted record.length
  refine ⟨putBytes record, Frame.encode_eq_ok_iff.mpr ⟨by omega, rfl⟩, ?_⟩
  rwa [length_putBytes_eq]

namespace Bundle

/-- A bundle goes into frames of some limit, both in the answer to a pickup and in the call that drops
it off. -/
structure Framed (b : Bundle) (limit : Nat) : Prop where
  answer : ∃ frame, Frame.encode (Response.ok (.bundle b)).encode = .ok frame ∧
    frame.length ≤ limit
  dropoff : ∃ frame, Frame.encode (Call.encode ⟨.dropoff, [.bundle b]⟩) = .ok frame ∧
    frame.length ≤ limit

/-- The lengths around a bundle stay within the room that is kept for them. -/
theorem framed_of_length_add_le {b : Bundle} {limit : Nat} (hmax : limit ≤ Frame.maxLength)
    (h : b.data.length + frameOverhead ≤ limit) : b.Framed limit := by
  have hlength := Nat.le_trans h hmax
  refine ⟨Frame.exists_encode hmax ?_, Frame.exists_encode hmax ?_⟩
  · rw [Response.length_ok, Value.length_bundle]
    exact Nat.le_trans (counted_add_valueLength_le (by decide) hlength) h
  · rw [Call.length_ofDropoff]
    exact Nat.le_trans (counted_add_valueLength_le (Nat.le_refl 2) hlength) h

end Bundle

namespace Node

/-- **A bundle within the budget of a transport fits its frames.** Whatever is in the outbox, whoever
asks, from whichever time and for whichever channels, a pickup of at most as many bytes as the budget
of a transport allows is answered with a bundle that can be framed in an answer and in a call, and
neither frame is longer than the transport carries. -/
theorem pickup_framed [Cryptography] [Cryptography.Lawful] {n : Node}
    (hup : StoreCall.outboxSince.name ∉ n.backend.down) {limit : Nat}
    (hreserve : Stream.reserve < limit) (hmax : limit ≤ Frame.maxLength) (caller : PublicKey)
    (since : Time) {maxBytes : Nat} (hbudget : maxBytes ≤ Bundle.budget limit)
    (channels : List String) :
    ∃ b n', n.pickup caller since maxBytes channels = (.ok b, n') ∧ b.Framed limit := by
  obtain ⟨b, n', hpickup⟩ := exists_pickup hup caller since maxBytes channels
  refine ⟨b, n', hpickup, Bundle.framed_of_length_add_le hmax ?_⟩
  have hsize : maxBytes < UInt64.size :=
    Nat.lt_of_le_of_lt hbudget (Bundle.budget_lt (Nat.lt_of_le_of_lt hmax (by decide)))
  rcases length_pickup_cases hsize hpickup with hempty | ⟨k, hpos, hk, hlength⟩
  · have hoverhead : Bundle.frameOverhead = 64 := rfl
    have hroom : Stream.reserve = 1024 := rfl
    omega
  · rw [hlength]
    exact Bundle.sealedLength_add_le hpos (Nat.le_trans hk hbudget)

/-- With frames of 1400 bytes, a letter that fills the budget to the last byte and one that has to
wait. -/
theorem pickup_framed_full :
    letI := Cryptography.transparent
    letI n := keeping ⟨.chacha, Key.zero⟩ 1400
      [⟨"", List.replicate 1259 7, 3⟩, ⟨"news", [8], 5⟩]
    StoreCall.outboxSince.name ∉ n.backend.down ∧ Stream.reserve < 1400 ∧
      1400 ≤ Frame.maxLength ∧ Bundle.budget 1400 = 1272 ∧
      ∃ b n', n.pickup ⟨.aes, Key.zero⟩ 0 1272 [] = (.ok b, n') ∧ b.Framed 1400 := by
  let _ := Cryptography.transparent
  have _ := Cryptography.lawful_transparent
  exact ⟨List.not_mem_nil, by decide, by decide, by decide,
    pickup_framed List.not_mem_nil (by decide) (by decide) ⟨.aes, Key.zero⟩ 0 (by decide) []⟩

end Node

end Courier
