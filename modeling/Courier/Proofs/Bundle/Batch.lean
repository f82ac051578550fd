import Mathlib
import Courier.Exchange
import Courier.Proofs.Codec.Reads
import Courier.Proofs.SealedBox.RoundTrip

/-!
## What a bundle carries

A batch is put together greedily: of the entries that any batch has room for it takes as many as
fit, from the front, and it never waits for one that no batch has room for. Its written form stays
within the room, reads back, and travels in a box that only the receiver opens.

* `gather_append`: a batch is the front of the entries that fit one.
* `length_batch_le`: the written form of a batch stays within its room.
* `newest_of_pairwise`: the time of a batch is that of its last entry.
* `Bundle.carries_close`: a bundle carries its batch to the receiver.
-/

namespace Courier

/-! ### The later of two times -/

namespace Time

theorem le_later_left (a b : Time) : a ≤ later a b := by
  unfold later
  split
  · assumption
  · exact Int64.le_refl a

theorem later_of_le {a b : Time} (h : a ≤ b) : later a b = b := if_pos h

/-- The later of two times is one of them. -/
theorem later_eq_or (a b : Time) : later a b = a ∨ later a b = b := by
  unfold later
  split
  · exact .inr rfl
  · exact .inl rfl

end Time

namespace Bundle

/-! ### Gathering -/

theorem budget_lt {limit bound : Nat} (h : limit < bound) : budget limit < bound :=
  Nat.lt_of_le_of_lt (Nat.sub_le _ _) h

theorem one_le_cost (e : OutboxEntry) : 1 ≤ cost e := by
  have h := Varint.length_pos e.data.length
  unfold cost
  omega

/-- **A batch is the front of the entries that fit one.** -/
theorem gather_append (budget used : Nat) (es : List OutboxEntry) :
    gather budget used es <+: es.filter fun e => decide (cost e ≤ budget) := by
  induction es generalizing used with
  | nil => exact List.prefix_refl _
  | cons e rest ih =>
    unfold gather
    split
    · rename_i hover
      rw [List.filter_cons_of_neg (by simpa using hover)]
      exact ih used
    · rename_i hfits
      rw [List.filter_cons_of_pos (by simpa using hfits)]
      split
      · exact List.nil_prefix
      · exact List.prefix_cons_inj e |>.mpr (ih _)

/-- Entries that all fit go into one batch. -/
theorem gather_of_sum_le {budget used : Nat} {es : List OutboxEntry}
    (h : used + (es.map cost).sum ≤ budget) : gather budget used es = es := by
  induction es generalizing used with
  | nil => rfl
  | cons e rest ih =>
    rw [List.map_cons, List.sum_cons] at h
    rw [gather, if_neg (by omega), if_neg (by omega), ih (by omega)]

theorem sum_cost_gather_le {budget used : Nat} (h : used ≤ budget) (es : List OutboxEntry) :
    used + ((gather budget used es).map cost).sum ≤ budget := by
  induction es generalizing used with
  | nil => exact h
  | cons e rest ih =>
    unfold gather
    split
    · exact ih h
    · split
      · exact h
      · rename_i hroom
        rw [List.map_cons, List.sum_cons, ← Nat.add_assoc]
        exact ih (Nat.le_of_not_lt hroom)

/-- A batch is empty only if no entry fits one. -/
theorem lt_cost_of_gather_eq_nil {budget : Nat} {es : List OutboxEntry}
    (h : gather budget 0 es = []) : ∀ e ∈ es, budget < cost e := by
  induction es with
  | nil => exact List.forall_mem_nil _
  | cons e rest ih =>
    unfold gather at h
    split at h
    · rename_i hover
      exact List.forall_mem_cons.mpr ⟨hover, ih h⟩
    · rename_i hfits
      rw [Nat.zero_add, if_neg hfits] at h
      cases h

/-! ### Written batches -/

theorem length_flatMap_putBytes (es : List OutboxEntry) :
    ((es.map OutboxEntry.data).flatMap Codec.putBytes).length = (es.map cost).sum := by
  induction es with
  | nil => rfl
  | cons e rest ih =>
    rw [List.map_cons, List.flatMap_cons, List.length_append, Reader.length_putBytes, ih,
      List.map_cons, List.sum_cons, cost]

/-- A batch is a tag, a count and its entries. -/
theorem length_batch (es : List OutboxEntry) :
    (batch es).length = 1 + Varint.length es.length + (es.map cost).sum := by
  rw [batch, Value.encode, Value.body, Codec.putList, List.length_cons, List.length_append,
    Varint.length_encode, List.length_map, length_flatMap_putBytes]
  omega

theorem length_le_sum_cost (es : List OutboxEntry) : es.length ≤ (es.map cost).sum := by
  induction es with
  | nil => exact Nat.le_refl 0
  | cons e rest ih =>
    have hcost := one_le_cost e
    rw [List.length_cons, List.map_cons, List.sum_cons]
    omega

theorem length_data_le_sum_cost {es : List OutboxEntry} {e : OutboxEntry} (h : e ∈ es) :
    e.data.length ≤ (es.map cost).sum := by
  have hsum : cost e ≤ (es.map cost).sum := List.le_sum_of_mem (List.mem_map_of_mem h)
  exact Nat.le_trans (Nat.le_add_left _ _) hsum

/-- The written form of a batch stays within its room. -/
theorem length_batch_le {es : List OutboxEntry} {maxBytes : Nat} (hmax : maxBytes < UInt64.size)
    (hne : es ≠ []) (hsum : (es.map cost).sum ≤ maxBytes - batchOverhead) :
    (batch es).length ≤ maxBytes := by
  have hlen := length_le_sum_cost es
  have hpos : 0 < es.length := List.length_pos_of_ne_nil hne
  have hcount := Varint.length_le (n := es.length) (by omega)
  have hover : batchOverhead = 1 + Varint.maxLength := rfl
  rw [length_batch]
  omega

/-- A batch whose entries have sizes below 2 ^ 64 reads back. -/
theorem decode_batch {es : List OutboxEntry} (h : (es.map cost).sum < UInt64.size) :
    (Value.decode (batch es) >>= Value.toBytesArray) = .ok (es.map OutboxEntry.data) := by
  have hlen := length_le_sum_cost es
  have hdata : ∀ x ∈ es.map OutboxEntry.data, x.length < UInt64.size := by
    intro x hx
    obtain ⟨e, he, rfl⟩ := List.mem_map.mp hx
    exact Nat.lt_of_le_of_lt (length_data_le_sum_cost he) h
  rw [batch, Value.decode_encode_bytesArray (by rw [List.length_map]; omega) hdata]
  rfl

/-! ### The time of a batch -/

/-- Of entries in the order of their times, all later than a given one, the last is the newest. -/
theorem newest_of_pairwise {es : List OutboxEntry} (hne : es ≠ []) {since : Time}
    (hsince : ∀ e ∈ es, since < e.time) (hes : es.Pairwise fun a b => a.time < b.time) :
    newest since es = (es.getLast hne).time := by
  induction es generalizing since with
  | nil => exact absurd rfl hne
  | cons e rest ih =>
    obtain ⟨he, hrest⟩ := List.pairwise_cons.mp hes
    have hstep : newest since (e :: rest) = newest e.time rest := by
      rw [newest, List.foldl_cons, Time.later_of_le (Int64.le_of_lt (hsince e List.mem_cons_self))]
      rfl
    by_cases hnil : rest = []
    · subst hnil
      exact hstep
    · rw [hstep, ih hnil he hrest, List.getLast_cons hnil]

/-! ### Bundles -/

variable [Cryptography]

/-- A bundle carries some entries to the holder of a key pair: within a longest plaintext, it holds
their batch, from which their bytes read back, and it has the time of the last of them. -/
structure Carries (b : Bundle) (k : Keypair) (maxBytes : Nat) (es : List OutboxEntry) : Prop where
  plaintext : SealedBox.open? k b.data = .ok (some (batch es))
  length_le : (batch es).length ≤ maxBytes
  envelopes : b.envelopes k = .ok (es.map OutboxEntry.data)
  time : es.getLast?.map OutboxEntry.time = some b.time

theorem Carries.isEmpty {b : Bundle} {k : Keypair} {maxBytes : Nat} {es : List OutboxEntry}
    (h : b.Carries k maxBytes es) : b.isEmpty = false := by
  have henv := h.envelopes
  unfold Bundle.envelopes at henv
  split at henv
  · cases henv
  · rename_i hne
    exact Bool.eq_false_iff.mpr hne

theorem isEmpty_close [Cryptography.Lawful] (recipient : PublicKey) (once : Key) (content : Bytes)
    (time : Time) : isEmpty ⟨SealedBox.close recipient once content, time⟩ = false := by
  have hlen := SealedBox.minLength_le_length_close recipient once content
  rw [isEmpty, List.isEmpty_eq_false_iff_exists_mem]
  exact List.exists_mem_of_length_pos (Nat.lt_of_lt_of_le (by decide) hlen)

/-- The receiver finds the entries of a batch whose sizes are below 2 ^ 64. -/
theorem envelopes_close [Cryptography.Lawful] (k : Keypair) (once : Key) (time : Time)
    {es : List OutboxEntry} (h : (es.map cost).sum < UInt64.size) :
    envelopes ⟨SealedBox.close k.publicKey once (batch es), time⟩ k =
      .ok (es.map OutboxEntry.data) := by
  have hopen := SealedBox.open?_close k once (batch es)
  have hbox := isEmpty_close k.publicKey once (batch es) time
  have hdecode := decode_batch h
  simp only [Bundle.envelopes, hbox, hopen, hdecode]
  rfl

/-- **A sealed batch reaches the receiver.** -/
theorem carries_close [Cryptography.Lawful] (k : Keypair) (once : Key) {maxBytes : Nat}
    (hmax : maxBytes < UInt64.size) {since : Time} {es : List OutboxEntry} (hne : es ≠ [])
    (hsum : (es.map cost).sum ≤ maxBytes - batchOverhead) (hsince : ∀ e ∈ es, since < e.time)
    (hes : es.Pairwise fun a b => a.time < b.time) :
    Carries ⟨SealedBox.close k.publicKey once (batch es), newest since es⟩ k maxBytes es := by
  refine ⟨SealedBox.open?_close k once (batch es), length_batch_le hmax hne hsum,
    envelopes_close k once _ (by omega), ?_⟩
  rw [List.getLast?_eq_some_getLast hne, newest_of_pairwise hne hsince hes]
  rfl

end Bundle

end Courier
