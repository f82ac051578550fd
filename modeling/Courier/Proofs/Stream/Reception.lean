import Mathlib
import Courier.Proofs.Stream.Arrival

/-!
## What each event changes

The effect of bringing a piece, of a delivery and of time passing, on the streams and on what is
offered to the reader. A piece changes what is there of its own stream and of no other; a delivery
takes out the complete streams, each with one offer.

* `Reassembler.handle_ofHeader`, `Reassembler.handle_ofChunk`: pieces are taken for what they are.
* `Reassembler.offers_filter_key`, `Reassembler.contains_finished_deliver`: a delivery, stream by
  stream.
* `Reception.run`: a receiver in a run, with the offers made so far.
* `Reception.queue_run`: the queue of the reader was made those offers and no others.
-/

namespace Courier.Stream

/-! ### One stream -/

namespace Pending

/-- The first header counts. -/
theorem announcement_announce (p : Pending) (h : StreamHeader) (mailClass : MailClass) :
    (p.announce h mailClass).announcement =
      p.announcement.or (some ⟨h.total, h.channel, mailClass⟩) := by
  unfold announce
  split
  · rename_i a ha
    rw [ha, Option.some_or]
  · rename_i hnone
    rw [hnone, Option.none_or]

theorem payloads_announce {p : Pending} {h : StreamHeader} (mailClass : MailClass)
    (hkeep : p.payloads.filter (fun index _ => index < h.total) = p.payloads) :
    (p.announce h mailClass).payloads = p.payloads := by
  unfold announce
  split
  · rfl
  · exact hkeep

theorem announcement_add (p : Pending) (c : Chunk) : (p.add c).announcement = p.announcement := by
  unfold add
  split <;> rfl

theorem payloads_add (p : Pending) (c : Chunk) :
    (p.add c).payloads =
      if p.payloads.contains c.index then p.payloads else p.payloads.insert c.index c.payload := by
  unfold add
  split <;> rfl

end Pending

namespace Reassembler

/-! ### Taking a piece -/

theorem handle_ofHeader (r : Reassembler) {h : StreamHeader} (hpos : h.total ≠ 0)
    (mailClass : MailClass) :
    r.handle (Piece.ofHeader h).flags (Piece.ofHeader h).plaintext mailClass =
      .ok (r.takeHeader h mailClass) := by
  simp only [handle, Piece.ofHeader, StreamHeader.decode_encode hpos, if_true]

theorem handle_ofChunk (r : Reassembler) (c : Chunk) (mailClass : MailClass) :
    r.handle (Piece.ofChunk c).flags (Piece.ofChunk c).plaintext mailClass =
      .ok (r.takeChunk c) := by
  simp only [handle, Piece.ofChunk, Chunk.decode_encode, Bool.false_eq_true, if_false, if_true]

/-- What is there of a stream, but for the time of its first part, is what is found under its
number. -/
theorem stream_congr {r r' : Reassembler} {id : UInt32}
    (h : r'.pending.find? id = r.pending.find? id) :
    (r'.stream id).announcement = (r.stream id).announcement ∧
      (r'.stream id).payloads = (r.stream id).payloads := by
  unfold stream
  rw [h]
  cases r.pending.find? id <;> exact ⟨rfl, rfl⟩

theorem stream_insert (r : Reassembler) (id : UInt32) (p : Pending) :
    Reassembler.stream { r with pending := r.pending.insert id p } id = p := by
  rw [stream, Table.find?_insert, if_pos rfl, Option.getD_some]

theorem stream_takeHeader {r : Reassembler} {h : StreamHeader} (hadmits : r.admits h.stream = true)
    (mailClass : MailClass) :
    (r.takeHeader h mailClass).stream h.stream = (r.stream h.stream).announce h mailClass := by
  rw [takeHeader, if_pos hadmits, stream_insert]

theorem stream_takeChunk {r : Reassembler} {c : Chunk} (hadmits : r.admits c.stream = true)
    (haccepts : (r.stream c.stream).accepts c.index = true) :
    (r.takeChunk c).stream c.stream = (r.stream c.stream).add c := by
  rw [takeChunk, if_pos (by rw [hadmits, haccepts]; rfl), stream_insert]

theorem find?_takeHeader_of_ne (r : Reassembler) {h : StreamHeader} {id : UInt32}
    (hne : h.stream ≠ id) (mailClass : MailClass) :
    (r.takeHeader h mailClass).pending.find? id = r.pending.find? id := by
  unfold takeHeader
  split
  · rw [Table.find?_insert, if_neg hne]
  · rfl

theorem find?_takeChunk_of_ne (r : Reassembler) {c : Chunk} {id : UInt32} (hne : c.stream ≠ id) :
    (r.takeChunk c).pending.find? id = r.pending.find? id := by
  unfold takeChunk
  split
  · rw [Table.find?_insert, if_neg hne]
  · rfl

@[simp] theorem finished_takeHeader (r : Reassembler) (h : StreamHeader) (mailClass : MailClass) :
    (r.takeHeader h mailClass).finished = r.finished := by
  unfold takeHeader
  split <;> rfl

@[simp] theorem finished_takeChunk (r : Reassembler) (c : Chunk) :
    (r.takeChunk c).finished = r.finished := by
  unfold takeChunk
  split <;> rfl

theorem mem_keys_takeHeader {r : Reassembler} {h : StreamHeader} {mailClass : MailClass}
    {id : UInt32} (hid : id ∈ (r.takeHeader h mailClass).pending.keys) :
    id = h.stream ∨ id ∈ r.pending.keys := by
  unfold takeHeader at hid
  split at hid
  · exact Table.mem_keys_insert hid
  · exact .inr hid

theorem mem_keys_takeChunk {r : Reassembler} {c : Chunk} {id : UInt32}
    (hid : id ∈ (r.takeChunk c).pending.keys) : id = c.stream ∨ id ∈ r.pending.keys := by
  unfold takeChunk at hid
  split at hid
  · exact Table.mem_keys_insert hid
  · exact .inr hid

/-- Parts of a finished stream are ignored. -/
theorem takeHeader_of_finished {r : Reassembler} {h : StreamHeader}
    (hfin : r.finished.contains h.stream = true) (mailClass : MailClass) :
    r.takeHeader h mailClass = r := by
  rw [takeHeader, admits, hfin]
  rfl

theorem takeChunk_of_finished {r : Reassembler} {c : Chunk}
    (hfin : r.finished.contains c.stream = true) : r.takeChunk c = r := by
  rw [takeChunk, admits, hfin]
  rfl

/-! ### Delivering -/

/-- What a delivery offers, each message with its stream. -/
def offers (r : Reassembler) : List (UInt32 × Delivery) :=
  r.complete.filterMap fun e => e.2.delivery?.map fun d => (e.1, d)

theorem filterMap_offer_filter_key (es : List (UInt32 × Pending)) (id : UInt32) :
    (es.filterMap fun e => e.2.delivery?.map fun d => (e.1, d)).filter (fun o => o.1 == id) =
      (es.filter fun e => e.1 == id).filterMap fun e => e.2.delivery?.map fun d => (e.1, d) := by
  rw [List.filter_filterMap, List.filterMap_filter]
  refine List.filterMap_congr fun e _ => ?_
  by_cases hid : (e.1 == id) = true
  · cases e.2.delivery? <;> simp [hid, Option.filter]
  · cases e.2.delivery? <;> simp [hid, Option.filter]

theorem complete_filter_key (r : Reassembler) (id : UInt32) :
    r.complete.filter (fun e => e.1 == id) =
      ((r.pending.find? id).filter Pending.isComplete).toList.map fun p => (id, p) := by
  rw [complete, List.filter_comm, Table.entries_filter_key]
  cases r.pending.find? id with
  | none => rfl
  | some p => cases hp : p.isComplete <;> simp [Option.filter, hp]

/-- A delivery makes an offer for a stream exactly if it is complete. -/
theorem offers_filter_key (r : Reassembler) (id : UInt32) :
    r.offers.filter (fun o => o.1 == id) =
      ((r.pending.find? id).filter Pending.isComplete).toList.filterMap fun p =>
        p.delivery?.map fun d => (id, d) := by
  rw [offers, filterMap_offer_filter_key, complete_filter_key, List.filterMap_map]
  rfl

theorem find?_pending_deliver (r : Reassembler) (q : DeliveryQueue) (id : UInt32) :
    (r.deliver q).2.1.pending.find? id =
      (r.pending.find? id).filter fun p => !p.isComplete := Table.find?_filter _ _ _

theorem find?_foldl_insert (es : List (UInt32 × Pending)) (now : Nat) (t : Table UInt32 Nat)
    (id : UInt32) :
    (es.foldl (fun t e => t.insert e.1 now) t).find? id =
      if es.any fun e => e.1 == id then some now else t.find? id := by
  induction es generalizing t with
  | nil => rfl
  | cons e rest ih =>
    rw [List.foldl_cons, ih, List.any_cons, Table.find?_insert]
    by_cases hid : e.1 = id
    · rw [if_pos hid, beq_iff_eq.mpr hid, Bool.true_or, if_pos rfl]
      exact ite_self _
    · rw [if_neg hid, beq_eq_false_iff_ne.mpr hid, Bool.false_or]

theorem contains_foldl_insert (es : List (UInt32 × Pending)) (now : Nat) (t : Table UInt32 Nat)
    (id : UInt32) :
    (es.foldl (fun t e => t.insert e.1 now) t).contains id =
      (t.contains id || es.any fun e => e.1 == id) := by
  rw [Table.contains, find?_foldl_insert, Table.contains]
  split
  · rename_i hany
    rw [hany, Bool.or_true]
    rfl
  · rename_i hany
    rw [Bool.eq_false_iff.mpr hany, Bool.or_false]

/-- After a delivery a stream is finished if it was before or was complete. -/
theorem contains_finished_deliver (r : Reassembler) (q : DeliveryQueue) (id : UInt32) :
    (r.deliver q).2.1.finished.contains id =
      (r.finished.contains id || ((r.pending.find? id).filter Pending.isComplete).isSome) := by
  have hready : (r.complete.any fun e => e.1 == id) =
      ((r.pending.find? id).filter Pending.isComplete).isSome := by
    have hany := congrArg (fun es => es.any fun _ => true) (r.complete_filter_key id)
    simp only [List.any_filter, Bool.and_true] at hany
    rw [hany]
    cases (r.pending.find? id).filter Pending.isComplete <;> rfl
  rw [deliver, contains_foldl_insert, hready]

/-- The queue after some offers. The number of those that were queued plays no part in it. -/
theorem offerAll_snd (q : DeliveryQueue) (ds : List Delivery) :
    (offerAll q ds).2 = ds.foldl (fun q d => (q.offer d).2) q := by
  unfold offerAll
  rw [← List.foldl_hom Prod.snd]
  intro _ _
  rfl

/-- The queue is made the offers of the delivery. -/
theorem queue_deliver (r : Reassembler) (q : DeliveryQueue) :
    (r.deliver q).2.2 = r.offers.foldl (fun q o => (q.offer o.2).2) q := by
  have hoffers : r.offers.map Prod.snd = r.complete.filterMap fun e => e.2.delivery? := by
    rw [offers, List.map_filterMap]
    refine List.filterMap_congr fun e _ => ?_
    cases e.2.delivery? <;> rfl
  show (offerAll q _).2 = _
  rw [offerAll_snd, ← hoffers, List.foldl_map]

end Reassembler

/-! ### Runs -/

/-- A receiver: its streams, the queue of its reader, and the offers made to it so far, each with
its stream. -/
structure Reception where
  streams : Reassembler
  queue : DeliveryQueue
  offered : List (UInt32 × Delivery) := []

namespace Reception

/-- What an event does. A piece that cannot be read is passed over. -/
def step (r : Reception) : Event → Reception
  | .part piece mailClass =>
    match r.streams.handle piece.flags piece.plaintext mailClass with
    | .ok streams => { r with streams := streams }
    | .error _ => r
  | .deliver =>
    let (_, streams, queue) := r.streams.deliver r.queue
    { streams := streams, queue := queue, offered := r.offered ++ r.streams.offers }
  | .wait now => { r with streams := r.streams.atTime now }

/-- What some events do, one after the other. -/
def run (r : Reception) (events : List Event) : Reception := events.foldl step r

/-- The offers made for a stream. -/
def offersOf (r : Reception) (stream : UInt32) : List (UInt32 × Delivery) :=
  r.offered.filter fun o => o.1 == stream

theorem run_append (r : Reception) (events : List Event) (e : Event) :
    r.run (events ++ [e]) = (r.run events).step e := by
  rw [run, List.foldl_append]
  rfl

/-- **The queue of the reader was made the offers of the run** and no others. -/
theorem queue_run (streams : Reassembler) (queue : DeliveryQueue) (events : List Event) :
    (run ⟨streams, queue, []⟩ events).queue =
      (run ⟨streams, queue, []⟩ events).offered.foldl (fun q o => (q.offer o.2).2) queue := by
  induction events using List.reverseRecOn with
  | nil => rfl
  | append_singleton events e ih =>
    rw [run_append]
    generalize run ⟨streams, queue, []⟩ events = r at ih ⊢
    cases e with
    | part piece mailClass =>
      unfold step
      dsimp only
      split <;> exact ih
    | deliver =>
      show (r.streams.deliver r.queue).2.2 =
        (r.offered ++ r.streams.offers).foldl (fun q o => (q.offer o.2).2) queue
      rw [Reassembler.queue_deliver, List.foldl_append, ih]
    | wait now => exact ih

end Reception

end Courier.Stream
