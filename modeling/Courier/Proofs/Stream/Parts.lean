import Mathlib
import Courier.Proofs.Stream.Reception

/-!
## What a record changes

Whatever bytes come as part of a stream, they can be read as a header or as a chunk, or not at all.
A part that is read is either kept, and then changes what is there of its own stream, or it is
ignored.

* `Part.read?`: what a record says.
* `Reassembler.take_eq`: what becomes of it.
* `Pending.put`, `Reassembler.find?_put`: the streams with one more part.
* `Reassembler.announcement_take`: which records announce a stream.
* `Reassembler.mem_offers`: what is offered.
* `Reassembler.Apart`: nothing is held of a finished stream, whatever comes.
-/

namespace Courier.Stream

/-! ### Records that can be read -/

/-- A part of a stream: its header, with the class of the key that opened it, or a chunk. -/
inductive Part
  | header (h : StreamHeader) (mailClass : MailClass)
  | chunk (c : Chunk)

namespace Part

/-- The stream that it is a part of. -/
def stream : Part → UInt32
  | header h _ => h.stream
  | chunk c => c.stream

/-- What a header announces. -/
def announcement? : Part → Option Announcement
  | header h mailClass => some ⟨h.total, h.channel, mailClass⟩
  | chunk _ => none

/-- The payload of the chunk of some index. -/
def payload? (index : UInt32) : Part → Option Bytes
  | header _ _ => none
  | chunk c => if c.index = index then some c.payload else none

/-- The part that a record writes. -/
def read? (flags : Flags) (plaintext : Bytes) (mailClass : MailClass) : Option Part :=
  if flags.streamHeader then
    match StreamHeader.decode plaintext with
    | .error _ => none
    | .ok h => some (header h mailClass)
  else if flags.chunked then
    match Chunk.decode plaintext with
    | .error _ => none
    | .ok c => some (chunk c)
  else none

theorem read?_eq_header {flags : Flags} {plaintext : Bytes} {mailClass mailClass' : MailClass}
    {h : StreamHeader} (hread : read? flags plaintext mailClass = some (header h mailClass')) :
    mailClass' = mailClass ∧ flags.streamHeader = true ∧ StreamHeader.decode plaintext = .ok h := by
  unfold read? at hread
  split at hread
  · rename_i hflag
    split at hread
    · cases hread
    · rename_i hdecode
      cases hread
      exact ⟨rfl, hflag, hdecode⟩
  · split at hread
    · split at hread <;> cases hread
    · cases hread

end Part

/-! ### One stream with one more part -/

namespace Pending

/-- Whether a part of the stream may be kept. -/
def keeps (p : Pending) : Part → Bool
  | .header _ _ => true
  | .chunk c => p.accepts c.index

/-- The stream with a part. -/
def put (p : Pending) : Part → Pending
  | .header h mailClass => p.announce h mailClass
  | .chunk c => p.add c

theorem announcement_put (p : Pending) (part : Part) :
    (p.put part).announcement = p.announcement.or part.announcement? := by
  cases part with
  | header h mailClass => exact announcement_announce p h mailClass
  | chunk c =>
    rw [put, announcement_add, Part.announcement?, Option.or_none]

end Pending

/-! ### All streams with one more record -/

namespace Reassembler

/-- Whether a part may be kept. -/
def keeps (r : Reassembler) (part : Part) : Bool :=
  r.admits part.stream && (r.stream part.stream).keeps part

/-- The streams with a part, if it may be kept. -/
def put (r : Reassembler) (part : Part) : Reassembler :=
  if r.keeps part then
    { r with pending := r.pending.insert part.stream ((r.stream part.stream).put part) }
  else r

/-- The streams after a record. One that cannot be read changes nothing. -/
def take (r : Reassembler) (flags : Flags) (plaintext : Bytes) (mailClass : MailClass) :
    Reassembler :=
  match r.handle flags plaintext mailClass with
  | .ok streams => streams
  | .error _ => r

theorem take_of_ok {r streams : Reassembler} {flags : Flags} {plaintext : Bytes}
    {mailClass : MailClass} (h : r.handle flags plaintext mailClass = .ok streams) :
    r.take flags plaintext mailClass = streams := by
  rw [take, h]

theorem takeHeader_eq_put (r : Reassembler) (h : StreamHeader) (mailClass : MailClass) :
    r.takeHeader h mailClass = r.put (.header h mailClass) := by
  unfold takeHeader put keeps
  rw [Pending.keeps, Bool.and_true]
  rfl

/-- **What becomes of a record**: nothing if it cannot be read, or else what becomes of its part. -/
theorem take_eq (r : Reassembler) (flags : Flags) (plaintext : Bytes) (mailClass : MailClass) :
    r.take flags plaintext mailClass =
      match Part.read? flags plaintext mailClass with
      | none => r
      | some part => r.put part := by
  unfold take handle Part.read?
  cases flags.streamHeader with
  | true =>
    rw [if_pos rfl, if_pos rfl]
    cases StreamHeader.decode plaintext with
    | error error => rfl
    | ok h => exact r.takeHeader_eq_put h mailClass
  | false =>
    rw [if_neg Bool.false_ne_true, if_neg Bool.false_ne_true]
    cases flags.chunked with
    | true =>
      rw [if_pos rfl, if_pos rfl]
      cases Chunk.decode plaintext with
      | error error => rfl
      | ok c => rfl
    | false => rfl

theorem take_of_not_isPart {flags : Flags} (h : flags.isPart = false) (r : Reassembler)
    (plaintext : Bytes) (mailClass : MailClass) : r.take flags plaintext mailClass = r := by
  obtain ⟨hchunked, hheader⟩ := Bool.or_eq_false_iff.mp h
  rw [take_eq, Part.read?, hheader, hchunked, if_neg Bool.false_ne_true,
    if_neg Bool.false_ne_true]

theorem put_of_not_keeps {r : Reassembler} {part : Part} (h : r.keeps part = false) :
    r.put part = r := by
  rw [put, h, if_neg Bool.false_ne_true]

theorem find?_put (r : Reassembler) (part : Part) (id : UInt32) :
    (r.put part).pending.find? id =
      if r.keeps part = true ∧ part.stream = id then some ((r.stream id).put part)
      else r.pending.find? id := by
  cases hkeeps : r.keeps part with
  | false =>
    rw [put_of_not_keeps hkeeps, if_neg fun h => Bool.false_ne_true h.1]
  | true =>
    rw [put, if_pos hkeeps, Table.find?_insert]
    by_cases hid : part.stream = id
    · subst hid
      rw [if_pos rfl, if_pos ⟨rfl, rfl⟩]
    · rw [if_neg hid, if_neg fun h => hid h.2]

@[simp] theorem finished_put (r : Reassembler) (part : Part) :
    (r.put part).finished = r.finished := by
  unfold put
  split <;> rfl

@[simp] theorem now_put (r : Reassembler) (part : Part) : (r.put part).now = r.now := by
  unfold put
  split <;> rfl

/-- A record announces a stream that was not announced before, or announces none. -/
theorem announcement_take (r : Reassembler) (flags : Flags) (plaintext : Bytes)
    (mailClass : MailClass) (id : UInt32) :
    ((r.take flags plaintext mailClass).stream id).announcement = (r.stream id).announcement ∨
      (r.stream id).announcement = none ∧ ∃ h, flags.streamHeader = true ∧
        StreamHeader.decode plaintext = .ok h ∧ h.stream = id ∧
        ((r.take flags plaintext mailClass).stream id).announcement =
          some ⟨h.total, h.channel, mailClass⟩ := by
  rw [take_eq]
  cases hread : Part.read? flags plaintext mailClass with
  | none => exact .inl rfl
  | some part =>
    dsimp only
    have hfind := r.find?_put part id
    by_cases hchanged : r.keeps part = true ∧ part.stream = id
    · rw [if_pos hchanged] at hfind
      have hstream : (r.put part).stream id = (r.stream id).put part := by
        rw [stream, hfind, Option.getD_some]
      rw [hstream, Pending.announcement_put]
      cases hbefore : (r.stream id).announcement with
      | some a => exact .inl rfl
      | none =>
        cases part with
        | chunk c => exact .inl rfl
        | header h mailClass' =>
          obtain ⟨rfl, hflag, hdecode⟩ := Part.read?_eq_header hread
          exact .inr ⟨rfl, h, hflag, hdecode, hchanged.2, rfl⟩
    · rw [if_neg hchanged] at hfind
      exact .inl (stream_congr hfind).1

/-! ### Letting go of streams -/

/-- What is offered are the streams that are complete. -/
theorem mem_offers {r : Reassembler} {o : UInt32 × Delivery} :
    o ∈ r.offers ↔ ∃ p, r.pending.find? o.1 = some p ∧ p.isComplete = true ∧
      p.delivery? = some o.2 := by
  unfold offers complete
  rw [List.mem_filterMap]
  constructor
  · rintro ⟨⟨id, p⟩, hmem, hmap⟩
    obtain ⟨hin, hcomplete⟩ := List.mem_filter.mp hmem
    obtain ⟨d, hd, rfl⟩ := Option.map_eq_some_iff.mp hmap
    exact ⟨p, (Table.find?_eq_some_iff _ _ _).mpr hin, hcomplete, hd⟩
  · rintro ⟨p, hfind, hcomplete, hd⟩
    refine ⟨(o.1, p), List.mem_filter.mpr ⟨(Table.find?_eq_some_iff _ _ _).mp hfind, hcomplete⟩, ?_⟩
    rw [hd]
    rfl

/-- A delivery leaves streams that are not complete. -/
theorem find?_of_deliver {r : Reassembler} {q : DeliveryQueue} {id : UInt32} {p : Pending}
    (h : (r.deliver q).2.1.pending.find? id = some p) :
    r.pending.find? id = some p ∧ p.isComplete = false := by
  rw [find?_pending_deliver, Option.filter_eq_some_iff] at h
  exact ⟨h.1, by simpa using h.2⟩

theorem find?_of_evict {r : Reassembler} {age : Nat} {id : UInt32} {p : Pending}
    (h : (r.evict age).2.pending.find? id = some p) : r.pending.find? id = some p := by
  have hfilter := Table.find?_filter r.pending (fun _ s => decide (r.now - s.started < age)) id
  exact (Option.filter_eq_some_iff.mp (hfilter.symm.trans h)).1

/-- A stream that is still held was announced before if it is announced now. -/
theorem announcement_of_held {r r' : Reassembler} {id : UInt32} {a : Announcement}
    (hheld : ∀ p, r'.pending.find? id = some p → r.pending.find? id = some p)
    (ha : (r'.stream id).announcement = some a) : (r.stream id).announcement = some a := by
  unfold stream at ha ⊢
  cases hfind : r'.pending.find? id with
  | none =>
    rw [hfind] at ha
    cases ha
  | some p =>
    rw [hfind] at ha
    rw [hheld p hfind]
    exact ha

/-! ### Finished streams -/

/-- Of a stream that is remembered as finished nothing is held. -/
def Apart (r : Reassembler) : Prop :=
  ∀ id p, r.pending.find? id = some p → r.finished.find? id = none

/-- No part of a finished stream is kept. -/
theorem Apart.put {r : Reassembler} (h : r.Apart) (part : Part) : (r.put part).Apart := by
  intro id p hp
  rw [find?_put] at hp
  rw [finished_put]
  split at hp
  · rename_i hkept
    obtain ⟨hkeeps, rfl⟩ := hkept
    obtain ⟨hadmits, -⟩ := Bool.and_eq_true_iff.mp hkeeps
    obtain ⟨hnew, -⟩ := Bool.and_eq_true_iff.mp hadmits
    exact Table.contains_eq_false_iff.mp (by simpa using hnew)
  · exact h id p hp

theorem Apart.take {r : Reassembler} (h : r.Apart) (flags : Flags) (plaintext : Bytes)
    (mailClass : MailClass) : (r.take flags plaintext mailClass).Apart := by
  rw [take_eq]
  split
  · exact h
  · exact h.put _

/-- What is finished by a delivery is let go of. -/
theorem Apart.deliver {r : Reassembler} (h : r.Apart) (q : DeliveryQueue) :
    (r.deliver q).2.1.Apart := by
  intro id p hp
  obtain ⟨hp, hincomplete⟩ := find?_of_deliver hp
  have hcontains := r.contains_finished_deliver q id
  rw [Table.contains_eq_false_iff.mpr (h id p hp), hp, Bool.false_or,
    Option.filter_some_neg hincomplete] at hcontains
  exact Table.contains_eq_false_iff.mp hcontains

theorem Apart.evict {r : Reassembler} (h : r.Apart) (age : Nat) : (r.evict age).2.Apart := by
  intro id p hp
  show (r.finished.filter fun _ since => decide (r.now - since < age)).find? id = none
  rw [Table.find?_filter, h id p (find?_of_evict hp)]
  rfl

end Reassembler

end Courier.Stream
