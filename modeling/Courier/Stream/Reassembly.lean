import Courier.Delivery
import Courier.Stream.Split
import Courier.Table

/-!
## Putting streams together

The parts of a stream come in any order, and any of them may come more than once. A stream is
delivered when its header and all its chunks are there, and is then remembered as finished, so that
late copies of its parts are ignored. Streams that stay incomplete are dropped in time, and the room
for them is bounded.

* `Reassembler.handle`: takes one part.
* `Reassembler.deliver`: delivers what is complete.
* `Reassembler.evict`: drops what is old.
-/

namespace Courier

namespace Stream

/-- What the accepted header of a stream said, and the class of the key that opened it. -/
structure Announcement where
  total : UInt32
  channel : Option String
  mailClass : MailClass
deriving DecidableEq

/-- The number of chunks kept of a stream whose header is not there. -/
def maxOrphans : Nat := 64

/-- A stream of which not every part is there yet. -/
structure Pending where
  announcement : Option Announcement := none
  /-- The payloads that are there, by index. -/
  payloads : Table UInt32 Bytes := .empty
  /-- When the first part came. -/
  started : Nat
deriving DecidableEq

namespace Pending

/-- Whether the header and all chunks are there. -/
def isComplete (s : Pending) : Bool :=
  match s.announcement with
  | none => false
  | some a => s.payloads.size == a.total.toNat

/-- What the stream delivers once it is complete. -/
def delivery? (s : Pending) : Option Delivery :=
  s.announcement.map fun a => ⟨a.mailClass, a.channel, s.payloads.values.flatten⟩

/-- The stream with its header. The first header counts, and chunks beyond its total go. -/
def announce (s : Pending) (h : StreamHeader) (mailClass : MailClass) : Pending :=
  match s.announcement with
  | some _ => s
  | none =>
    { s with
      announcement := some ⟨h.total, h.channel, mailClass⟩
      payloads := s.payloads.filter fun index _ => index < h.total }

/-- Whether a chunk may be kept: its index is below the total, or, without a header, there is room. -/
def accepts (s : Pending) (index : UInt32) : Bool :=
  match s.announcement with
  | some a => index < a.total
  -- A copy of a chunk takes no room.
  | none => s.payloads.contains index || decide (s.payloads.size < maxOrphans)

/-- The stream with a chunk. The first chunk of an index counts. -/
def add (s : Pending) (c : Chunk) : Pending :=
  if s.payloads.contains c.index then s
  else { s with payloads := s.payloads.insert c.index c.payload }

end Pending

/-- The number of streams kept at once. -/
def maxPending : Nat := 1024

/-- The age in milliseconds at which a stream is dropped. -/
def timeout : Nat := 300000

/-- The time in milliseconds between two rounds of deliveries. -/
def interval : Nat := 10

/-- Old streams are looked for once in so many rounds. -/
def sweepRounds : Nat := 100

/-- What is there of every stream. -/
structure Reassembler where
  pending : Table UInt32 Pending := .empty
  /-- The streams delivered lately, and when. -/
  finished : Table UInt32 Nat := .empty
  /-- The time, in milliseconds. -/
  now : Nat := 0
deriving DecidableEq

namespace Reassembler

/-- The reassembler at a time. -/
def atTime (r : Reassembler) (now : Nat) : Reassembler := { r with now := now }

/-! ### Taking parts -/

/-- Whether parts of a stream may be kept. -/
def admits (r : Reassembler) (stream : UInt32) : Bool :=
  !r.finished.contains stream &&
    (r.pending.contains stream || decide (r.pending.size < maxPending))

/-- What is there of a stream. -/
def stream (r : Reassembler) (id : UInt32) : Pending :=
  (r.pending.find? id).getD { started := r.now }

/-- Takes a header. -/
def takeHeader (r : Reassembler) (h : StreamHeader) (mailClass : MailClass) : Reassembler :=
  if r.admits h.stream then
    { r with
      pending := r.pending.insert h.stream ((r.stream h.stream).announce h mailClass) }
  else r

/-- Takes a chunk. -/
def takeChunk (r : Reassembler) (c : Chunk) : Reassembler :=
  if r.admits c.stream && (r.stream c.stream).accepts c.index then
    { r with pending := r.pending.insert c.stream ((r.stream c.stream).add c) }
  else r

/-- Takes an opened part of a stream. The class is that of the key that opened it. -/
def handle (r : Reassembler) (flags : Flags) (plaintext : Bytes) (mailClass : MailClass) :
    Except StreamError Reassembler :=
  -- A header comes first, should both flags be set.
  if flags.streamHeader then
    match StreamHeader.decode plaintext with
    | .error e => .error (.wire e)
    | .ok h => .ok (r.takeHeader h mailClass)
  else if flags.chunked then
    match Chunk.decode plaintext with
    | .error e => .error (.wire e)
    | .ok c => .ok (r.takeChunk c)
  else .ok r

/-! ### Delivering and dropping -/

/-- Offers deliveries one after the other: the number that were queued, and the queue. -/
def offerAll (q : DeliveryQueue) (ds : List Delivery) : Nat × DeliveryQueue :=
  ds.foldl (fun (count, q) d =>
    let (queued, q) := q.offer d
    (if queued then count + 1 else count, q)) (0, q)

/-- The streams that are complete. -/
def complete (r : Reassembler) : List (UInt32 × Pending) :=
  r.pending.entries.filter fun e => e.2.isComplete

/-- Offers every complete stream once and remembers it as finished. The answer starts with the
number of deliveries that were queued. -/
def deliver (r : Reassembler) (q : DeliveryQueue) : Nat × Reassembler × DeliveryQueue :=
  let ready := r.complete
  let (count, q) := offerAll q (ready.filterMap fun e => e.2.delivery?)
  (count,
    { r with
      pending := r.pending.filter fun _ s => !s.isComplete
      finished := ready.foldl (fun t e => t.insert e.1 r.now) r.finished },
    q)

/-- Drops the streams that started so many milliseconds ago or earlier, and forgets those that were
finished then. The answer starts with the number of streams dropped. -/
def evict (r : Reassembler) (age : Nat) : Nat × Reassembler :=
  let isFresh (since : Nat) : Bool := decide (r.now - since < age)
  (r.pending.entries.countP fun e => !isFresh e.2.started,
    { r with
      pending := r.pending.filter fun _ s => isFresh s.started
      finished := r.finished.filter fun _ since => isFresh since })

/-- One round of the reassembly loop, of which there were `rounds` before. -/
def round (r : Reassembler) (q : DeliveryQueue) (rounds : Nat) : Reassembler × DeliveryQueue :=
  let (_, r, q) := r.deliver q
  if (rounds + 1) % sweepRounds = 0 then ((r.evict timeout).2, q) else (r, q)

end Reassembler

end Stream

end Courier
