import Courier.Bytes

/-!
## Delivery

What a node has opened waits in a queue for whoever reads it. The queue is bounded and never makes
anyone wait: what finds it full, or finds the reader done, is dropped and counted.
-/

namespace Courier

/-- The kind of key that opened a message. -/
inductive MailClass
  /-- The node's own content key. -/
  | content
  /-- The key of a channel. -/
  | channel
  /-- The key of another identity. -/
  | profile
deriving DecidableEq, Repr, Inhabited

namespace MailClass

/-- Every class, in order. -/
def all : List MailClass := [content, channel, profile]

/-- The name of a class in reports. -/
def name : MailClass → String
  | content => "Content"
  | channel => "Channel"
  | profile => "Profile"

/-- The class with a name. -/
def ofName? (s : String) : Option MailClass := all.find? fun c => c.name == s

end MailClass

/-- A message that the node has opened. -/
structure Delivery where
  mailClass : MailClass
  /-- The name of the channel it came on. -/
  channel : Option String
  content : Bytes
deriving DecidableEq

/-- Messages that wait for their reader, the oldest first. -/
structure DeliveryQueue where
  /-- The number of messages that may wait. -/
  capacity : Nat
  waiting : List Delivery := []
  /-- Whether the reader still takes messages. -/
  isOpen : Bool := true
  /-- The number of messages that were queued. -/
  delivered : Nat := 0
  /-- The number of messages that were not. -/
  dropped : Nat := 0
deriving DecidableEq

namespace DeliveryQueue

/-- A queue of the given depth. There is always room for one message. -/
def ofDepth (depth : Nat) : DeliveryQueue := { capacity := max depth 1 }

/-- Queues a message, or drops it: whether it was queued, and the queue. -/
def offer (q : DeliveryQueue) (d : Delivery) : Bool × DeliveryQueue :=
  if q.isOpen ∧ q.waiting.length < q.capacity then
    (true, { q with waiting := q.waiting ++ [d], delivered := q.delivered + 1 })
  else (false, { q with dropped := q.dropped + 1 })

/-- Takes the oldest message. -/
def receive (q : DeliveryQueue) : Option Delivery × DeliveryQueue :=
  match q.waiting with
  | [] => (none, q)
  | d :: rest => (some d, { q with waiting := rest })

/-- Takes every message. -/
def receiveAll (q : DeliveryQueue) : List Delivery × DeliveryQueue :=
  (q.waiting, { q with waiting := [] })

/-- The reader takes no more than what waits for it already. -/
def close (q : DeliveryQueue) : DeliveryQueue := { q with isOpen := false }

/-- The reader goes, and what waits for it is lost. -/
def abandon (q : DeliveryQueue) : DeliveryQueue := { q with waiting := [], isOpen := false }

end DeliveryQueue

end Courier
