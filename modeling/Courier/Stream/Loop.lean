import Courier.Agenda
import Courier.Stream.Reassembly

/-!
## The reassembly loop

A loop delivers complete streams every few milliseconds, beginning at once, and now and then drops old
ones. Any number of loops may run over the same streams.
-/

namespace Courier.Stream

/-- Streams, the queue they are delivered to, and the loops that deliver them. -/
structure Station where
  streams : Reassembler := {}
  queue : DeliveryQueue
  /-- The loops, as the numbers of their rounds so far. -/
  loops : Agenda Nat := {}

namespace Station

/-- Starts a loop. -/
def startLoop (s : Station) : Station := { s with loops := s.loops.add 0 0 }

/-- Stops every loop, and tells their number. -/
def stopLoops (s : Station) : Nat × Station :=
  (s.loops.waiting.length, { s with loops := s.loops.strike fun _ => true })

/-- One round of a loop. -/
def act (now rounds : Nat) (s : Reassembler × DeliveryQueue) :
    Option (Appointment Nat) × (Reassembler × DeliveryQueue) :=
  (some ⟨now + interval, rounds + 1⟩, (s.1.atTime now).round s.2 rounds)

/-- Lets some milliseconds pass. -/
def wait (s : Station) (time : Nat) : Station :=
  let (loops, streams, queue) := s.loops.wait time act (s.streams, s.queue)
  { streams := streams.atTime loops.now, queue := queue, loops := loops }

/-- Delivers what is complete, and tells how much was queued. -/
def deliver (s : Station) : Nat × Station :=
  let (count, streams, queue) := s.streams.deliver s.queue
  (count, { s with streams := streams, queue := queue })

end Station

end Courier.Stream
