import Courier.Tcp.Client
import Courier.Tcp.Stream

/-!
## Connections and what becomes of them

Over a connection, a frame is written and the frame of its answer is read, each by a deadline. The
network may refuse a connection, break it or be late at any point, and it brings an answer in any
pieces.

* `receive`: waits for the frame of one answer.
* `Dialer.over`: connections to a server on such a network.
-/

namespace Courier.Tcp

/-! ### The network -/

/-- What becomes of an attempt to connect. -/
inductive Reach
  | reached
  | refused
  | late
  /-- The connection is there, and cannot be made ready. -/
  | broken (reason : String)

/-- How a frame gets on its way. One that is not written whole may be written in part. -/
inductive Sending
  | whole
  | broken (sent : Nat) (reason : String)
  | late (sent : Nat)

/-- What ends the wait for an answer that does not come whole. -/
inductive Ending
  | closed
  | broken (reason : String)
  | late

/-- The failure that a wait ends with. -/
def Ending.error : Ending → TransportError
  | .closed => .closed
  | .broken reason => .io reason
  | .late => .timeout

/-- What becomes of a frame and its answer: how the frame is written, in pieces of which sizes the
answer is read, and what ends the wait if there is more to come then. -/
structure Fate where
  sending : Sending
  reads : List Nat
  ending : Ending

/-- What becomes of all that is tried, by its number. -/
structure Weather where
  reach : Nat → Reach
  fate : Nat → Fate

/-! ### Exchanges -/

/-- Cuts pieces of given sizes off the front. -/
def cut : List Nat → Bytes → List Bytes
  | [], _ => []
  | size :: sizes, bs => bs.take size :: cut sizes (bs.drop size)

/-- Waits for the record of an answer. With it come the pieces that were not read. What was read
past the frame is not kept. -/
def receive (limit : Nat) (pieces : List Bytes) (ending : Ending) :
    Except TransportError (Bytes × List Bytes) :=
  match Inbound.next limit ⟨[], pieces⟩ with
  | .ok (some record, rest) => .ok (record, rest.pieces)
  | .ok (none, _) | .error .closed => .error ending.error
  | .error e => .error e

/-- A connection. -/
structure Connection where
  /-- How many were opened before. -/
  number : Nat
  /-- All bytes that were written to it. -/
  written : Bytes := []
  /-- How many bytes were read from it. -/
  taken : Nat := 0

/-- A frame that was sent, and the record that came back or what went wrong. -/
structure Attempt where
  connection : Nat
  frame : Bytes
  outcome : Except TransportError Bytes

/-- What has happened on a network. -/
structure Line where
  /-- How many connections were opened. -/
  opened : Nat := 0
  /-- How many things were tried. -/
  turn : Nat := 0
  log : List Attempt := []

/-- Puts an attempt down in the log. -/
def Line.note (l : Line) (a : Attempt) : Line :=
  { l with turn := l.turn + 1, log := l.log ++ [a] }

namespace Connection

variable (answers : Nat → Bytes → List Bytes) (weather : Weather)

/-- Opens a connection. -/
def dial (host : String) (l : Line) : Except TransportError Connection × Line :=
  let later := { l with turn := l.turn + 1 }
  match weather.reach l.turn with
  | .refused => (.error (.unreachable host), later)
  | .late => (.error .timeout, later)
  | .broken reason => (.error (.io reason), later)
  | .reached => (.ok { number := l.opened }, { later with opened := l.opened + 1 })

/-- Writes bytes of a frame. -/
def write (c : Connection) (bs : Bytes) : Connection := { c with written := c.written ++ bs }

/-- Reads the record of an answer from what the server has to send and was not read yet. -/
def read (c : Connection) (fate : Fate) (limit : Nat) : Except TransportError Bytes × Connection :=
  let pieces := cut fate.reads ((answers c.number c.written).flatten.drop c.taken)
  match receive limit pieces fate.ending with
  | .error e => (.error e, c)
  | .ok (record, unread) =>
    (.ok record, { c with taken := c.taken + (pieces.flatten.length - unread.flatten.length) })

/-- Sends a frame and waits for the record of the answer, as far as their fate lets them get. -/
def attempt (c : Connection) (fate : Fate) (frame : Bytes) (limit : Nat) :
    Except TransportError Bytes × Connection :=
  match fate.sending with
  | .broken sent reason => (.error (.io reason), c.write (frame.take sent))
  | .late sent => (.error .timeout, c.write (frame.take sent))
  | .whole => (c.write frame).read answers fate limit

/-- Makes an attempt and notes it. -/
def exchange (c : Connection) (frame : Bytes) (limit : Nat) (l : Line) :
    Except TransportError Bytes × Connection × Line :=
  let (outcome, after) := c.attempt answers (weather.fate l.turn) frame limit
  (outcome, after, l.note ⟨c.number, frame, outcome⟩)

end Connection

/-- Connections to a server that has frames to send when it was sent some bytes over a connection.
-/
def Dialer.over (answers : Nat → Bytes → List Bytes) (weather : Weather) :
    Dialer Connection Line where
  connect := Connection.dial weather
  exchange := Connection.exchange answers weather

end Courier.Tcp
