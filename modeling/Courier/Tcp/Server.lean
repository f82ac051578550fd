import Courier.Codec.Call
import Courier.Tcp.Stream
import Courier.Transport.Memory

/-!
## Serving a connection

A server answers the calls of a connection one after the other. An answer that is too long for a frame
is replaced by an error. Bytes that are no call are answered with an error, and then the connection is
closed, since what follows may be out of step; a frame that is too long closes it without an answer.

* `serve`: all frames that a connection is answered with.
-/

namespace Courier.Tcp

/-- The record that is sent for an answer. -/
def replyRecord (limit : Nat) (response : Response) : Bytes :=
  let record := response.encode
  match Frame.encode record with
  | .ok frame => if frame.length ≤ limit then record else (Response.oversize record.length).encode
  | .error _ => (Response.oversize record.length).encode

/-- The frame that carries a record, if it is not too long. -/
def outgoing (limit : Nat) (record : Bytes) : Except TransportError Bytes := do
  let frame ← Memory.frame record
  checkFrame frame limit
  return frame

/-- The frames that a connection is answered with, and why it was closed if it did not simply end. The
handler answers calls and may change a state. -/
def serve {σ : Type} (limit : Nat) (handler : Call → σ → Response × σ) (i : Inbound) (s : σ) :
    List Bytes × Option TransportError × σ :=
  match _h : i.next limit with
  | .error e => ([], some e, s)
  | .ok (none, _) => ([], none, s)
  | .ok (some record, rest) =>
    match Call.decode record with
    -- No frame is read after one that is no call.
    | .error e =>
      match outgoing limit (Response.err e.message).encode with
      | .error f => ([], some f, s)
      | .ok frame => ([frame], some (.codec e), s)
    | .ok call =>
      let (response, s) := handler call s
      match outgoing limit (replyRecord limit response) with
      | .error f => ([], some f, s)
      | .ok frame =>
        let (later, e, s) := serve limit handler rest s
        (frame :: later, e, s)
termination_by i.size
decreasing_by exact Inbound.size_next_lt ‹_›

end Courier.Tcp
