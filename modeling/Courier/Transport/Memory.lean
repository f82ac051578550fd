import Courier.Codec.Call
import Courier.Codec.Frame
import Courier.Transport

/-!
## Calls within one process

A call to a host in the same process is framed, measured and decoded as it would be on a stream of
bytes. The limits of both ends hold: a request that is too long for the server never arrives, and an
answer that is too long for it is replaced by an error.

* `rpc`: one call to a host that is served.
-/

namespace Courier

/-- The error that stands in for an answer whose record of so many bytes is too long. -/
def Response.oversize (length : Nat) : Response :=
  .err ("response of " ++ toString length ++ " bytes exceeds the frame limit")

namespace Memory

/-- The record as a frame, if one can carry it. -/
def frame (record : Bytes) : Except TransportError Bytes :=
  match Frame.encode record with
  | .error e => .error (.codec e)
  | .ok frame => .ok frame

/-- The record in a frame. -/
def unframe (frame : Bytes) : Except TransportError Bytes :=
  match Frame.decode frame with
  | .error e => .error (.codec e)
  | .ok (record, _) => .ok record

/-- The call that arrives at the server. -/
def deliver (own served : Nat) (call : Call) : Except TransportError Call := do
  let frame ← frame call.encode
  checkFrame frame own
  checkFrame frame served
  let record ← unframe frame
  match Call.decode record with
  | .error e => throw (.codec e)
  | .ok call => return call

/-- The answer that the server sends: the handler's, unless that is too long for the server. -/
def reply (served : Nat) (response : Response) : Except TransportError Response := do
  let record := response.encode
  let frame ← frame record
  if served < frame.length then return .oversize record.length else return response

/-- The value that arrives at the caller. -/
def receive (own : Nat) (response : Response) : Except TransportError Value := do
  let frame ← frame response.encode
  checkFrame frame own
  let record ← unframe frame
  match Response.decode record with
  | .error e => throw (.codec e)
  | .ok response =>
    match response.result with
    | .error text => throw (.remote text)
    | .ok v => return v

/-- One call from a transport with the limit `own` to a host that is served with the limit `served`. The
handler answers the call and may change the state of the host. -/
def rpc {σ : Type} (own served : Nat) (handler : Call → σ → Response × σ) (call : Call) (s : σ) :
    Except TransportError Value × σ :=
  match deliver own served call with
  | .error e => (.error e, s)
  | .ok call =>
    let (response, s) := handler call s
    (reply served response >>= receive own, s)

end Memory

end Courier
