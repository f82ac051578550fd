import Courier.Codec.Error
import Courier.Record
import Courier.Stream.Split
import Courier.Table

/-!
## Transports

A transport carries framed calls to hosts and framed answers back, up to a longest frame. A node has
one transport for each scheme that it can reach peers by.
-/

namespace Courier

/-- Why a call was not answered, or an address is not served. -/
inductive TransportError
  | unreachable (host : String)
  | addressInUse (address : String)
  | timeout
  | frameTooLarge (size limit : Nat)
  | closed
  /-- The other side answered with an error. -/
  | remote (text : String)
  | codec (error : CodecError)
  | io (reason : String)
deriving DecidableEq, Repr

/-- The wording of the error. -/
def TransportError.message : TransportError → String
  | .unreachable host => "host " ++ host ++ " unreachable"
  | .addressInUse address => "address " ++ address ++ " already in use"
  | .timeout => "rpc timed out"
  | .frameTooLarge size limit =>
    "frame of " ++ toString size ++ " bytes exceeds the " ++ toString limit ++ "-byte limit"
  | .closed => "connection closed"
  | .remote text => "remote error: " ++ text
  | .codec e => e.message
  | .io reason => reason

/-- Refuses a frame that is longer than a limit. -/
def checkFrame (frame : Bytes) (limit : Nat) : Except TransportError Unit :=
  if limit < frame.length then .error (.frameTooLarge frame.length limit) else .ok ()

/-- A way to reach hosts. -/
structure Transport where
  /-- The scheme that the transport was made for. -/
  scheme : String
  /-- The longest frame that it carries. -/
  byteLimit : Nat
deriving DecidableEq, Repr

/-- The transports of a node by scheme. -/
abbrev Transports := Table String Transport

namespace Transports

/-- The transport that a node serves its surfaces with: that of the default scheme or, without one,
the first. -/
def primary (ts : Transports) : Option Transport :=
  match ts.find? defaultScheme with
  | some t => some t
  | none => ts.values.head?

/-- The longest frame of each transport. -/
def limits (ts : Transports) : List Nat := ts.values.map Transport.byteLimit

/-- The longest frame that every transport carries. -/
def byteLimit (ts : Transports) : Option Nat := ts.limits.min?

/-- The longest plaintext of an envelope that every transport carries. -/
def chunkSize (ts : Transports) : Except StreamError Nat := Stream.chunkSize ts.limits

end Transports

end Courier
