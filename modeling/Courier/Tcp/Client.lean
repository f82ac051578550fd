import Courier.Codec.Call
import Courier.Codec.Frame
import Courier.Transport.Memory

/-!
## Calling over connections

A client keeps one connection for each host and uses it again for the next call. If a connection that
was kept turns out to be dead, the call is made once more over a new one. A connection is kept after a
call only if an answer came over it, so that no answer is ever taken for that of another call.

* `rpc`: one call to a host.
* `bindError`: why an address cannot be served.
-/

namespace Courier.Tcp

/-- A failure that the system reports. -/
structure SystemError where
  text : String
  code : Nat
deriving DecidableEq, Repr

/-- The wording of the error. -/
def SystemError.message (e : SystemError) : String :=
  e.text ++ " (os error " ++ toString e.code ++ ")"

/-- What connections are made with. -/
structure Dialer (κ σ : Type) where
  /-- Connects to a host. -/
  connect : String → σ → Except TransportError κ × σ
  /-- Sends a frame and waits for the record of the answer, whose frame is at most so long. -/
  exchange : κ → (frame : Bytes) → (limit : Nat) → σ → Except TransportError Bytes × κ × σ

/-- A network that reaches no host. -/
def Dialer.unreachable : Dialer Empty Unit where
  connect host s := (.error (.unreachable host), s)
  exchange c := nomatch c

variable {κ σ : Type}

/-- The value in the record of an answer. -/
def valueOf (record : Bytes) : Except TransportError Value :=
  match Response.decode record with
  | .error e => .error (.codec e)
  | .ok response =>
    match response.result with
    | .error text => .error (.remote text)
    | .ok v => .ok v

/-- Whether a kept connection was dead, so that the call may be made again. -/
def isDead : TransportError → Bool
  | .io _ | .closed => true
  | _ => false

/-- Calls over a new connection, which is kept if an answer comes. -/
def callAnew (d : Dialer κ σ) (limit : Nat) (host : String) (frame : Bytes) (s : σ) :
    Except TransportError Value × Option κ × σ :=
  match d.connect host s with
  | (.error e, s) => (.error e, none, s)
  | (.ok c, s) =>
    match d.exchange c frame limit s with
    | (.error e, _, s) => (.error e, none, s)
    | (.ok record, c, s) => (valueOf record, some c, s)

/-- Calls over the kept connection, and over a new one if there is none or it is dead. -/
def callFrame (d : Dialer κ σ) (limit : Nat) (host : String) (frame : Bytes) (kept : Option κ)
    (s : σ) : Except TransportError Value × Option κ × σ :=
  match kept with
  | none => callAnew d limit host frame s
  | some c =>
    match d.exchange c frame limit s with
    | (.ok record, c, s) => (valueOf record, some c, s)
    | (.error e, _, s) =>
      -- After any other failure the answer may still be under way: the connection is given up, so
      -- that it is not taken for the answer to the next call.
      if isDead e then callAnew d limit host frame s else (.error e, none, s)

/-- One call to a host with the connection that was kept for it: the value, and the connection to keep. -/
def rpc (d : Dialer κ σ) (limit : Nat) (host : String) (call : Call) (kept : Option κ) (s : σ) :
    Except TransportError Value × Option κ × σ :=
  match Memory.frame call.encode with
  | .error e => (.error e, kept, s)
  | .ok frame =>
    match checkFrame frame limit with
    | .error e => (.error e, kept, s)
    | .ok () => callFrame d limit host frame kept s

/-- Calls to one host, one after the other. -/
def rpcAll (d : Dialer κ σ) (limit : Nat) (host : String) (kept : Option κ) (s : σ) :
    List Call → List (Except TransportError Value)
  | [] => []
  | call :: rest =>
    let (answer, kept, s) := rpc d limit host call kept s
    answer :: rpcAll d limit host kept s rest

/-- Why the system does not give an address to serve. -/
inductive BindFailure
  | inUse
  | other (error : SystemError)

/-- Why an address cannot be served. -/
def bindError (address : String) : BindFailure → TransportError
  | .inUse => .addressInUse address
  | .other e => .io e.message

end Courier.Tcp
