import Courier.PollPolicy
import Courier.Surface

/-!
## What a node is built of

A registry knows how to make the transports of a node, by scheme, and the policies that it may be
started with, by name. A policy is a task that a node does by itself until it is stopped.
-/

namespace Courier

/-- What a node does by itself. -/
inductive Task
  /-- Delivers complete streams, after so many rounds of doing so. -/
  | reassembly (rounds : Nat)
  /-- Polls the stored peers. -/
  | polling (policy : PollPolicy)
  /-- Serves a surface at an address. -/
  | listening (surface : Surface) (transport : Transport) (address : String)
  /-- Polls one host. -/
  | peerPolling (transport : Transport) (host : String)

/-- Makes the task of a policy for a node, at a time in milliseconds. -/
abbrev PolicyMaker := Node → (now : Nat) → Except NodeError Task

/-- What nodes can be built of. -/
structure Registry where
  transports : Table String (NetworkSettings → Transport) := .empty
  policies : Table String PolicyMaker := .empty

namespace Registry

/-- Polls the stored peers. -/
def pollPolicy : PolicyMaker := fun n now =>
  .ok (.polling { settings := n.settings.sync, flushed := now })

/-- Serves a surface at its address in the settings. -/
def listenPolicy (surface : Surface) : PolicyMaker := fun n _ =>
  match n.transports.primary with
  | none => .error .noTransports
  | some t =>
    .ok (.listening surface t (match surface with
      | .everyone => n.settings.network.publicAddress
      | .owner => n.settings.network.adminAddress))

/-- The policies that every node has. -/
def withDefaults : Registry where
  policies := .ofList [
    ("poll", pollPolicy), ("listen", listenPolicy .everyone), ("admin", listenPolicy .owner)]

/-- The registry with a transport, in place of one of the same scheme. -/
def addTransport (r : Registry) (scheme : String) (make : NetworkSettings → Transport) : Registry :=
  { r with transports := r.transports.insert scheme make }

/-- The registry with a policy, in place of one of the same name. -/
def addPolicy (r : Registry) (name : String) (make : PolicyMaker) : Registry :=
  { r with policies := r.policies.insert name make }

/-- One of each transport. -/
def buildTransports (r : Registry) (settings : NetworkSettings) : Transports :=
  r.transports.map fun make => make settings

end Registry

end Courier
