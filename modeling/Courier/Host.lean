import Courier.Registry

/-!
## Starting and stopping a node

A host runs a node. It keeps a list of the jobs that the node does by itself: putting streams
together, of which there is one job once the node is started, the policies it was started with,
listeners, and loops that poll a single peer. Stopping ends all of them, and the node may be started
again.

A job is told to stop by a signal that all jobs listen for. It hears the signals that are sent after
it began to listen, and no others.

* `Host.Act`: what is done with a host step by step, where a step that fails undoes nothing.
* `Host.start`: starts all policies named or, if one of them cannot be, none.
* `Host.stop`: ends every job.
-/

namespace Courier

/-- A task and the name it runs under. -/
structure Job where
  name : String
  task : Task
  /-- How many signals had been sent when the job began to listen for them. -/
  since : Nat

/-- A node with the jobs it does by itself. -/
structure Host where
  node : Node
  registry : Registry
  jobs : List Job := []
  /-- Whether streams are being put together. -/
  started : Bool := false
  /-- How many signals to stop have been sent. -/
  signals : Nat := 0

namespace Host

/-- A host whose node has one of each transport in a registry. -/
def create (registry : Registry) (settings : Settings) (identity : Identity) (backend : Backend)
    (clock : Clock) (entropy : Entropy) : Except NodeError Host :=
  let transports := registry.buildTransports settings.network
  (Node.create settings transports identity backend clock entropy).map fun n =>
    { node := n, registry := registry }

/-- The task of a policy. -/
def policyTask (h : Host) (now : Nat) (name : String) : Except NodeError Task :=
  match h.registry.policies.find? name with
  | none => .error (.unknownPolicy name)
  | some make => make h.node now

/-! ### Acts -/

/-- What is done with a host until it fails. What has been done by then stays. -/
abbrev Act := ExceptT NodeError (StateM Host)

namespace Act

/-- Begins to listen for the signal to stop. -/
def subscribe : Act Nat := return (← get).signals

/-- Takes up a job. -/
def spawn (job : Job) : Act Unit := modify fun h => { h with jobs := h.jobs ++ [job] }

/-- The job of a policy, which has not begun. -/
def prepare (now : Nat) (name : String) : Act Job := do
  let task ← (← get).policyTask now name
  return ⟨name, task, ← subscribe⟩

/-- Puts streams together from now on, unless that is being done. -/
def reassemble : Act Unit := do
  let before ← getModify fun h => { h with started := true }
  unless before.started do
    spawn ⟨"reassembly", .reassembly 0, ← subscribe⟩

/-- Starts policies, once all of their names are known and their tasks made. -/
def start (now : Nat) (policies : List String) : Act Unit := do
  let ready ← policies.mapM (prepare now)
  reassemble
  forM ready spawn

/-- Serves a surface at an address with the primary transport. -/
def listen (surface : Surface) (address : String) : Act Unit := do
  match (← get).node.transports.primary with
  | none => throw .noTransports
  | some t =>
    let name := match surface with
      | .everyone => "listener"
      | .owner => "admin-listener"
    spawn ⟨name, .listening surface t address, ← subscribe⟩

/-- Polls one peer until the node is stopped. -/
def pollPeer (uri : String) : Act Unit := do
  let (scheme, address) := splitUri uri
  match (← get).node.transports.find? scheme with
  | none => throw (.unknownScheme scheme)
  | some t => spawn ⟨uri, .peerPolling t address, ← subscribe⟩

end Act

/-- Does something with a host: the jobs that begin with it, and the host afterwards. -/
def does (h : Host) (act : Act Unit) : Except NodeError (List Job × Host) :=
  match act.run.run h with
  | (.error e, _) => .error e
  | (.ok (), after) => .ok (after.jobs.drop h.jobs.length, after)

/-- Starts policies: the jobs that begin. -/
def start (h : Host) (now : Nat) (policies : List String) : Except NodeError (List Job × Host) :=
  h.does (Act.start now policies)

/-- Serves a surface at an address. -/
def listen (h : Host) (surface : Surface) (address : String) : Except NodeError (List Job × Host) :=
  h.does (Act.listen surface address)

/-- Polls one peer. -/
def pollPeer (h : Host) (uri : String) : Except NodeError (List Job × Host) :=
  h.does (Act.pollPeer uri)

/-! ### Stopping -/

/-- Waits for a job to end, which it does when it has heard a signal. One that has heard none goes
on, and the wait has no end. -/
def join (h : Host) (job : Job) : Option Job := if job.since < h.signals then some job else none

/-- Ends every job: sends a signal, and waits for the jobs one after the other. The answer holds the
jobs that were ended. -/
def stop (h : Host) : Option (List Job × Host) := do
  let told := { h with signals := h.signals + 1, jobs := [] }
  let ended ← h.jobs.mapM told.join
  return (ended, { told with started := false })

end Host

end Courier
