import Courier.Agenda
import Courier.Host
import Courier.Transport.Memory

/-!
## Nodes on one hub

Several nodes in one process reach each other through a hub, where each address is served by one node
at most. Time passes only where the mesh is told to wait, and in it the jobs of the nodes act.

* `Network.rpc`: a call to whoever serves an address.
* `Network.exchange`: a whole round of exchange between two nodes.
* `Mesh.wait`: lets time pass.
-/

namespace Courier

/-- Who serves an address. -/
structure Binding where
  host : String
  surface : Surface
  byteLimit : Nat

/-- The nodes and what they serve. -/
structure Network where
  hosts : Table String Host := .empty
  /-- Who serves each address. -/
  bound : Table String Binding := .empty
  /-- The time of day by which old entries are told. -/
  timeOfDay : Time

namespace Network

/-- The nodes at a time in milliseconds. -/
def atTime (w : Network) (now : Nat) : Network :=
  { w with hosts := w.hosts.map fun h =>
      { h with node.router.streams := h.node.router.streams.atTime now } }

/-- The network with another node at a host. -/
def setNode (w : Network) (name : String) (h : Host) (n : Node) : Network :=
  { w with hosts := w.hosts.insert name { h with node := n } }

/-- Serves a surface at an address, unless that is empty or served already. -/
def bind (w : Network) (address : String) (b : Binding) : Network :=
  if address.isEmpty || w.bound.contains address then w
  else { w with bound := w.bound.insert address b }

/-- No longer serves what a host served. -/
def unbind (w : Network) (host : String) : Network :=
  { w with bound := w.bound.filter fun _ b => b.host != host }

variable [Cryptography]

/-- A call from a transport with some limit to whoever serves an address. -/
def rpc (w : Network) (byteLimit : Nat) (address : String) (call : Call) :
    Except TransportError Value × Network :=
  match w.bound.find? address with
  | none => (.error (.unreachable address), w)
  | some b =>
    match w.hosts.find? b.host with
    | none => (.error (.unreachable address), w)
    | some h =>
      let (answer, n) :=
        Memory.rpc byteLimit b.byteLimit (fun call n => n.handle b.surface call) call h.node
      (answer, w.setNode b.host h n)

/-- Carries a round of a host on to its end. -/
def finishRound (w : Network) (name : String) (link : RoundLink) (turn : Turn) :
    Except SyncError ExchangeReport × Network :=
  match turn with
  | .done report => (.ok report, w)
  | .failed e => (.error e, w)
  | .call call stage =>
    let (answer, w) := w.rpc link.byteLimit link.host call
    match w.hosts.find? name with
    -- A host that has gone in the meantime has nobody to resume its round.
    | none => (.error (.transport .closed), w)
    | some h =>
      match _h : h.node.resumeRound link stage answer with
      | (next, n) => finishRound (w.setNode name h n) name link next
termination_by turn.callsLeft
decreasing_by
  have := h.node.callsLeft_resumeRound link stage answer
  simp_all [Turn.callsLeft]

/-- A whole round of exchange of a host with whoever serves an address. -/
def exchange (w : Network) (name : String) (t : Transport) (address : String)
    (key : Option PublicKey) : Except SyncError ExchangeReport × Network :=
  match w.hosts.find? name with
  | none => (.error (.transport .closed), w)
  | some h =>
    let link : RoundLink := ⟨address, t.byteLimit⟩
    let (turn, n) := h.node.beginRound link key
    (w.setNode name h n).finishRound name link turn

/-- One pass of a policy over the peers of a host. -/
def pollPass (w : Network) (name : String) (h : Host) (p : PollPolicy) :
    Except StoreError PassReport × PollPolicy × Network :=
  match h.node.backend.list Peer with
  | .error e => (.error e, p, w)
  | .ok peers =>
    let s := p.pass h.node.transports (fun t address w =>
      let (result, w) := w.exchange name t address none
      (result.toOption.isSome, w)) peers w
    (.ok s.report, s.policy, s.world)

omit [Cryptography] in
/-- Drops the entries of a host that are too old, if it is time to. -/
def flushIfDue (w : Network) (name : String) (p : PollPolicy) (now : Nat) :
    Except StoreError Nat × PollPolicy × Network :=
  match w.hosts.find? name with
  | none => (.ok 0, p, w)
  | some h =>
    match p.flushIfDue h.node.backend now w.timeOfDay with
    | (.error e, p) => (.error e, p, w)
    | (.ok (count, backend), p) => (.ok count, p, w.setNode name h (h.node.withBackend backend))

omit [Cryptography] in
/-- Draws the time to the next pass of a policy. -/
def drawDelay (w : Network) (name : String) (p : PollPolicy) : Nat × Network :=
  match w.hosts.find? name with
  | none => (p.delay 0, w)
  | some h =>
    let (share, entropy) := h.node.entropy.drawFraction
    (p.delay share, w.setNode name h { h.node with entropy := entropy })

end Network

/-- A task of a host. -/
structure Errand where
  host : String
  task : Task

namespace Network

variable [Cryptography]

/-- Does a task of a host once, and says when it has its next turn. -/
def act (now : Nat) (e : Errand) (w : Network) : Option (Appointment Errand) × Network :=
  let w := w.atTime now
  match w.hosts.find? e.host with
  | none => (none, w)
  | some h =>
    match e.task with
    | .reassembly rounds =>
      let (streams, queue) := h.node.router.streams.round h.node.router.queue rounds
      (some ⟨now + Stream.interval, ⟨e.host, .reassembly (rounds + 1)⟩⟩,
        w.setNode e.host h
          { h.node with router := { h.node.router with streams := streams, queue := queue } })
    | .polling p =>
      -- A pass or a clearing that fails is tried again at the next turn.
      let (_, p, w) := w.pollPass e.host h p
      let (_, p, w) := w.flushIfDue e.host p now
      let (delay, w) := w.drawDelay e.host p
      (some ⟨now + delay, ⟨e.host, .polling p⟩⟩, w)
    | .listening surface t address => (none, w.bind address ⟨e.host, surface, t.byteLimit⟩)
    | .peerPolling t address =>
      let (_, w) := w.exchange e.host t address none
      let interval := secondsOrOne h.node.settings.discovery.peerPollIntervalSeconds
      (some ⟨now + interval, e⟩, w)

end Network

/-- A network and the jobs of its nodes. -/
structure Mesh where
  network : Network
  agenda : Agenda Errand := {}

namespace Mesh

variable [Cryptography]

/-- Lets some milliseconds pass. With none, the jobs that are due have their turn. -/
def wait (m : Mesh) (time : Nat) : Mesh :=
  let (agenda, w) := m.agenda.wait time Network.act m.network
  { agenda := agenda, network := w.atTime agenda.now }

/-- Enters a job of a host. All but the polling of the stored peers begin at once. -/
def enter (m : Mesh) (host : String) (job : Job) : Mesh :=
  let (delay, w) := match job.task with
    | .polling p => m.network.drawDelay host p
    | _ => (0, m.network)
  { network := w, agenda := m.agenda.add delay ⟨host, job.task⟩ }

/-- Puts a host with new jobs in its place, and lets them begin. -/
def begin (m : Mesh) (host : String) (started : List Job × Host) : Mesh :=
  let w := { m.network with hosts := m.network.hosts.insert host started.2 }
  (started.1.foldl (fun (m : Mesh) job => m.enter host job) { m with network := w }).wait 0

omit [Cryptography] in
/-- Stops a host. -/
def stop (m : Mesh) (host : String) : Mesh :=
  match m.network.hosts.find? host with
  | none => m
  | some h =>
    match h.stop with
    -- A job that goes on is waited for without end.
    | none => m
    | some (_, h) =>
      let w := { m.network with hosts := m.network.hosts.insert host h }
      { network := w.unbind host, agenda := m.agenda.strike fun e => e.host == host }

end Mesh

end Courier
