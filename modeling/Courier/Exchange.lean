import Courier.Codec.Call
import Courier.Node

/-!
## Bundles and rounds of exchange

Peers exchange mail in bundles. A bundle is a batch of envelopes from the outbox, sealed to the routing
key of the node that receives it, with the time of the newest of them, so that the next bundle can
begin after it.

A round of exchange with a peer is a conversation of up to three calls: for the peer's key where it is
not known, for a bundle of the peer's mail, and with a bundle of the node's own. Between two calls the
round waits, and the node may meanwhile do other things.

* `Node.pickup`, `Node.dropoff`: making a bundle, and taking one in.
* `Node.beginRound`, `Node.resumeRound`: a round up to its next call.
-/

namespace Courier

/-- Why a bundle was not made or taken in, or a round failed. -/
inductive SyncError
  | emptyBundle
  | notAddressed
  | crypto (error : SealedBox.OpenError)
  | codec (error : CodecError)
  | transport (error : TransportError)
  | store (error : StoreError)
deriving DecidableEq, Repr

/-- The wording of the error. -/
def SyncError.message : SyncError → String
  | .emptyBundle => "bundle is empty"
  | .notAddressed => "bundle is not addressed to this node's routing key"
  | .crypto e => e.message
  | .codec e => e.message
  | .transport e => e.message
  | .store e => e.message

namespace Bundle

/-- What framing a call or an answer adds to the bundle in it, at most. -/
def frameOverhead : Nat := 64

/-- The longest batch whose bundle fits a frame of a transport with this limit. -/
def budget (byteLimit : Nat) : Nat := byteLimit - (SealedBox.overhead byteLimit + frameOverhead)

/-- The room that a batch takes beside its entries, at most: a tag and a count. -/
def batchOverhead : Nat := 1 + Varint.maxLength

/-- The room that an entry takes in a batch. -/
def cost (e : OutboxEntry) : Nat := Varint.length e.data.length + e.data.length

/-- The entries that go into a batch with room for `budget` bytes, of which `used` are taken. An entry
that no batch has room for is passed over, and the first that has to wait ends the batch. -/
def gather (budget : Nat) : (used : Nat) → List OutboxEntry → List OutboxEntry
  | _, [] => []
  | used, e :: rest =>
    -- No later bundle could carry it either, and everything behind it would wait for ever.
    if budget < cost e then gather budget used rest
    else if budget < used + cost e then []
    else e :: gather budget (used + cost e) rest

/-- The written form of a batch. -/
def batch (entries : List OutboxEntry) : Bytes :=
  Value.encode (.bytesArray (entries.map OutboxEntry.data))

/-- The newest of some entries and a time. -/
def newest (since : Time) (entries : List OutboxEntry) : Time :=
  entries.foldl (fun t e => t.later e.time) since

end Bundle

/-- What a round of exchange has moved. -/
structure ExchangeReport where
  sentBytes : Nat := 0
  receivedBytes : Nat := 0
  /-- The number of the peer's envelopes that were routed. -/
  routed : Nat := 0
deriving DecidableEq, Inhabited

variable [Cryptography]

/-! ### Bundles -/

/-- The envelopes in a bundle, if it is sealed to a key pair. -/
def Bundle.envelopes (b : Bundle) (k : Keypair) : Except SyncError (List Bytes) :=
  if b.isEmpty then .error .emptyBundle
  else match SealedBox.open? k b.data with
    | .error e => .error (.crypto e)
    | .ok none => .error .notAddressed
    | .ok (some batch) =>
      match Value.decode batch >>= Value.toBytesArray with
      | .error e => .error (.codec e)
      | .ok envelopes => .ok envelopes

namespace Node

/-- A bundle for a caller of the entries later than a time, in some channels or, if none is listed, in
all. Its batch is at most `maxBytes` long. Where there is nothing to send, the bundle is empty and
has the time that was asked for. -/
def pickup (n : Node) (caller : PublicKey) (since : Time) (maxBytes : Nat) (channels : List String) :
    Except SyncError Bundle × Node :=
  match n.backend.since since channels with
  | .error e => (.error (.store e), n)
  | .ok entries =>
    let taken := Bundle.gather (maxBytes - Bundle.batchOverhead) 0 entries
    if taken.isEmpty then (.ok (Bundle.empty since), n)
    else
      let (once, n) := n.drawSecret
      (.ok ⟨SealedBox.close caller once (Bundle.batch taken), Bundle.newest since taken⟩, n)

/-- Routes every envelope in a bundle: the number of those that were routed. -/
def dropoff (n : Node) (b : Bundle) : Except SyncError Nat × Node :=
  match b.envelopes n.router.identity.routing with
  | .error e => (.error e, n)
  | .ok envelopes =>
    let (count, router) := n.router.routeAll 0 envelopes
    (.ok count, { n with router := router })

end Node

/-! ### Rounds -/

/-- What a round waits for. -/
inductive RoundStage
  /-- The peer's routing key. -/
  | key
  /-- The peer's mail; the node's own is ready. -/
  | incoming (outgoing : Bundle)
  /-- The receipt of the node's own mail; the peer's is there. -/
  | receipt (outgoing incoming : Bundle)

/-- How a round goes on. -/
inductive Turn
  /-- With a call to the peer, and then with its answer. -/
  | call (call : Call) (stage : RoundStage)
  | done (report : ExchangeReport)
  | failed (error : SyncError)

/-- The number of calls that a round makes at most when it waits for an answer, that one included. -/
def RoundStage.callsLeft : RoundStage → Nat
  | .key => 3
  | .incoming _ => 2
  | .receipt _ _ => 1

/-- The number of calls that a round still makes at most. -/
def Turn.callsLeft : Turn → Nat
  | .call _ stage => stage.callsLeft
  | .done _ => 0
  | .failed _ => 0

/-- The transport and the host of a round. -/
structure RoundLink where
  host : String
  byteLimit : Nat

namespace Node

/-- Takes in the peer's mail, which ends the round. -/
def takeIncoming (n : Node) (link : RoundLink) (report : ExchangeReport) (incoming : Bundle) :
    Turn × Node :=
  if incoming.isEmpty then (.done report, n)
  else
    let received := incoming.data.length
    match n.dropoff incoming with
    | (.error e, n) => (.failed e, n)
    | (.ok routed, n) =>
      (.done { report with receivedBytes := received, routed := routed },
        n.updatePeer link.host fun info =>
          { info with
            lastRemote := info.lastRemote.later incoming.time
            receivedBytes := info.receivedBytes + received })

/-- Hands over the node's own mail, if there is any. -/
def handOver (n : Node) (link : RoundLink) (outgoing incoming : Bundle) : Turn × Node :=
  if outgoing.isEmpty then n.takeIncoming link {} incoming
  else (.call ⟨.dropoff, [.bundle outgoing]⟩ (.receipt outgoing incoming), n)

/-- Prepares the node's own mail for a peer whose key is known, and asks for the peer's. -/
def askForMail (n : Node) (link : RoundLink) (key : PublicKey) : Turn × Node :=
  -- A host is known from the first round on that gets as far as this.
  let n := n.updatePeer link.host id
  let info := (n.peerInfo? link.host).getD {}
  let budget := Bundle.budget link.byteLimit
  match n.pickup key info.lastLocal budget [] with
  | (.error e, n) => (.failed e, n)
  | (.ok outgoing, n) =>
    let args := [.publicKey n.router.identity.routing.publicKey, .int info.lastRemote,
      .uint (UInt64.ofNat budget)] ++ n.settings.sync.channelFilter.map Value.string
    (.call ⟨.pickup, args⟩ (.incoming outgoing), n)

/-- Begins a round with a peer, whose routing key may be given. -/
def beginRound (n : Node) (link : RoundLink) (given : Option PublicKey) : Turn × Node :=
  match given with
  | some key =>
    (n.updatePeer link.host fun info => { info with routingKey := some key }).askForMail link key
  | none =>
    match (n.peerInfo? link.host).bind PeerInfo.routingKey with
    | some key => n.askForMail link key
    | none => (.call ⟨.id, []⟩ .key, n)

/-- Resumes a round with the answer to its call. -/
def resumeRound (n : Node) (link : RoundLink) (stage : RoundStage)
    (answer : Except TransportError Value) : Turn × Node :=
  match answer with
  | .error e => (.failed (.transport e), n)
  | .ok v =>
    match stage with
    | .key =>
      match v.toPublicKey with
      | .error e => (.failed (.codec e), n)
      | .ok key =>
        (n.updatePeer link.host fun info => { info with routingKey := some key }).askForMail link key
    | .incoming outgoing =>
      match v.toBundle with
      | .error e => (.failed (.codec e), n)
      | .ok incoming => n.handOver link outgoing incoming
    | .receipt outgoing incoming =>
      let sent := outgoing.data.length
      -- The peer has confirmed, so what it has received is not offered again.
      (n.updatePeer link.host fun info =>
        { info with
          lastLocal := info.lastLocal.later outgoing.time
          sentBytes := info.sentBytes + sent }).takeIncoming link { sentBytes := sent } incoming

/-! ### Rounds end -/

theorem callsLeft_takeIncoming (n : Node) (link : RoundLink) (report : ExchangeReport)
    (incoming : Bundle) : (n.takeIncoming link report incoming).1.callsLeft = 0 := by
  unfold takeIncoming
  split
  · rfl
  · dsimp only
    split <;> rfl

theorem callsLeft_askForMail (n : Node) (link : RoundLink) (key : PublicKey) :
    (n.askForMail link key).1.callsLeft ≤ 2 := by
  unfold askForMail
  dsimp only
  split <;> simp [Turn.callsLeft, RoundStage.callsLeft]

/-- Every answer brings a round nearer to its end. -/
theorem callsLeft_resumeRound (n : Node) (link : RoundLink) (stage : RoundStage)
    (answer : Except TransportError Value) :
    (n.resumeRound link stage answer).1.callsLeft < stage.callsLeft := by
  unfold resumeRound
  split
  · cases stage <;> simp [Turn.callsLeft, RoundStage.callsLeft]
  · split
    · split
      · simp [Turn.callsLeft, RoundStage.callsLeft]
      · exact Nat.lt_succ_of_le (callsLeft_askForMail _ _ _)
    · split
      · simp [Turn.callsLeft, RoundStage.callsLeft]
      · unfold handOver
        split
        · rw [callsLeft_takeIncoming]
          simp [RoundStage.callsLeft]
        · simp [Turn.callsLeft, RoundStage.callsLeft]
    · rw [callsLeft_takeIncoming]
      simp [RoundStage.callsLeft]

end Node

end Courier
