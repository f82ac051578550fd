import Courier.Entropy
import Courier.Router
import Courier.Text.Quoted
import Courier.Transport

/-!
## Nodes

A node is a router with transports to reach its peers by, and with what it knows about them. It sends
content to a public key or posts it to a channel: sealed in one envelope or, where that is too long
for a transport, as a stream of several. Its own envelopes are remembered, so that they are passed
over when they come back.

* `Node.create`: a node, unless its transports leave no room for content.
* `Node.send`, `Node.sendTo`, `Node.sendChannel`: the number of envelopes that were queued.
-/

namespace Courier

/-! ### Errors -/

/-- Why a node did not do what it was asked to. -/
inductive NodeError
  | unknownContact (name : String)
  | unknownChannel (name : String)
  | unknownProfile (name : String)
  | unknownPolicy (name : String)
  | unknownScheme (scheme : String)
  | noTransports
  | channelNameTooLong (length max : Nat)
  | store (error : StoreError)
  | wire (error : WireError)
  | stream (error : StreamError)
deriving DecidableEq, Repr

/-- The wording of the error. -/
def NodeError.message : NodeError → String
  | .unknownContact name => "no contact named " ++ Text.quoted name
  | .unknownChannel name => "no channel named " ++ Text.quoted name
  | .unknownProfile name => "no profile named " ++ Text.quoted name
  | .unknownPolicy name => "no policy named " ++ Text.quoted name
  | .unknownScheme scheme => "no transport for scheme " ++ Text.quoted scheme
  | .noTransports => "no transports registered"
  | .channelNameTooLong length max =>
    "channel name of " ++ toString length ++ " bytes leaves no room for content (at most " ++
      toString max ++ ")"
  | .store e => e.message
  | .wire e => e.message
  | .stream e => e.message

/-! ### The state of a node -/

/-- What a node knows about a peer. The times only ever move forward. -/
structure PeerInfo where
  routingKey : Option PublicKey := none
  /-- The newest entry of the node's outbox that the peer has received. -/
  lastLocal : Time := 0
  /-- The newest entry of the peer's outbox that the node has received. -/
  lastRemote : Time := 0
  sentBytes : Nat := 0
  receivedBytes : Nat := 0
deriving DecidableEq, Inhabited

/-- A node. -/
structure Node where
  settings : Settings
  transports : Transports
  /-- The longest plaintext of an envelope that every transport carries. -/
  chunkSize : Nat
  router : Router
  /-- What is known about each host. -/
  peers : Table String PeerInfo := .empty
  entropy : Entropy

namespace Node

/-- A node with some transports, unless they leave no room for content. -/
def create (settings : Settings) (transports : Transports) (identity : Identity)
    (backend : Backend) (clock : Clock) (entropy : Entropy) : Except NodeError Node :=
  match transports.chunkSize with
  | .error e => .error (.stream e)
  | .ok chunkSize => .ok {
      settings := settings
      transports := transports
      chunkSize := chunkSize
      router := {
        settings := settings.routing
        identity := identity
        backend := backend
        clock := clock
        queue := .ofDepth settings.delivery.queueDepth }
      entropy := entropy }

/-- The store of a node. -/
def backend (n : Node) : Backend := n.router.backend

/-- The node with another store. -/
def withBackend (n : Node) (backend : Backend) : Node := { n with router.backend := backend }

/-- What is known about a host, if anything is. -/
def peerInfo? (n : Node) (host : String) : Option PeerInfo := n.peers.find? host

/-- The node with a change to what is known about a host. -/
def updatePeer (n : Node) (host : String) (f : PeerInfo → PeerInfo) : Node :=
  { n with peers := n.peers.insert host (f ((n.peers.find? host).getD {})) }

/-- The next secret of the node's supply. -/
def drawSecret (n : Node) : Key × Node :=
  let (k, entropy) := n.entropy.draw
  (k, { n with entropy := entropy })

/-! ### Sending -/

/-- The longest channel name that leaves room for content. The header of a stream carries the name
again, so a name takes at most half the room beside the header. -/
def maxNameLength (chunkSize : Nat) : Nat := (chunkSize - Chunk.headerLength) / 2 - 2

/-- The longest plaintext of an envelope in a channel. An empty name takes more than a chunk of one
byte; the difference is then that of machine words, and no envelope of such a channel is sealed. -/
def contentRoom (chunkSize : Nat) (channel : Option String) : Except NodeError Nat :=
  match channel with
  | none => .ok chunkSize
  | some name =>
    let length := name.utf8ByteSize
    let header := 2 + length
    if maxNameLength chunkSize < length then
      .error (.channelNameTooLong length (maxNameLength chunkSize))
    else if header ≤ chunkSize then .ok (chunkSize - header)
    else .ok (UInt64.size + chunkSize - header)

/-- The pieces that a content is sent in: one if it fits the room, else a stream. -/
def pieces (content : Bytes) (room : Nat) (channel : Option String) (stream : UInt32) :
    Except NodeError (List Stream.Piece) :=
  if content.length ≤ room then .ok [⟨Flags.none, content⟩]
  else match Stream.split content room channel stream with
    | .error e => .error (.stream e)
    | .ok pieces => .ok pieces

variable [Cryptography]

/-- Seals a piece, remembers the envelope and queues it. -/
def emitPiece (n : Node) (recipient : PublicKey) (channel : Option String) (piece : Stream.Piece) :
    Except NodeError Unit × Node :=
  let (once, n) := n.drawSecret
  match Envelope.close piece.plaintext recipient once piece.flags channel with
  | .error e => (.error (.wire e), n)
  | .ok data =>
    match n.router.remember data with
    | .error e => (.error (.wire e), n)
    -- Should queueing fail, the envelope stays remembered; no other has its fingerprint.
    | .ok router =>
      match router.post (channel.getD "") data with
      | .error e => (.error (.store e), { n with router := router })
      | .ok router => (.ok (), { n with router := router })

/-- Queues pieces one after the other up to the first that fails. -/
def emitAll (n : Node) (recipient : PublicKey) (channel : Option String) :
    List Stream.Piece → Except NodeError Unit × Node
  | [] => (.ok (), n)
  | piece :: rest =>
    match n.emitPiece recipient channel piece with
    | (.error e, n) => (.error e, n)
    | (.ok (), n) => emitAll n recipient channel rest

/-- Queues a content for a recipient, tagged with a channel or none: the number of envelopes. -/
def emit (n : Node) (recipient : PublicKey) (channel : Option String) (content : Bytes) :
    Except NodeError Nat × Node :=
  match contentRoom n.chunkSize channel with
  | .error e => (.error e, n)
  | .ok room =>
    let (stream, entropy) := n.entropy.draw32
    match pieces content room channel stream with
    | .error e => (.error e, n)
    | .ok pieces =>
      match emitAll { n with entropy := entropy } recipient channel pieces with
      | (.error e, n) => (.error e, n)
      | (.ok (), n) => (.ok pieces.length, n)

/-- Sends a content to a public key. -/
def sendTo (n : Node) (recipient : PublicKey) (content : Bytes) : Except NodeError Nat × Node :=
  n.emit recipient none content

/-- Sends a content to a contact. -/
def send (n : Node) (contact : String) (content : Bytes) : Except NodeError Nat × Node :=
  match n.backend.get? Contact contact with
  | .error e => (.error (.store e), n)
  | .ok none => (.error (.unknownContact contact), n)
  | .ok (some c) => n.sendTo c.publicKey content

/-- Posts a content to a channel. -/
def sendChannel (n : Node) (channel : String) (content : Bytes) : Except NodeError Nat × Node :=
  match n.backend.get? Channel channel with
  | .error e => (.error (.store e), n)
  | .ok none => (.error (.unknownChannel channel), n)
  | .ok (some c) => n.emit c.keypair.publicKey (some c.name) content

/-- Takes the key of another identity as content key, and gives its public half. -/
def loadProfile (n : Node) (name : String) : Except NodeError PublicKey × Node :=
  match n.backend.get? Profile name with
  | .error e => (.error (.store e), n)
  | .ok none => (.error (.unknownProfile name), n)
  | .ok (some p) =>
    let (_, identity) := n.router.identity.swapContent p.keypair
    (.ok p.keypair.publicKey, { n with router.identity := identity })

end Node

end Courier
