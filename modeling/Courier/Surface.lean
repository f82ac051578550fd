import Courier.Exchange

/-!
## Surfaces

A node answers calls on two surfaces. The public one is for peers: it tells the routing key, hands out
mail and takes mail in. The one for the owner also keeps the records, exchanges the content key and
sends.

* `Request.ofCall`: what a call asks for, once its arguments are read.
* `Node.handle`: the answer to a call.
-/

namespace Courier

/-! ### Requests -/

/-- What a call asks for. -/
inductive Request
  | id
  | pickup (caller : PublicKey) (since : Time) (maxBytes : Nat) (channels : List String)
  | dropoff (bundle : Bundle)
  | list (kind : RecordKind)
  | get (kind : RecordKind) (name : String)
  | putChannel (record : Channel)
  | putContact (record : Contact)
  | putProfile (record : Profile)
  | putPeer (record : Peer)
  | delete (kind : RecordKind) (name : String)
  | loadProfile (name : String)
  | send (contact : String) (content : Bytes)
  | sendChannel (channel : String) (content : Bytes)

namespace Request

open ArgumentReader

/-- The arguments of a request for mail. -/
def readPickup : ArgumentReader Request := do
  let caller ← typed Value.toPublicKey
  let since ← int
  let maxBytes ← uint
  let channels ← restStrings
  return .pickup caller since maxBytes.toNat channels

/-- A request with a name and a content. -/
def readSend (make : String → Bytes → Request) : ArgumentReader Request := do
  let name ← string
  let content ← bytes
  return make name content

/-- The arguments of an action. -/
def reader : Action → ArgumentReader Request
  | .id => return .id
  | .pickup => readPickup
  | .dropoff => dropoff <$> typed Value.toBundle
  | .listChannels => return .list .channel
  | .getChannel => get .channel <$> string
  | .putChannel => putChannel <$> typed Value.toChannel
  | .deleteChannel => delete .channel <$> string
  | .listContacts => return .list .contact
  | .getContact => get .contact <$> string
  | .putContact => putContact <$> typed Value.toContact
  | .deleteContact => delete .contact <$> string
  | .listProfiles => return .list .profile
  | .getProfile => get .profile <$> string
  | .putProfile => putProfile <$> typed Value.toProfile
  | .deleteProfile => delete .profile <$> string
  | .loadProfile => loadProfile <$> string
  | .listPeers => return .list .peer
  | .getPeer => get .peer <$> string
  | .putPeer => putPeer <$> typed Value.toPeer
  | .deletePeer => delete .peer <$> string
  | .send => readSend send
  | .sendChannel => readSend sendChannel

/-- What a call asks for. Arguments beyond those of its action are ignored. -/
def ofCall (c : Call) : Except CodecError Request := ((reader c.action).run c.arguments).1

end Request

/-! ### Errors -/

/-- Why a call was not served. -/
inductive SurfaceError
  | forbidden (action : Action)
  | notFound (kind : RecordKind) (name : String)
  | codec (error : CodecError)
  | store (error : StoreError)
  | sync (error : SyncError)
  | node (error : NodeError)
deriving DecidableEq, Repr

/-- The wording of the error. -/
def SurfaceError.message : SurfaceError → String
  | .forbidden action => action.name ++ " is not available on the public surface"
  | .notFound kind name => "no " ++ kind.name ++ " named " ++ Text.quoted name
  | .codec e => e.message
  | .store e => e.message
  | .sync e => e.message
  | .node e => e.message

/-! ### Serving -/

/-- The calls that a listener serves. -/
inductive Surface
  /-- Those for everyone. -/
  | everyone
  /-- All, for the owner. -/
  | owner
deriving DecidableEq, Repr

/-- A record as a value. -/
class RecordValue (α : Type) extends Record α where
  value : α → Value
  values : List α → Value

instance : RecordValue Channel := { value := .channel, values := .channels }
instance : RecordValue Contact := { value := .contact, values := .contacts }
instance : RecordValue Profile := { value := .profile, values := .profiles }
instance : RecordValue Peer := { value := .peer, values := .peers }

/-- What is done with all records of a kind, whatever the kind. -/
def RecordKind.cases {β : Type} (f : (α : Type) → [RecordValue α] → β) : RecordKind → β
  | .channel => f Channel
  | .contact => f Contact
  | .profile => f Profile
  | .peer => f Peer

namespace Node

variable [Cryptography]

omit [Cryptography] in
/-- All records of a kind. -/
def listRecords (n : Node) (α : Type) [RecordValue α] : Except SurfaceError Value :=
  match n.backend.list α with
  | .error e => .error (.store e)
  | .ok records => .ok (RecordValue.values records)

omit [Cryptography] in
/-- The record with a name. -/
def getRecord (n : Node) (name : String) (α : Type) [RecordValue α] : Except SurfaceError Value :=
  match n.backend.get? α name with
  | .error e => .error (.store e)
  | .ok none => .error (.notFound (Record.kind α) name)
  | .ok (some record) => .ok (RecordValue.value record)

omit [Cryptography] in
/-- Keeps a record. -/
def putRecord {α : Type} [Record α] (n : Node) (record : α) : Except SurfaceError Value × Node :=
  match n.backend.put record with
  | .error e => (.error (.store e), n)
  | .ok backend => (.ok .nil, n.withBackend backend)

omit [Cryptography] in
/-- Drops the record with a name, which must be there. -/
def deleteRecord (n : Node) (name : String) (α : Type) [RecordValue α] :
    Except SurfaceError Value × Node :=
  match n.backend.delete α name with
  | .error e => (.error (.store e), n)
  | .ok (false, backend) => (.error (.notFound (Record.kind α) name), n.withBackend backend)
  | .ok (true, backend) => (.ok .nil, n.withBackend backend)

omit [Cryptography] in
/-- A count of envelopes as the result of a call. -/
def countResult {ε : Type} (wrap : ε → SurfaceError) (r : Except ε Nat × Node) :
    Except SurfaceError Value × Node :=
  match r with
  | (.error e, n) => (.error (wrap e), n)
  | (.ok count, n) => (.ok (.uint (UInt64.ofNat count)), n)

/-- Hands out mail, in a bundle that also fits the node's own frames. -/
def servePickup (n : Node) (caller : PublicKey) (since : Time) (asked : Nat)
    (channels : List String) : Except SurfaceError Value × Node :=
  let maxBytes := match n.transports.byteLimit with
    | some limit => min asked (Bundle.budget limit)
    | none => asked
  match n.pickup caller since maxBytes channels with
  | (.error e, n) => (.error (.sync e), n)
  | (.ok b, n) => (.ok (.bundle b), n)

/-- Does what a request asks for. -/
def serve (n : Node) : Request → Except SurfaceError Value × Node
  | .id => (.ok (.publicKey n.router.identity.routing.publicKey), n)
  | .pickup caller since maxBytes channels => n.servePickup caller since maxBytes channels
  | .dropoff bundle => countResult .sync (n.dropoff bundle)
  | .list kind => (kind.cases fun α => n.listRecords α, n)
  | .get kind name => (kind.cases fun α => n.getRecord name α, n)
  | .putChannel record => n.putRecord record
  | .putContact record => n.putRecord record
  | .putProfile record => n.putRecord record
  | .putPeer record => n.putRecord record
  | .delete kind name => kind.cases fun α => n.deleteRecord name α
  | .loadProfile name =>
    match n.loadProfile name with
    | (.error e, n) => (.error (.node e), n)
    | (.ok key, n) => (.ok (.publicKey key), n)
  | .send contact content => countResult .node (n.send contact content)
  | .sendChannel channel content => countResult .node (n.sendChannel channel content)

/-- The result of a call on a surface. -/
def dispatch (n : Node) (surface : Surface) (call : Call) : Except SurfaceError Value × Node :=
  if surface = .everyone ∧ !call.action.isPublic then (.error (.forbidden call.action), n)
  else match Request.ofCall call with
    | .error e => (.error (.codec e), n)
    | .ok request => n.serve request

/-- The answer to a call on a surface. -/
def handle (n : Node) (surface : Surface) (call : Call) : Response × Node :=
  match n.dispatch surface call with
  | (.error e, n) => (.err e.message, n)
  | (.ok v, n) => (.ok v, n)

end Node

end Courier
