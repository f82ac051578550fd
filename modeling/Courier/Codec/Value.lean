import Courier.Codec.Error
import Courier.Record

/-!
## Values

The arguments and results of calls, and the typed views that handlers take of them.
-/

namespace Courier

/-- A value of a call or an answer. -/
inductive Value
  | nil
  | int (v : Int64)
  | uint (v : UInt64)
  | string (v : String)
  | bytes (v : Bytes)
  | bytesArray (v : List Bytes)
  | array (v : List Value)
  | publicKey (v : PublicKey)
  | contact (v : Contact)
  | contacts (v : List Contact)
  | channel (v : Channel)
  | channels (v : List Channel)
  | profile (v : Profile)
  | profiles (v : List Profile)
  | peer (v : Peer)
  | peers (v : List Peer)
  | bundle (v : Bundle)

instance : Inhabited Value := ⟨.nil⟩

namespace Value

/-- The kind of a value. -/
def kind : Value → Kind
  | nil => .nil
  | int _ => .int
  | uint _ => .uint
  | string _ => .string
  | bytes _ => .bytes
  | bytesArray _ => .bytesArray
  | array _ => .array
  | publicKey _ => .publicKey
  | contact _ => .contact
  | contacts _ => .contactArray
  | channel _ => .channel
  | channels _ => .channelArray
  | profile _ => .profile
  | profiles _ => .profileArray
  | peer _ => .peer
  | peers _ => .peerArray
  | bundle _ => .bundle

/-! ### Typed views -/

/-- The integer in a value. -/
def toInt : Value → Except CodecError Int64
  | int v => .ok v
  | other => .error (.typeMismatch .int other.kind)

/-- The unsigned number in a value. -/
def toUInt : Value → Except CodecError UInt64
  | uint v => .ok v
  | other => .error (.typeMismatch .uint other.kind)

/-- The text in a value. -/
def toText : Value → Except CodecError String
  | string v => .ok v
  | other => .error (.typeMismatch .string other.kind)

/-- The byte string in a value. -/
def toBytes : Value → Except CodecError Bytes
  | bytes v => .ok v
  | other => .error (.typeMismatch .bytes other.kind)

/-- The byte strings in a value. -/
def toBytesArray : Value → Except CodecError (List Bytes)
  | bytesArray v => .ok v
  | other => .error (.typeMismatch .bytesArray other.kind)

/-- The values in a value. -/
def toArray : Value → Except CodecError (List Value)
  | array v => .ok v
  | other => .error (.typeMismatch .array other.kind)

/-- The public key in a value. -/
def toPublicKey : Value → Except CodecError PublicKey
  | publicKey v => .ok v
  | other => .error (.typeMismatch .publicKey other.kind)

/-- The contact in a value. -/
def toContact : Value → Except CodecError Contact
  | contact v => .ok v
  | other => .error (.typeMismatch .contact other.kind)

/-- The contacts in a value. -/
def toContacts : Value → Except CodecError (List Contact)
  | contacts v => .ok v
  | other => .error (.typeMismatch .contactArray other.kind)

/-- The channel in a value. -/
def toChannel : Value → Except CodecError Channel
  | channel v => .ok v
  | other => .error (.typeMismatch .channel other.kind)

/-- The channels in a value. -/
def toChannels : Value → Except CodecError (List Channel)
  | channels v => .ok v
  | other => .error (.typeMismatch .channelArray other.kind)

/-- The profile in a value. -/
def toProfile : Value → Except CodecError Profile
  | profile v => .ok v
  | other => .error (.typeMismatch .profile other.kind)

/-- The profiles in a value. -/
def toProfiles : Value → Except CodecError (List Profile)
  | profiles v => .ok v
  | other => .error (.typeMismatch .profileArray other.kind)

/-- The peer in a value. -/
def toPeer : Value → Except CodecError Peer
  | peer v => .ok v
  | other => .error (.typeMismatch .peer other.kind)

/-- The peers in a value. -/
def toPeers : Value → Except CodecError (List Peer)
  | peers v => .ok v
  | other => .error (.typeMismatch .peerArray other.kind)

/-- The bundle in a value. -/
def toBundle : Value → Except CodecError Bundle
  | bundle v => .ok v
  | other => .error (.typeMismatch .bundle other.kind)

end Value

end Courier
