import Courier.Codec.Value
import Courier.Codec.Varint

/-!
## The written form of values

A value is the tag of its kind and its body. A number is eight bytes, the most significant first; a
byte string or a text is its length and its bytes; a list is its length and its elements; a record
is the length of its body and its fields in a fixed order.
-/

namespace Courier

namespace Codec

/-- A counted byte string. -/
def putBytes (bs : Bytes) : Bytes := Varint.encode bs.length ++ bs

/-- A counted text. -/
def putString (s : String) : Bytes := putBytes (Bytes.ofString s)

/-- A truth value, as one byte. -/
def putBool (b : Bool) : Bytes := [if b then 1 else 0]

/-- A list, as its length and its elements. -/
def putList {α : Type} (put : α → Bytes) (xs : List α) : Bytes :=
  Varint.encode xs.length ++ xs.flatMap put

/-- The fields of a contact. -/
def contactBody (c : Contact) : Bytes := putString c.name ++ putBytes c.publicKey.toBytes

/-- The fields of a channel. -/
def channelBody (c : Channel) : Bytes := putString c.name ++ putBytes c.keypair.toBytes

/-- The fields of a profile. -/
def profileBody (p : Profile) : Bytes :=
  putString p.name ++ (putBool p.enabled ++ putBytes p.keypair.toBytes)

/-- The fields of a peer. -/
def peerBody (p : Peer) : Bytes :=
  putString p.name ++ (putBool p.enabled ++ (putString p.uri ++ putString p.group))

/-- Eight bytes for a signed number. -/
def putInt64 (i : Int64) : Bytes := Bytes.ofNat 8 i.toUInt64.toNat

/-- The fields of a bundle. -/
def bundleBody (b : Bundle) : Bytes := putBytes b.data ++ putInt64 b.time

end Codec

open Codec

mutual

/-- The bytes after the tag of a value. -/
def Value.body : Value → Bytes
  | .nil => []
  | .int v => putInt64 v
  | .uint v => Bytes.ofNat 8 v.toNat
  | .string v => putString v
  | .bytes v => putBytes v
  | .bytesArray v => putList putBytes v
  | .array v => Varint.encode v.length ++ Value.encodeAll v
  | .publicKey v => putBytes v.toBytes
  | .contact v => putBytes (contactBody v)
  | .contacts v => putList (fun c => putBytes (contactBody c)) v
  | .channel v => putBytes (channelBody v)
  | .channels v => putList (fun c => putBytes (channelBody c)) v
  | .profile v => putBytes (profileBody v)
  | .profiles v => putList (fun p => putBytes (profileBody p)) v
  | .peer v => putBytes (peerBody v)
  | .peers v => putList (fun p => putBytes (peerBody p)) v
  | .bundle v => putBytes (bundleBody v)

/-- The written forms of some values, one after the other. -/
def Value.encodeAll : List Value → Bytes
  | [] => []
  | v :: rest => v.kind.tag :: (v.body ++ Value.encodeAll rest)

end

/-- The written form of a value. -/
def Value.encode (v : Value) : Bytes := v.kind.tag :: v.body

theorem Value.encodeAll_eq (vs : List Value) : Value.encodeAll vs = vs.flatMap Value.encode := by
  induction vs with
  | nil => rfl
  | cons v vs ih => simp [Value.encodeAll, ih, Value.encode]

end Courier
