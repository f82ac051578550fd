import Courier.Codec.Value
import Courier.Codec.Varint

/-!
## Reading values

A reader takes something off the front of a byte string and leaves the rest. A count of bytes or
elements that exceeds the bytes left is refused before anything is read, since every element takes
at least one byte.
-/

namespace Courier

/-- Takes a value off the front of a byte string. -/
abbrev Reader (α : Type) := StateT Bytes (Except CodecError) α

namespace Reader

/-- One byte. -/
def byte : Reader UInt8 := fun
  | [] => .error .inputTooShort
  | b :: rest => .ok (b, rest)

/-- Exactly `n` bytes. -/
def take (n : Nat) : Reader Bytes := fun bs =>
  match Bytes.take? n bs with
  | none => .error .inputTooShort
  | some r => .ok r

/-- A number of variable length. -/
def varint : Reader Nat := Varint.decode

/-- A number of eight bytes. -/
def nat64 : Reader Nat := do
  let bs ← take 8
  return Bytes.toNat bs

/-- A signed number of eight bytes. -/
def int64 : Reader Int64 := do
  let n ← nat64
  return Int64.ofUInt64 (UInt64.ofNat n)

/-- A truth value. -/
def bool : Reader Bool := do
  let b ← byte
  if b = 0 then return false
  else if b = 1 then return true
  else throw (.invalidBool b)

/-- A count of bytes or elements, which is at most the number of bytes left. -/
def count : Reader Nat := do
  let n ← varint
  let rest ← get
  if Bytes.holds n rest then return n else throw .inputTooShort

/-- A counted byte string. -/
def bytes : Reader Bytes := do
  let n ← count
  take n

/-- A counted text. -/
def string : Reader String := do
  let bs ← bytes
  match Bytes.toString? bs with
  | some s => return s
  | none => throw .invalidUtf8

/-- Passes on the answer of a check. -/
def lift {α : Type} (r : Except KeyError α) : Reader α :=
  match r with
  | .ok v => return v
  | .error e => throw (.key e)

/-- What the reader leaves nothing of. -/
def all {α : Type} (r : Reader α) (bs : Bytes) : Except CodecError α :=
  match r bs with
  | .error e => .error e
  | .ok (v, []) => .ok v
  | .ok (_, rest) => .error (.trailingBytes rest.length)

/-- The same reader `n` times. -/
def times {α : Type} (r : Reader α) : (n : Nat) → Reader (List α)
  | 0 => return []
  | n + 1 => do
    let v ← r
    let rest ← times r n
    return v :: rest

/-- A counted list. -/
def list {α : Type} (r : Reader α) : Reader (List α) := do
  let n ← count
  times r n

/-- A counted body that the reader takes up completely. -/
def record {α : Type} (r : Reader α) : Reader α := do
  let body ← bytes
  match r.all body with
  | .ok v => return v
  | .error e => throw e

/-- A public key. -/
def publicKey : Reader PublicKey := do
  let bs ← bytes
  lift (PublicKey.ofBytes bs)

/-- A key pair. -/
def keypair : Reader Keypair := do
  let bs ← bytes
  lift (Keypair.ofBytes bs)

/-- The fields of a contact. -/
def contact : Reader Contact := do
  let name ← string
  let key ← publicKey
  return ⟨name, key⟩

/-- The fields of a channel. -/
def channel : Reader Channel := do
  let name ← string
  let keypair ← keypair
  return ⟨name, keypair⟩

/-- The fields of a profile. -/
def profile : Reader Profile := do
  let name ← string
  let enabled ← bool
  let keypair ← keypair
  return ⟨name, enabled, keypair⟩

/-- The fields of a peer. -/
def peer : Reader Peer := do
  let name ← string
  let enabled ← bool
  let uri ← string
  let group ← string
  return ⟨name, enabled, uri, group⟩

/-- The fields of a bundle. -/
def bundle : Reader Bundle := do
  let data ← bytes
  let time ← int64
  return ⟨data, time⟩

/-- A value in which arrays are nested less deep than the given number of levels. -/
def value : (levels : Nat) → Reader Value
  | 0 => throw .tooDeep
  | levels + 1 => do
    let tag ← byte
    match Kind.ofTag? tag with
    | none => throw (.unknownTag tag)
    | some .nil => return .nil
    | some .int => return .int (← int64)
    | some .uint => return .uint (UInt64.ofNat (← nat64))
    | some .string => return .string (← string)
    | some .bytes => return .bytes (← bytes)
    | some .bytesArray => return .bytesArray (← list bytes)
    -- Only arrays nest, so only here a level is used up.
    | some .array => return .array (← list (value levels))
    | some .publicKey => return .publicKey (← publicKey)
    | some .contact => return .contact (← record contact)
    | some .contactArray => return .contacts (← list (record contact))
    | some .channel => return .channel (← record channel)
    | some .channelArray => return .channels (← list (record channel))
    | some .profile => return .profile (← record profile)
    | some .profileArray => return .profiles (← list (record profile))
    | some .peer => return .peer (← record peer)
    | some .peerArray => return .peers (← list (record peer))
    | some .bundle => return .bundle (← record bundle)

end Reader

/-- The most arrays that a value may be nested in. -/
def Value.maxDepth : Nat := 32

/-- A value nested in no more arrays than allowed. -/
def Reader.anyValue : Reader Value := Reader.value (Value.maxDepth + 1)

/-- The value that a byte string writes. -/
def Value.decode (bs : Bytes) : Except CodecError Value := Reader.anyValue.all bs

end Courier
