import Courier.Codec.Action
import Courier.Key

/-!
## Kinds of values and errors of the codec
-/

namespace Courier

/-- The kinds of values that calls and answers carry. -/
inductive Kind
  | nil
  | int
  | uint
  | string
  | bytes
  | bytesArray
  | array
  | publicKey
  | contact
  | contactArray
  | channel
  | channelArray
  | profile
  | profileArray
  | peer
  | peerArray
  | bundle
deriving DecidableEq, Repr

namespace Kind

/-- Every kind, in the order of their tags. -/
def all : List Kind := [
  nil, int, uint, string, bytes, bytesArray, array, publicKey, contact, contactArray, channel,
  channelArray, profile, profileArray, peer, peerArray, bundle]

/-- The byte that a written value of this kind starts with. -/
def tag : Kind → UInt8
  | nil => 0x00
  | int => 0x01
  | uint => 0x02
  | string => 0x03
  | bytes => 0x04
  | bytesArray => 0x05
  | array => 0x06
  | publicKey => 0x07
  | contact => 0x08
  | contactArray => 0x09
  | channel => 0x0a
  | channelArray => 0x0b
  | profile => 0x0c
  | profileArray => 0x0d
  | peer => 0x0e
  | peerArray => 0x0f
  | bundle => 0x10

/-- The kind that a byte stands for. -/
def ofTag? (b : UInt8) : Option Kind := all.find? fun k => k.tag == b

@[simp] theorem ofTag?_tag (k : Kind) : ofTag? k.tag = some k := by
  cases k <;> rfl

theorem eq_tag_of_ofTag? {b : UInt8} {k : Kind} (h : ofTag? b = some k) : b = k.tag := by
  unfold ofTag? at h
  have htag := List.find?_some h
  exact (beq_iff_eq.mp htag).symm

/-- The name of a kind in messages. -/
def name : Kind → String
  | nil => "nil"
  | int => "int"
  | uint => "uint"
  | string => "string"
  | bytes => "bytes"
  | bytesArray => "bytes array"
  | array => "array"
  | publicKey => "public key"
  | contact => "contact"
  | contactArray => "contact array"
  | channel => "channel"
  | channelArray => "channel array"
  | profile => "profile"
  | profileArray => "profile array"
  | peer => "peer"
  | peerArray => "peer array"
  | bundle => "bundle"

end Kind

/-- Why bytes are no value, call or frame, or a value is not the one asked for. -/
inductive CodecError
  | inputTooShort
  | varintOverflow
  | unknownTag (tag : UInt8)
  | unknownAction (number : Nat)
  | invalidUtf8
  | invalidBool (byte : UInt8)
  | typeMismatch (expected found : Kind)
  | trailingBytes (count : Nat)
  | tooDeep
  | missingArgument (action : Action) (position : Nat)
  | frameTooLarge (length : Nat)
  /-- The bytes are the start of a frame. -/
  | needMore
  | key (error : KeyError)
deriving DecidableEq, Repr

/-- The wording of the error. -/
def CodecError.message : CodecError → String
  | .inputTooShort => "input too short"
  | .varintOverflow => "varint overflows 64 bits"
  | .unknownTag tag => "unknown type tag " ++ Hex.literal tag
  | .unknownAction number => "unknown action id " ++ toString number
  | .invalidUtf8 => "invalid UTF-8 in string"
  | .invalidBool byte => "invalid bool byte " ++ Hex.literal byte
  | .typeMismatch expected found => "expected " ++ expected.name ++ ", found " ++ found.name
  | .trailingBytes count => toString count ++ " trailing bytes after record"
  | .tooDeep => "arrays nested too deeply"
  | .missingArgument action position =>
    action.name ++ " is missing argument " ++ toString position
  | .frameTooLarge length => "frame of " ++ toString length ++ " bytes exceeds limit"
  | .needMore => "need more bytes"
  | .key error => "bad key: " ++ error.message

end Courier
