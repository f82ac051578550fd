import Courier.Codec.Reader
import Courier.Codec.Writer

/-!
## Calls and answers

A call names an action and carries its arguments; an answer carries a value or an error text, which
is empty exactly when the call succeeded. Handlers take the arguments of a call one by one.
-/

namespace Courier

open Codec

/-! ### Calls -/

/-- A request with its arguments. -/
structure Call where
  action : Action
  args : List Value
deriving Inhabited

namespace Call

/-- The number of the action, the number of arguments, and the arguments. -/
def encode (c : Call) : Bytes :=
  Varint.encode c.action.number ++ (Varint.encode c.args.length ++ Value.encodeAll c.args)

/-- The fields of a call. -/
def reader : Reader Call := do
  let number ← Reader.varint
  match Action.ofNumber? number with
  | none => throw (.unknownAction number)
  | some action =>
    let args ← Reader.list Reader.anyValue
    return ⟨action, args⟩

/-- The call that a byte string writes. -/
def decode (bs : Bytes) : Except CodecError Call := reader.all bs

end Call

/-! ### Answers -/

/-- The answer to a call. -/
structure Response where
  /-- What went wrong, empty on success. -/
  error : String
  value : Value
deriving Inhabited

namespace Response

/-- The answer of a call that succeeded. -/
def ok (value : Value) : Response := ⟨"", value⟩

/-- The answer of a call that failed, which always has a text. -/
def err (error : String) : Response :=
  ⟨if error.isEmpty then "unspecified error" else error, .nil⟩

/-- The value, or what went wrong. -/
def result (r : Response) : Except String Value :=
  if r.error.isEmpty then .ok r.value else .error r.error

/-- The error text and the value. -/
def encode (r : Response) : Bytes := putString r.error ++ r.value.encode

/-- The fields of an answer. -/
def reader : Reader Response := do
  let error ← Reader.string
  let value ← Reader.anyValue
  return ⟨error, value⟩

/-- The answer that a byte string writes. -/
def decode (bs : Bytes) : Except CodecError Response := reader.all bs

end Response

/-! ### Arguments -/

/-- The arguments of a call that are still to be taken. -/
structure Arguments where
  action : Action
  /-- How many arguments were asked for so far. -/
  position : Nat
  rest : List Value

/-- The arguments of a call. -/
def Call.arguments (c : Call) : Arguments := ⟨c.action, 0, c.args⟩

/-- Takes arguments. An argument of the wrong kind is taken all the same. -/
abbrev ArgumentReader (α : Type) := ExceptT CodecError (StateM Arguments) α

namespace ArgumentReader

/-- The next argument. -/
def next : ArgumentReader Value := do
  let args ← get
  match args.rest with
  | [] =>
    set { args with position := args.position + 1 }
    throw (.missingArgument args.action args.position)
  | v :: rest =>
    set { args with position := args.position + 1, rest := rest }
    return v

/-- The next argument in one of its typed views. -/
def typed {α : Type} (view : Value → Except CodecError α) : ArgumentReader α := do
  let v ← next
  match view v with
  | .ok a => return a
  | .error e => throw e

/-- The next argument as a text. -/
def string : ArgumentReader String := typed Value.toText

/-- The next argument as a byte string. -/
def bytes : ArgumentReader Bytes := typed Value.toBytes

/-- The next argument as an integer. -/
def int : ArgumentReader Int64 := typed Value.toInt

/-- The next argument as an unsigned number. -/
def uint : ArgumentReader UInt64 := typed Value.toUInt

/-- The given number of arguments as texts. -/
def strings : (n : Nat) → ArgumentReader (List String)
  | 0 => return []
  | n + 1 => do
    let s ← string
    let rest ← strings n
    return s :: rest

/-- All remaining arguments as texts. -/
def restStrings : ArgumentReader (List String) := do
  let args ← get
  strings args.rest.length

end ArgumentReader

end Courier
