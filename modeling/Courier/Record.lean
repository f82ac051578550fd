import Courier.Key

/-!
## Records

What a node keeps about the world and hands to others: the people it writes to, the channels and
identities it shares, the peers it exchanges mail with, and bundles of mail.
-/

namespace Courier

/-- A point in time, in nanoseconds since the start of 1970. -/
abbrev Time := Int64

/-- A named public key to write to. -/
structure Contact where
  name : String
  publicKey : PublicKey
deriving DecidableEq, Inhabited

/-- A mailbox shared by everyone who holds its key pair. -/
structure Channel where
  name : String
  keypair : Keypair
deriving DecidableEq, Inhabited

/-- A further identity under which mail is received. -/
structure Profile where
  name : String
  /-- Whether mail to this identity is looked for. -/
  enabled : Bool
  keypair : Keypair
deriving DecidableEq, Inhabited

/-- A node to exchange mail with. -/
structure Peer where
  name : String
  enabled : Bool
  /-- Where the peer is reached, as `scheme://address`. -/
  uri : String
  /-- The group of peers that it is tried with. -/
  group : String
deriving DecidableEq, Inhabited

/-- A sealed batch of envelopes and the time of the newest one in it. -/
structure Bundle where
  data : Bytes
  time : Time
deriving DecidableEq, Inhabited

namespace Bundle

/-- A bundle of nothing. -/
def empty (time : Time) : Bundle := ⟨[], time⟩

/-- Whether a bundle holds nothing. -/
def isEmpty (b : Bundle) : Bool := b.data.isEmpty

end Bundle

/-- An envelope that waits to be picked up. -/
structure OutboxEntry where
  /-- The channel it is tagged with, empty for private mail. -/
  channel : String
  data : Bytes
  time : Time
deriving DecidableEq, Inhabited

/-! ### Addresses of peers -/

/-- The scheme of an address that names none. -/
def defaultScheme : String := "tcp"

/-- What stands before and after the first `://`, if it occurs; the first part is put after the
characters read before, which are held in reverse. -/
def splitScheme (read : List Char) : List Char → Option (List Char × List Char)
  | [] => none
  | ':' :: '/' :: '/' :: rest => some (read.reverse, rest)
  | c :: rest => splitScheme (c :: read) rest

/-- The scheme and the address of a location. One without a scheme gets the default one. -/
def splitUri (uri : String) : String × String :=
  match splitScheme [] uri.toList with
  | some (scheme, address) => (String.ofList scheme, String.ofList address)
  | none => (defaultScheme, uri)

/-- The scheme of the transport that reaches a peer. -/
def Peer.scheme (p : Peer) : String := (splitUri p.uri).1

/-- The address of a peer on its transport. -/
def Peer.address (p : Peer) : String := (splitUri p.uri).2

end Courier
