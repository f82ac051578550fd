import Courier.Outbox
import Courier.Table

/-!
## The store

A node keeps its channels, contacts, other identities and peers by name, and its outbox.
-/

namespace Courier

/-- What a node keeps. -/
structure Store where
  channels : Table String Channel := .empty
  contacts : Table String Contact := .empty
  profiles : Table String Profile := .empty
  peers : Table String Peer := .empty
  outbox : Outbox := []
deriving DecidableEq, Inhabited

/-- The kinds of records that are kept by name. -/
inductive RecordKind
  | channel
  | contact
  | profile
  | peer
deriving DecidableEq, Repr

/-- The word for a kind of record. -/
def RecordKind.name : RecordKind → String
  | .channel => "channel"
  | .contact => "contact"
  | .profile => "profile"
  | .peer => "peer"

/-- The words for many records of a kind. -/
def RecordKind.plural : RecordKind → String
  | .channel => "channels"
  | .contact => "contacts"
  | .profile => "profiles"
  | .peer => "peers"

/-- Records that are kept by name. -/
class Record (α : Type) where
  kind : RecordKind
  /-- The name a record is kept under. -/
  name : α → String
  /-- The records in a store. -/
  table : Store → Table String α
  /-- The store with other records. -/
  withTable : Store → Table String α → Store

instance : Record Channel := ⟨.channel, (·.name), (·.channels), fun s t => { s with channels := t }⟩
instance : Record Contact := ⟨.contact, (·.name), (·.contacts), fun s t => { s with contacts := t }⟩
instance : Record Profile := ⟨.profile, (·.name), (·.profiles), fun s t => { s with profiles := t }⟩
instance : Record Peer := ⟨.peer, (·.name), (·.peers), fun s t => { s with peers := t }⟩

namespace Store

variable {α : Type} [Record α]

/-- The record with a name. -/
def get? (s : Store) (α : Type) [Record α] (name : String) : Option α :=
  (Record.table s : Table String α).find? name

/-- All records of a kind, in the order of their names. -/
def list (s : Store) (α : Type) [Record α] : List α := (Record.table s : Table String α).values

/-- The store with a record, in place of one of the same name. -/
def put (s : Store) (a : α) : Store :=
  Record.withTable s ((Record.table s : Table String α).insert (Record.name a) a)

/-- Whether there was a record with a name, and the store without it. -/
def delete (s : Store) (α : Type) [Record α] (name : String) : Bool × Store :=
  let t : Table String α := Record.table s
  (t.contains name, Record.withTable s (t.erase name))

end Store

end Courier
