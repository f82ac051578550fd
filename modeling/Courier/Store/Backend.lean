import Courier.Store

/-!
## A store that may fail

A node reaches its store by calls, any of which may be out of service. A call that fails changes
nothing.
-/

namespace Courier

/-- Why a call of the store failed. -/
inductive StoreError
  | backend (reason : String)
deriving DecidableEq, Repr

/-- The wording of the error. -/
def StoreError.message : StoreError → String
  | .backend reason => "store backend: " ++ reason

/-- A call of the store. -/
inductive StoreCall
  | get (kind : RecordKind)
  | list (kind : RecordKind)
  | put (kind : RecordKind)
  | delete (kind : RecordKind)
  | appendOutbox
  | outboxSince
  | deleteOutboxBefore
  | outboxLength
deriving DecidableEq, Repr

/-- The name of a call in messages. -/
def StoreCall.name : StoreCall → String
  | get kind => "get_" ++ kind.name
  | list kind => "list_" ++ kind.plural
  | put kind => "put_" ++ kind.name
  | delete kind => "delete_" ++ kind.name
  | appendOutbox => "append_outbox"
  | outboxSince => "outbox_since"
  | deleteOutboxBefore => "delete_outbox_before"
  | outboxLength => "outbox_len"

/-- A store and the calls of it that are out of service, by name. -/
structure Backend where
  store : Store := {}
  down : List String := []
deriving DecidableEq

namespace Backend

variable {α : Type} [Record α]

/-- The result of a call, if it is in service. -/
def attempt {β : Type} (b : Backend) (call : StoreCall) (result : β) : Except StoreError β :=
  if b.down.contains call.name then .error (.backend (call.name ++ " failed")) else .ok result

/-- The record with a name. -/
def get? (b : Backend) (α : Type) [Record α] (name : String) : Except StoreError (Option α) :=
  b.attempt (.get (Record.kind α)) (b.store.get? α name)

/-- All records of a kind, in the order of their names. -/
def list (b : Backend) (α : Type) [Record α] : Except StoreError (List α) :=
  b.attempt (.list (Record.kind α)) (b.store.list α)

/-- Keeps a record, in place of one of the same name. -/
def put (b : Backend) (a : α) : Except StoreError Backend :=
  b.attempt (.put (Record.kind α)) { b with store := b.store.put a }

/-- Drops the record with a name, and says whether there was one. -/
def delete (b : Backend) (α : Type) [Record α] (name : String) :
    Except StoreError (Bool × Backend) :=
  let (found, store) := b.store.delete α name
  b.attempt (.delete (Record.kind α)) (found, { b with store := store })

/-- Adds an entry to the outbox. -/
def append (b : Backend) (e : OutboxEntry) : Except StoreError Backend :=
  b.attempt .appendOutbox { b with store.outbox := b.store.outbox.append e }

/-- The entries of the outbox later than a time, in some channels or, if none is listed, in all. -/
def since (b : Backend) (after : Time) (channels : List String) :
    Except StoreError (List OutboxEntry) :=
  b.attempt .outboxSince (b.store.outbox.since after channels)

/-- Drops the entries earlier than a time, and says how many there were. -/
def deleteBefore (b : Backend) (cutoff : Time) : Except StoreError (Nat × Backend) :=
  let (count, outbox) := b.store.outbox.deleteBefore cutoff
  b.attempt .deleteOutboxBefore (count, { b with store.outbox := outbox })

/-- The number of entries in the outbox. -/
def outboxLength (b : Backend) : Except StoreError Nat :=
  b.attempt .outboxLength b.store.outbox.length

end Backend

end Courier
