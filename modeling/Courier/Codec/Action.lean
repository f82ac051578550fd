/-!
## Actions

What one node may ask of another. The first three are open to everyone; the rest administer a node
and are served only to its owner.
-/

namespace Courier

/-- A request that a node serves. -/
inductive Action
  | id
  | pickup
  | dropoff
  | listChannels
  | getChannel
  | putChannel
  | deleteChannel
  | listContacts
  | getContact
  | putContact
  | deleteContact
  | listProfiles
  | getProfile
  | putProfile
  | deleteProfile
  | loadProfile
  | listPeers
  | getPeer
  | putPeer
  | deletePeer
  | send
  | sendChannel
deriving DecidableEq, Repr, Inhabited

namespace Action

/-- Every action, in the order of their numbers. -/
def all : List Action := [
  id, pickup, dropoff, listChannels, getChannel, putChannel, deleteChannel, listContacts,
  getContact, putContact, deleteContact, listProfiles, getProfile, putProfile, deleteProfile,
  loadProfile, listPeers, getPeer, putPeer, deletePeer, send, sendChannel]

/-- The number that stands for an action. -/
def number : Action → Nat
  | id => 0x01
  | pickup => 0x02
  | dropoff => 0x03
  | listChannels => 0x10
  | getChannel => 0x11
  | putChannel => 0x12
  | deleteChannel => 0x13
  | listContacts => 0x14
  | getContact => 0x15
  | putContact => 0x16
  | deleteContact => 0x17
  | listProfiles => 0x18
  | getProfile => 0x19
  | putProfile => 0x1a
  | deleteProfile => 0x1b
  | loadProfile => 0x1c
  | listPeers => 0x1d
  | getPeer => 0x1e
  | putPeer => 0x1f
  | deletePeer => 0x20
  | send => 0x21
  | sendChannel => 0x22

/-- The name of an action in messages. -/
def name : Action → String
  | id => "Id"
  | pickup => "Pickup"
  | dropoff => "Dropoff"
  | listChannels => "ListChannels"
  | getChannel => "GetChannel"
  | putChannel => "PutChannel"
  | deleteChannel => "DeleteChannel"
  | listContacts => "ListContacts"
  | getContact => "GetContact"
  | putContact => "PutContact"
  | deleteContact => "DeleteContact"
  | listProfiles => "ListProfiles"
  | getProfile => "GetProfile"
  | putProfile => "PutProfile"
  | deleteProfile => "DeleteProfile"
  | loadProfile => "LoadProfile"
  | listPeers => "ListPeers"
  | getPeer => "GetPeer"
  | putPeer => "PutPeer"
  | deletePeer => "DeletePeer"
  | send => "Send"
  | sendChannel => "SendChannel"

/-- The action with a number. -/
def ofNumber? (n : Nat) : Option Action := all.find? fun a => a.number == n

@[simp] theorem ofNumber?_number (a : Action) : ofNumber? a.number = some a := by
  cases a <;> rfl

theorem eq_number_of_ofNumber? {n : Nat} {a : Action} (h : ofNumber? n = some a) :
    n = a.number := by
  unfold ofNumber? at h
  have hnumber := List.find?_some h
  exact (beq_iff_eq.mp hnumber).symm

/-- The action with a name. -/
def ofName? (s : String) : Option Action := all.find? fun a => a.name == s

/-- Whether everyone may ask for the action. -/
def isPublic : Action → Bool
  | id | pickup | dropoff => true
  | _ => false

end Action

end Courier
