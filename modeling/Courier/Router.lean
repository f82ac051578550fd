import Courier.Clock
import Courier.Identity
import Courier.RecentCache
import Courier.SealedBox
import Courier.Settings
import Courier.Store.Backend
import Courier.Stream.Reassembly

/-!
## Routing

What happens to an envelope that reaches a node. One that was seen lately is passed over. Otherwise
the node tries the keys that its settings allow; what it opens is delivered or, if it is a part of a
stream, put with the other parts. Then the settings decide whether the envelope goes on, under its
own channel or under those that a patch names instead.

* `Router.route`: all of this for one envelope.
* `Router.post`: puts an envelope into the outbox, stamped with the time.
-/

namespace Courier

/-! ### Decisions -/

namespace RoutingSettings

/-- Whether an envelope goes on. What was opened follows the switch of the key that opened it. Channel
mail that was not follows the switch for unknown channels; other mail goes on if every kind of key
that was tried agrees. -/
def forwards (s : RoutingSettings) (isChannel : Bool) (consumed : Option MailClass) : Bool :=
  match consumed with
  | some .content => s.forwardConsumedContent
  | some .channel => s.forwardConsumedChannels
  | some .profile => s.forwardConsumedProfiles
  | none =>
    if isChannel then s.forwardUnknownChannels
    else s.forwardUnknownContent && (!s.checkProfiles || s.forwardUnknownProfiles)

/-- The channels that mail of a channel goes on in, if a patch says so. -/
def redirect (s : RoutingSettings) (label : String) : Option (List String) :=
  (s.patches.find? fun p => p.source == label).map Patch.targets

end RoutingSettings

/-- What became of an envelope. -/
inductive RouteOutcome
  /-- It was seen lately. -/
  | duplicate
  /-- It was opened with a key of some class, or not opened, and put into the outbox so many times. -/
  | routed (consumed : Option MailClass) (forwarded : Nat)
deriving DecidableEq, Repr

/-- Why an envelope was not routed. -/
inductive RouteError
  | wire (error : WireError)
  | crypto (error : SealedBox.OpenError)
  | store (error : StoreError)
  | stream (error : StreamError)
deriving DecidableEq, Repr

/-- The wording of the error. -/
def RouteError.message : RouteError → String
  | .wire e => e.message
  | .crypto e => e.message
  | .store e => e.message
  | .stream e => e.message

/-! ### The router -/

/-- Everything that routing reads and changes. -/
structure Router where
  settings : RoutingSettings
  identity : Identity
  backend : Backend
  clock : Clock
  queue : DeliveryQueue
  streams : Stream.Reassembler := {}
  recent : RecentCache := {}

namespace Router

/-- Puts an envelope into the outbox under a channel. One that the store refuses takes no stamp. -/
def post (r : Router) (label : String) (data : Bytes) : Except StoreError Router :=
  let (time, clock) := r.clock.stamp
  (r.backend.append ⟨label, data, time⟩).map fun backend =>
    { r with backend := backend, clock := clock }

/-- Has an envelope of the node's own passed over when it comes back. -/
def remember (r : Router) (raw : Bytes) : Except WireError Router := do
  let fp ← (← Envelope.parse raw).fingerprint
  return { r with recent := r.recent.insert fp }

/-! ### Opening -/

variable [Cryptography]

/-- What the first of some identities that can open a box finds in it. -/
def openFirst (sealed : Bytes) : List Profile → Except SealedBox.OpenError (Option Bytes)
  | [] => .ok none
  | p :: rest =>
    match SealedBox.open? p.keypair sealed with
    | .error e => .error e
    | .ok (some plaintext) => .ok (some plaintext)
    | .ok none => openFirst sealed rest

/-- What the key of a channel finds in a box. A channel that cannot be looked up is not known. -/
def openChannel (r : Router) (name : String) (sealed : Bytes) :
    Except RouteError (Option (MailClass × Bytes)) :=
  if !r.settings.checkChannels then .ok none
  else match r.backend.get? Channel name with
    -- Mail in a channel is passed on even while the store cannot tell whether it is known.
    | .error _ => .ok none
    | .ok none => .ok none
    | .ok (some c) =>
      match SealedBox.open? c.keypair sealed with
      | .error e => .error (.crypto e)
      | .ok found => .ok (found.map fun plaintext => (.channel, plaintext))

/-- What the enabled identities find in a box. -/
def openProfiles (r : Router) (sealed : Bytes) : Except RouteError (Option (MailClass × Bytes)) :=
  if !r.settings.checkProfiles then .ok none
  else match r.backend.list Profile with
    | .error e => .error (.store e)
    | .ok profiles =>
      match openFirst sealed (profiles.filter Profile.enabled) with
      | .error e => .error (.crypto e)
      | .ok found => .ok (found.map fun plaintext => (.profile, plaintext))

/-- What the node's own keys find in a box: the content key first, then those of its identities. -/
def openPrivate (r : Router) (sealed : Bytes) : Except RouteError (Option (MailClass × Bytes)) :=
  if !r.settings.checkContent then r.openProfiles sealed
  else match SealedBox.open? r.identity.content sealed with
    | .error e => .error (.crypto e)
    | .ok (some plaintext) => .ok (some (.content, plaintext))
    | .ok none => r.openProfiles sealed

/-- What the node finds in an envelope with the keys that it may try, and the class of the key. -/
def open? (r : Router) (e : Envelope) : Except RouteError (Option (MailClass × Bytes)) :=
  match e.channel with
  | some name => r.openChannel name e.ciphertext
  | none => r.openPrivate e.ciphertext

/-! ### Delivering and passing on -/

omit [Cryptography] in
/-- Takes what was found in an envelope: a part of a stream, or a message. -/
def consume (r : Router) (e : Envelope) (mailClass : MailClass) (plaintext : Bytes) :
    Except RouteError Router :=
  if e.flags.isPart then
    -- A part that cannot be kept is an error only if it cannot be read.
    match r.streams.handle e.flags plaintext mailClass with
    | .error error => .error (.stream error)
    | .ok streams => .ok { r with streams := streams }
  -- A message that finds the queue full is counted and dropped; routing goes on.
  else .ok { r with queue := (r.queue.offer ⟨mailClass, e.channel, plaintext⟩).2 }

omit [Cryptography] in
/-- Puts copies of an envelope into the outbox under some channels, of which an empty one means private
mail. A channel that does not fit an envelope is passed over. The count starts with that of the copies
made before. -/
def redirectTo (r : Router) (raw : Bytes) (count : Nat) :
    List String → Except StoreError Nat × Router
  | [] => (.ok count, r)
  | target :: rest =>
    match Envelope.retag raw (if target.isEmpty then none else some target) with
    | .error _ => redirectTo r raw count rest
    | .ok data =>
      match r.post target data with
      | .error e => (.error e, r)
      | .ok r => redirectTo r raw (count + 1) rest

omit [Cryptography] in
/-- Puts an envelope into the outbox, under its own channel or those of a patch: the number of entries
made. -/
def forward (r : Router) (e : Envelope) (raw : Bytes) : Except StoreError Nat × Router :=
  let label := e.channel.getD ""
  match r.settings.redirect label with
  | some targets => redirectTo r raw 0 targets
  | none =>
    match r.post label raw with
    | .error error => (.error error, r)
    | .ok r => (.ok 1, r)

omit [Cryptography] in
/-- Passes an envelope on if the settings say so. -/
def passOn (r : Router) (e : Envelope) (raw : Bytes) (consumed : Option MailClass) :
    Except RouteError RouteOutcome × Router :=
  if r.settings.forwards e.channel.isSome consumed then
    let (result, r) := r.forward e raw
    match result with
    | .error error => (.error (.store error), r)
    | .ok forwarded => (.ok (.routed consumed forwarded), r)
  else (.ok (.routed consumed 0), r)

/-- Opens, delivers and passes on an envelope that was not seen lately. -/
def routeNew (r : Router) (e : Envelope) (raw : Bytes) : Except RouteError RouteOutcome × Router :=
  match r.open? e with
  | .error error => (.error error, r)
  | .ok none => r.passOn e raw none
  | .ok (some (mailClass, plaintext)) =>
    match r.consume e mailClass plaintext with
    | .error error => (.error error, r)
    | .ok r => r.passOn e raw (some mailClass)

/-- Routes an envelope. -/
def route (r : Router) (raw : Bytes) : Except RouteError RouteOutcome × Router :=
  match Envelope.parse raw with
  | .error error => (.error (.wire error), r)
  | .ok e =>
    match e.fingerprint with
    | .error error => (.error (.wire error), r)
    | .ok fp =>
      -- Noted before the box is opened, so that a damaged envelope is not tried again either.
      let (known, recent) := r.recent.check fp
      let r := { r with recent := recent }
      if known then (.ok .duplicate, r) else r.routeNew e raw

/-- Routes envelopes one after the other: the number of those that were routed and no duplicates. -/
def routeAll (r : Router) (count : Nat) : List Bytes → Nat × Router
  | [] => (count, r)
  | raw :: rest =>
    match r.route raw with
    | (.ok (.routed _ _), r) => routeAll r (count + 1) rest
    | (_, r) => routeAll r count rest

end Router

end Courier
