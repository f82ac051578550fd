import Mathlib
import Courier.Proofs.Exchange.Conversation
import Courier.Proofs.SealedBox.Transparent

/-!
## The books of a round that fails

A round makes entries on its host in three places: the key, when it is given or learnt; what the host
has of the node's mail, when the host has said so; and what the node has of the host's, when all of it
is taken in, which is the end. A round can fail between any two of these, so after a failure the
entries are those of the places that it got past. What they are can be told from the calls and the
answers alone, which is what carries the proof from call to call.

* `Transcript.key?`, `Transcript.handedOver?`: what a round has heard that it enters.
* `Node.booked`: the entries that go with what was heard.
* `Stands.begin`, `Stands.resume`: up to a failure, the entries are those.
* `KeepsBooks`: what that comes to.
-/

namespace Courier

/-! ### What is heard -/

namespace Transcript

/-- The key in an answer to the question for it. -/
def keyIn? : Call × Except TransportError Value → Option PublicKey
  | (⟨.id, []⟩, .ok v) => v.toPublicKey.toOption
  | _ => none

/-- The bundle in a call that was answered with success. -/
def handedOverIn? : Call × Except TransportError Value → Option Bundle
  | (⟨.dropoff, [.bundle b]⟩, .ok _) => some b
  | _ => none

/-- The key that a round has learnt. -/
def key? (heard : Transcript) : Option PublicKey := heard.findSome? keyIn?

/-- The bundle that a round has handed over. -/
def handedOver? (heard : Transcript) : Option Bundle := heard.findSome? handedOverIn?

variable (heard : Transcript) (c : Call × Except TransportError Value)

theorem key?_concat : key? (heard ++ [c]) = (key? heard).or (keyIn? c) := by
  rw [key?, List.findSome?_append]
  congr 1
  cases h : keyIn? c <;> simp [h]

theorem handedOver?_concat :
    handedOver? (heard ++ [c]) = (handedOver? heard).or (handedOverIn? c) := by
  rw [handedOver?, List.findSome?_append]
  congr 1
  cases h : handedOverIn? c <;> simp [h]

end Transcript

/-! ### What is entered -/

/-- What is known about a host whose key is known, and which has been handed a bundle or none. -/
def PeerInfo.noted (key : PublicKey) (handed : Option Bundle) (info : PeerInfo) : PeerInfo :=
  match handed with
  | none => { info with routingKey := some key }
  | some b => { info with
      routingKey := some key
      lastLocal := info.lastLocal.later b.time
      sentBytes := info.sentBytes + b.data.length }

section

variable (key : PublicKey) (handed : Option Bundle) (info : PeerInfo)

@[simp] theorem PeerInfo.routingKey_noted : (noted key handed info).routingKey = some key := by
  cases handed <;> rfl

@[simp] theorem PeerInfo.lastRemote_noted :
    (noted key handed info).lastRemote = info.lastRemote := by
  cases handed <;> rfl

@[simp] theorem PeerInfo.receivedBytes_noted :
    (noted key handed info).receivedBytes = info.receivedBytes := by
  cases handed <;> rfl

end

namespace Node

variable {n m : Node} {host : String}

theorem updatePeer_updatePeer (n : Node) (host : String) (f g : PeerInfo → PeerInfo) :
    (n.updatePeer host f).updatePeer host g = n.updatePeer host (g ∘ f) := by
  have hknown : ((n.updatePeer host f).peers.find? host).getD {} = f (n.known host) :=
    n.known_updatePeer host f
  have hpeers : ((n.updatePeer host f).updatePeer host g).peers =
      (n.updatePeer host (g ∘ f)).peers := by
    refine Table.ext_find? fun other => ?_
    rw [updatePeer, hknown, Table.find?_insert, updatePeer, Table.find?_insert, updatePeer,
      Table.find?_insert]
    split <;> rfl
  exact congrArg (fun peers => { n with peers := peers }) hpeers

/-- The key of a host that is known, if one is. -/
theorem bind_routingKey (n : Node) (host : String) :
    (n.peerInfo? host).bind PeerInfo.routingKey = (n.known host).routingKey := by
  rw [known]
  cases n.peerInfo? host <;> rfl

theorem peers_updatePeer_of_eq (h : m.peers = n.peers) (host : String)
    (f : PeerInfo → PeerInfo) : (m.updatePeer host f).peers = (n.updatePeer host f).peers := by
  rw [updatePeer, updatePeer, h]

/-- The key that a round has for a host: the one that is given or learnt, or else the one known
before. -/
def roundKey? (n : Node) (host : String) (given : Option PublicKey) (heard : Transcript) :
    Option PublicKey :=
  (given.or heard.key?).or (n.known host).routingKey

/-- What a node has entered in a round that has not come to its end, told by what it knew before and
what it has heard. A host without a key is not entered. -/
def booked (n : Node) (host : String) (given : Option PublicKey) (heard : Transcript) :
    Table String PeerInfo :=
  match n.roundKey? host given heard with
  | none => n.peers
  | some key => (n.updatePeer host (PeerInfo.noted key heard.handedOver?)).peers

variable [Cryptography]

theorem peers_askForMail (n : Node) (link : RoundLink) (key : PublicKey) :
    (n.askForMail link key).2.peers = (n.updatePeer link.host id).peers := by
  rcases n.askForMail_cases link key with ⟨e, n', hpickup, hask⟩ | ⟨outgoing, n', hpickup, hask⟩
  all_goals
    rw [hask]
    exact ((grows_pickup _ _ _ _ _).of_snd hpickup).peers

end Node

/-! ### From call to call -/

variable [Cryptography] {link : RoundLink} {given : Option PublicKey} {start n m : Node}
  {heard : Transcript} {key : PublicKey}

omit [Cryptography]

/-- What a round waits for, and what it has heard by then: nothing before it has asked for the key, and
no receipt before it has handed anything over. -/
inductive Awaits (host : String) (given : Option PublicKey) (start : Node) (heard : Transcript) :
    Call → RoundStage → Prop
  | key (hgiven : given = none) (hcached : (start.known host).routingKey = none)
      (hheard : heard = []) : Awaits host given start heard ⟨.id, []⟩ .key
  | incoming (hkey : (start.roundKey? host given heard).isSome = true)
      (hhanded : heard.handedOver? = none) (args : List Value) (outgoing : Bundle) :
      Awaits host given start heard ⟨.pickup, args⟩ (.incoming outgoing)
  | receipt (hkey : (start.roundKey? host given heard).isSome = true)
      (hhanded : heard.handedOver? = none) (outgoing incoming : Bundle) :
      Awaits host given start heard ⟨.dropoff, [.bundle outgoing]⟩ (.receipt outgoing incoming)

/-- Where a round stands at a turn, and what is entered by then. Only the last step of a round, which
takes in the host's mail, enters anything else. -/
def Stands (host : String) (given : Option PublicKey) (start : Node) (heard : Transcript)
    (n : Node) : Turn → Prop
  | .call call stage => Awaits host given start heard call stage ∧
      n.peers = start.booked host given heard
  | .failed _ => n.peers = start.booked host given heard
  | .done _ => True

variable [Cryptography]

/-- A round whose key is known asks for mail. -/
theorem Stands.askForMail (hkey : start.roundKey? link.host given heard = some key)
    (hhanded : heard.handedOver? = none)
    (hm : (m.updatePeer link.host id).peers = start.booked link.host given heard) :
    Stands link.host given start heard (m.askForMail link key).2 (m.askForMail link key).1 := by
  have hpeers := (m.peers_askForMail link key).trans hm
  rcases m.askForMail_cases link key with ⟨e, n', _, hask⟩ | ⟨outgoing, n', _, hask⟩
  · rw [hask] at hpeers ⊢
    exact hpeers
  · rw [hask] at hpeers ⊢
    exact ⟨.incoming (by rw [hkey]; rfl) hhanded _ outgoing, hpeers⟩

/-- A round that takes in the host's mail enters it, or fails and enters nothing. -/
theorem Stands.takeIncoming (hm : m.peers = start.booked link.host given heard)
    (report : ExchangeReport) (incoming : Bundle) :
    Stands link.host given start heard (m.takeIncoming link report incoming).2
      (m.takeIncoming link report incoming).1 := by
  rcases m.takeIncoming_cases link report incoming with
    ⟨_, htake⟩ | ⟨_, e, n', hdropoff, htake⟩ | ⟨_, _, _, _, _, htake, _⟩
  · rw [htake]
    trivial
  · obtain rfl := Node.dropoff_failed hdropoff
    rw [htake]
    exact hm
  · rw [htake]
    trivial

/-- **A round begins**, and has entered a key that was given. -/
theorem Stands.begin (link : RoundLink) (given : Option PublicKey) (start : Node) :
    Stands link.host given start [] (start.beginRound link given).2
      (start.beginRound link given).1 := by
  unfold Node.beginRound
  split
  · rename_i key
    have hkey : start.roundKey? link.host (some key) [] = some key := rfl
    refine .askForMail hkey rfl ?_
    rw [Node.updatePeer_updatePeer, Node.booked, hkey]
    rfl
  · split
    · rename_i key hcached
      rw [Node.bind_routingKey] at hcached
      have hkey : start.roundKey? link.host none [] = some key := hcached
      -- The host is entered, if it is not already, and its key stays as it is.
      have hsame : PeerInfo.noted key none (start.known link.host) = start.known link.host := by
        rw [PeerInfo.noted, ← hcached]
      refine .askForMail hkey rfl ?_
      rw [Node.booked, hkey]
      show (start.updatePeer link.host id).peers = start.peers.insert link.host
        (PeerInfo.noted key none (start.known link.host))
      rw [hsame]
      rfl
    · rename_i hcached
      rw [Node.bind_routingKey] at hcached
      have hkey : start.roundKey? link.host none [] = none := hcached
      refine ⟨.key rfl hcached rfl, ?_⟩
      rw [Node.booked, hkey]

section Silent

variable {c : Call × Except TransportError Value} (hkey : Transcript.keyIn? c = none)
  (hhanded : Transcript.handedOverIn? c = none)

omit [Cryptography]

include hkey

theorem Node.roundKey?_concat_of_silent (n : Node) (host : String) (given : Option PublicKey)
    (heard : Transcript) :
    n.roundKey? host given (heard ++ [c]) = n.roundKey? host given heard := by
  rw [roundKey?, Transcript.key?_concat, hkey, Option.or_none]
  rfl

include hhanded

/-- An answer from which nothing is learnt changes nothing in the books. -/
theorem Node.booked_concat_of_silent (n : Node) (host : String) (given : Option PublicKey)
    (heard : Transcript) : n.booked host given (heard ++ [c]) = n.booked host given heard := by
  rw [booked, n.roundKey?_concat_of_silent hkey, Transcript.handedOver?_concat, hhanded,
    Option.or_none]
  rfl

end Silent

omit [Cryptography] in
/-- A round that fails at an answer from which nothing is learnt leaves the books as they are. -/
theorem Stands.fail {c : Call × Except TransportError Value} (hkey : Transcript.keyIn? c = none)
    (hhanded : Transcript.handedOverIn? c = none)
    (hm : m.peers = start.booked link.host given heard) (e : SyncError) :
    Stands link.host given start (heard ++ [c]) m (.failed e) :=
  hm.trans (start.booked_concat_of_silent hkey hhanded _ _ _).symm

/-- The question for the key is answered. -/
theorem Stands.resume_key (hcached : (start.known link.host).routingKey = none)
    (hm : m.peers = start.booked link.host none []) (answer : Except TransportError Value) :
    Stands link.host none start ([] ++ [(⟨.id, []⟩, answer)]) (m.resumeRound link .key answer).2
      (m.resumeRound link .key answer).1 := by
  cases answer with
  | error e => exact .fail rfl rfl hm _
  | ok v =>
    unfold Node.resumeRound
    dsimp only
    cases hv : v.toPublicKey with
    | error e =>
      have hsilent : Transcript.keyIn? (⟨.id, []⟩, .ok v) = none := by
        rw [Transcript.keyIn?, hv]
        rfl
      exact .fail hsilent rfl hm _
    | ok key =>
      have hlearnt : Transcript.keyIn? (⟨.id, []⟩, .ok v) = some key := by
        rw [Transcript.keyIn?, hv]
        rfl
      have hkey : start.roundKey? link.host none ([] ++ [(⟨.id, []⟩, .ok v)]) = some key := by
        rw [Node.roundKey?, Transcript.key?_concat, hlearnt]
        rfl
      have hstart : m.peers = start.peers := by
        have hnone : start.roundKey? link.host none [] = none := hcached
        rw [hm, Node.booked, hnone]
      refine .askForMail hkey rfl ?_
      rw [Node.updatePeer_updatePeer, Node.peers_updatePeer_of_eq hstart, Node.booked, hkey]
      rfl

/-- The host's mail comes, and the round hands over the node's own if there is any. -/
theorem Stands.resume_incoming (hkey : (start.roundKey? link.host given heard).isSome = true)
    (hhanded : heard.handedOver? = none) (args : List Value) (outgoing : Bundle)
    (hm : m.peers = start.booked link.host given heard) (answer : Except TransportError Value) :
    Stands link.host given start (heard ++ [(⟨.pickup, args⟩, answer)])
      (m.resumeRound link (.incoming outgoing) answer).2
      (m.resumeRound link (.incoming outgoing) answer).1 := by
  have hsilent : Transcript.keyIn? (⟨.pickup, args⟩, answer) = none := rfl
  have hsilent' : Transcript.handedOverIn? (⟨.pickup, args⟩, answer) = none := rfl
  cases answer with
  | error e => exact .fail hsilent hsilent' hm _
  | ok v =>
    unfold Node.resumeRound
    dsimp only
    cases hv : v.toBundle with
    | error e => exact .fail hsilent hsilent' hm _
    | ok incoming =>
      have hm' := hm.trans (start.booked_concat_of_silent hsilent hsilent' _ given heard).symm
      unfold Node.handOver
      dsimp only
      split
      · exact .takeIncoming hm' _ _
      · refine ⟨.receipt ?_ ?_ outgoing incoming, hm'⟩
        · rwa [start.roundKey?_concat_of_silent hsilent]
        · rw [Transcript.handedOver?_concat, hhanded, hsilent']
          rfl

/-- The node's own mail is acknowledged, which is entered before anything else can go wrong. -/
theorem Stands.resume_receipt (hkey : (start.roundKey? link.host given heard).isSome = true)
    (hhanded : heard.handedOver? = none) (outgoing incoming : Bundle)
    (hm : m.peers = start.booked link.host given heard) (answer : Except TransportError Value) :
    Stands link.host given start (heard ++ [(⟨.dropoff, [.bundle outgoing]⟩, answer)])
      (m.resumeRound link (.receipt outgoing incoming) answer).2
      (m.resumeRound link (.receipt outgoing incoming) answer).1 := by
  cases answer with
  | error e => exact .fail rfl rfl hm _
  | ok v =>
    obtain ⟨key, hkey⟩ := Option.isSome_iff_exists.mp hkey
    have hkey' := start.roundKey?_concat_of_silent
      (c := (⟨.dropoff, [.bundle outgoing]⟩, .ok v)) rfl link.host given heard
    have hnoted : m.peers = (start.updatePeer link.host (PeerInfo.noted key none)).peers := by
      rw [hm, Node.booked, hkey, hhanded]
    refine .takeIncoming ?_ _ _
    rw [Node.peers_updatePeer_of_eq hnoted, Node.updatePeer_updatePeer, Node.booked, hkey', hkey,
      Transcript.handedOver?_concat, hhanded]
    rfl

/-- **A round goes on with whatever it hears.** -/
theorem Stands.resume {call : Call} {stage : RoundStage}
    (h : Stands link.host given start heard n (.call call stage)) (hm : m.peers = n.peers)
    (answer : Except TransportError Value) :
    Stands link.host given start (heard ++ [(call, answer)]) (m.resumeRound link stage answer).2
      (m.resumeRound link stage answer).1 := by
  obtain ⟨hawaits, hpeers⟩ := h
  have hm' := hm.trans hpeers
  cases hawaits with
  | key hgiven hcached hheard =>
    subst hgiven hheard
    exact .resume_key hcached hm' answer
  | incoming hkey hhanded args outgoing => exact .resume_incoming hkey hhanded args outgoing hm' answer
  | receipt hkey hhanded outgoing incoming =>
    exact .resume_receipt hkey hhanded outgoing incoming hm' answer

/-- **Every conversation stands where it says.** -/
theorem Conversation.stands {turn : Turn} (h : Conversation link given start heard turn n) :
    Stands link.host given start heard n turn := by
  induction h with
  | begin => exact .begin link given start
  | resume h hm answer ih => exact ih.resume hm answer

/-- A round hands over nothing before it knows the key of the host. -/
theorem Conversation.knows {turn : Turn} (h : Conversation link given start heard turn n)
    (hhanded : heard.handedOver? ≠ none) : start.roundKey? link.host given heard ≠ none := by
  cases h with
  | begin => exact absurd rfl hhanded
  | resume h hm answer =>
    obtain ⟨hawaits, -⟩ := h.stands
    cases hawaits with
    | key hgiven hcached hheard =>
      subst hheard
      exact absurd rfl hhanded
    | incoming hkey _ args outgoing =>
      rw [start.roundKey?_concat_of_silent rfl]
      exact Option.isSome_iff_ne_none.mp hkey
    | receipt hkey _ outgoing incoming =>
      rw [start.roundKey?_concat_of_silent rfl]
      exact Option.isSome_iff_ne_none.mp hkey

/-! ### After a failure -/

/-- What is so of the books of a node when a round with a host has failed, by what was heard in it. -/
structure KeepsBooks (host : String) (given : Option PublicKey) (start : Node) (heard : Transcript)
    (n : Node) : Prop where
  /-- What is known about other hosts is the same. -/
  others : ∀ other, other ≠ host → n.peerInfo? other = start.peerInfo? other
  lastRemote : (n.known host).lastRemote = (start.known host).lastRemote
  receivedBytes : (n.known host).receivedBytes = (start.known host).receivedBytes
  /-- Nothing was handed over with success, and nothing of the kind is entered. -/
  kept : heard.handedOver? = none → (n.known host).lastLocal = (start.known host).lastLocal ∧
    (n.known host).sentBytes = (start.known host).sentBytes
  /-- A bundle was handed over with success, and its time and its length are entered. -/
  sent : ∀ b, heard.handedOver? = some b →
    (n.known host).lastLocal = (start.known host).lastLocal.later b.time ∧
    (n.known host).sentBytes = (start.known host).sentBytes + b.data.length
  routingKey : (n.known host).routingKey = (given.or heard.key?).or (start.known host).routingKey
  /-- Where no key was given, learnt or known before, nothing at all is entered. -/
  unknown : given = none → heard.key? = none → (start.known host).routingKey = none →
    n.peers = start.peers

section

omit [Cryptography]

variable {host : String}

theorem Node.known_of_peers_eq (h : n.peers = m.peers) (host : String) :
    n.known host = m.known host := by
  rw [known, peerInfo?, h]
  rfl

/-- A host without a key is not entered. -/
theorem KeepsBooks.of_unknown (h : n.peers = start.peers)
    (hkey : start.roundKey? host given heard = none) (hhanded : heard.handedOver? = none) :
    KeepsBooks host given start heard n := by
  have hknown := Node.known_of_peers_eq h host
  obtain ⟨hnew, hcached⟩ := Option.or_eq_none_iff.mp hkey
  refine ⟨fun other _ => by rw [Node.peerInfo?, h]; rfl, by rw [hknown], by rw [hknown],
    fun _ => by rw [hknown]; exact ⟨rfl, rfl⟩, fun b hb => ?_, ?_, fun _ _ _ => h⟩
  · rw [hhanded] at hb
    cases hb
  · rw [hknown, hcached, hnew]
    rfl

/-- A host with a key is entered, and its entry is what is noted. -/
theorem KeepsBooks.of_known {key : PublicKey}
    (h : n.peers = (start.updatePeer host (PeerInfo.noted key heard.handedOver?)).peers)
    (hkey : start.roundKey? host given heard = some key) :
    KeepsBooks host given start heard n := by
  have hknown : n.known host = PeerInfo.noted key heard.handedOver? (start.known host) :=
    (Node.known_of_peers_eq h host).trans (start.known_updatePeer host _)
  refine ⟨fun other hne => ?_, ?_, ?_, fun hnone => ?_, fun b hb => ?_, ?_,
    fun hgiven hlearnt hcached => ?_⟩
  · rw [Node.peerInfo?, h, Node.updatePeer, Table.find?_insert, if_neg hne.symm]
    rfl
  · rw [hknown, PeerInfo.lastRemote_noted]
  · rw [hknown, PeerInfo.receivedBytes_noted]
  · rw [hknown, hnone]
    exact ⟨rfl, rfl⟩
  · rw [hknown, hb]
    exact ⟨rfl, rfl⟩
  · rw [hknown, PeerInfo.routingKey_noted, ← Node.roundKey?, hkey]
  · rw [Node.roundKey?, hgiven, hlearnt, hcached] at hkey
    cases hkey

end

/-- A round that has failed leaves the books in order. -/
theorem Conversation.keepsBooks {e : SyncError}
    (h : Conversation link given start heard (.failed e) n) :
    KeepsBooks link.host given start heard n := by
  have hpeers : n.peers = start.booked link.host given heard := h.stands
  unfold Node.booked at hpeers
  split at hpeers
  · rename_i hkey
    refine .of_unknown hpeers hkey ?_
    by_contra hhanded
    exact h.knows hhanded hkey
  · rename_i key hkey
    exact .of_known hpeers hkey

/-- **A round that fails keeps its books straight.** Whatever is known about whatever hosts, whether a
key is given or not, whatever the round hears and at whichever of its steps it fails: what the node has
of the host's mail is entered as before, what the host has of the node's as before or, if the host has
acknowledged a bundle, as that says; the key of the host is the only other thing that may be new; other
hosts are as before, and so is everything if no key was given, learnt or known. A round in a network
hears what the network answers, and if it fails, the node is left so. -/
theorem failed_round_keeps_books (given : Option PublicKey) :
    (∀ (link : RoundLink) (start n : Node) (heard : Transcript) (e : SyncError),
      Conversation link given start heard (.failed e) n → KeepsBooks link.host given start heard n) ∧
    ∀ (w w' : Network) (name : String) (h : Host) (t : Transport) (address : String) (e : SyncError),
      w.hosts.find? name = some h → w.exchange name t address given = (.error e, w') →
      ∃ heard h', w'.hosts.find? name = some h' ∧
        Conversation ⟨address, t.byteLimit⟩ given h.node heard (.failed e) h'.node ∧
        (∀ c ∈ heard, ∃ w : Network, (w.rpc t.byteLimit address c.1).1 = c.2) ∧
        KeepsBooks address given h.node heard h'.node := by
  refine ⟨fun link start n heard e h => h.keepsBooks, fun w w' name h t address e hh hexchange => ?_⟩
  obtain ⟨turn, heard, h', hresult, hc⟩ := Network.converses_exchange hh t address given
  rw [hexchange] at hresult hc
  cases turn with
  | call call stage => cases hresult
  | done report => cases hresult
  | failed e' =>
    obtain rfl := Except.error.inj (Option.some.inj hresult)
    exact ⟨heard, h', hc.found, hc.conversation, hc.answered, hc.conversation.keepsBooks⟩

omit [Cryptography]

/-- A host acknowledges a letter and sends what is no bundle of mail; and a host that nobody serves is
asked for its key. -/
theorem failed_round_keeps_books_junk :
    letI := Cryptography.transparent
    let n := Node.keeping ⟨.chacha, Key.zero⟩ 4096 [⟨"", [7], 5⟩]
    let key := Keypair.publicKey ⟨.aes, Key.zero⟩
    let w := Network.pair 4096 4096 [⟨"", [7], 5⟩]
    let ended := w.exchange "client" ⟨"mem", 4096⟩ "nowhere" none
    (∃ heard b e n', Conversation ⟨"server", 4096⟩ (some key) n heard (.failed e) n' ∧
      heard.handedOver? = some b ∧ KeepsBooks "server" (some key) n heard n') ∧
    ended.1 = .error (.transport (.unreachable "nowhere")) ∧
    ∃ heard h', ended.2.hosts.find? "client" = some h' ∧
      KeepsBooks "nowhere" none n heard h'.node := by
  let := Cryptography.transparent
  have := Cryptography.lawful_transparent
  intro n key w ended
  let link : RoundLink := ⟨"server", 4096⟩
  let junk : Bundle := ⟨[1], 9⟩
  constructor
  · let learnt := n.updatePeer "server" fun info => { info with routingKey := some key }
    obtain ⟨caller, since, outgoing, asked, -, hask, hout⟩ :=
      Node.askForMail_of_up (n := learnt) List.not_mem_nil rfl link key
    have hsome : outgoing.isEmpty = false := by
      rcases hout with ⟨hnone, -⟩ | ⟨-, once, time, rfl⟩
      · exact absurd hnone (by decide +kernel)
      · exact Bundle.isEmpty_close _ _ _ _
    have hbegun := @Conversation.begin _ link (some key) n
    rw [show n.beginRound link (some key) = _ from hask] at hbegun
    have hhanding := hbegun.resume rfl (.ok (.bundle junk))
    have hcall : asked.resumeRound link (.incoming outgoing) (.ok (.bundle junk)) =
        (.call ⟨.dropoff, [.bundle outgoing]⟩ (.receipt outgoing junk), asked) := by
      show asked.handOver link outgoing junk = _
      rw [Node.handOver, if_neg (by rw [hsome]; decide)]
    rw [hcall] at hhanding
    have hended := hhanding.resume rfl (.ok (.uint 1))
    have hfailed : (asked.resumeRound link (.receipt outgoing junk) (.ok (.uint 1))).1 =
        .failed (.crypto (.tooShort 1)) := rfl
    rw [hfailed] at hended
    exact ⟨_, outgoing, _, _, hended, rfl, (failed_round_keeps_books _).1 _ _ _ _ _ hended⟩
  · let client : Host := { node := n, registry := {} }
    have hclient : w.hosts.find? "client" = some client := Network.find?_pair_client _ _ _
    have hresult : ended.1 = .error (.transport (.unreachable "nowhere")) := by
      have hbegun : client.node.beginRound ⟨"nowhere", 4096⟩ none =
          (.call ⟨.id, []⟩ .key, client.node) := rfl
      have hnobody : (w.setNode "client" client client.node).bound.find? "nowhere" = none := by
        simp [w, Network.pair, Network.setNode, Table.ofList, Table.find?_insert]
      have hfound := w.find?_setNode "client" client client.node "client"
      rw [if_pos rfl] at hfound
      show (w.exchange "client" ⟨"mem", 4096⟩ "nowhere" none).1 = _
      simp only [Network.exchange, hclient, hbegun]
      exact Network.finishRound_call_error .key (Network.rpc_of_unbound hnobody _ _) hfound
    obtain ⟨heard, h', hfound, -, -, hbooks⟩ := (failed_round_keeps_books none).2 w ended.2 "client"
      client ⟨"mem", 4096⟩ "nowhere" _ hclient (Prod.ext hresult rfl)
    exact ⟨hresult, heard, h', hfound, hbooks⟩

end Courier
