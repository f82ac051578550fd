import Mathlib
import Courier.Proofs.Exchange.Frames

/-!
## Rounds between hosts of different limits

A round asks for a bundle of a size that suits its own transport, and the host that makes the bundle
sees to it that it suits the host's transport too. The bundle that the round brings is of a size that
suits its own transport alone. So a round fails for the length of a frame in one case: what it brings
does not fit the frames of the host.

* `Node.offers`: what a round brings.
* `Network.Between`: the two hosts of a round, which stay as they are up to its last call.
* `failsBySize_exchange_iff`: when a round fails for the length of a frame.
-/

namespace Courier

open Codec

/-! ### Errors -/

/-- An error that says that a frame is too long, on one side or the other. -/
def TransportError.IsFrameSize : TransportError → Prop
  | .frameTooLarge _ _ => True
  | .codec (.frameTooLarge _) => True
  | .remote text => ∃ length, text = (Response.oversize length).error
  | _ => False

/-- A call of a round came back with the error that a frame is too long, which ended the round. -/
def FailsBySize (result : Except SyncError ExchangeReport) : Prop :=
  ∃ e, result = .error (.transport e) ∧ e.IsFrameSize

theorem failsBySize_error_iff {e : TransportError} :
    FailsBySize (.error (.transport e)) ↔ e.IsFrameSize := by
  constructor
  · rintro ⟨e', heq, he'⟩
    cases heq
    exact he'
  · exact fun he => ⟨e, rfl, he⟩

/-- The text about a long answer begins with a letter of its own. -/
theorem not_isFrameSize_remote {text : String} (h : text.toList.head? ≠ some 'r') :
    ¬ (TransportError.remote text).IsFrameSize := by
  rintro ⟨length, rfl⟩
  apply h
  rw [Response.oversize, Response.err, if_neg (by simp)]
  simp

/-! ### Nodes that stay as they are -/

namespace Node

/-- A node has changed in nothing that a round asks it about: it may have drawn secrets, and learnt
something about a host other than how far the host has come with its mail. -/
structure Unmoved (address : String) (n n' : Node) : Prop where
  router : n'.router = n.router
  settings : n'.settings = n.settings
  transports : n'.transports = n.transports
  lastLocal : (n'.known address).lastLocal = (n.known address).lastLocal

variable {address : String} {n n' n'' : Node}

theorem Unmoved.refl (n : Node) : Unmoved address n n := ⟨rfl, rfl, rfl, rfl⟩

theorem Unmoved.trans (h : Unmoved address n n') (h' : Unmoved address n' n'') :
    Unmoved address n n'' :=
  ⟨h'.router.trans h.router, h'.settings.trans h.settings, h'.transports.trans h.transports,
    h'.lastLocal.trans h.lastLocal⟩

theorem Unmoved.backend (h : Unmoved address n n') : n'.backend = n.backend :=
  congrArg Router.backend h.router

theorem unmoved_updatePeer (n : Node) {f : PeerInfo → PeerInfo}
    (h : ∀ info, (f info).lastLocal = info.lastLocal) :
    Unmoved address n (n.updatePeer address f) := by
  refine ⟨rfl, rfl, rfl, ?_⟩
  rw [known_updatePeer]
  exact h _

variable [Cryptography]

theorem unmoved_pickup {n n' : Node} {caller : PublicKey} {since : Time} {maxBytes : Nat}
    {channels : List String} {b : Bundle}
    (h : n.pickup caller since maxBytes channels = (.ok b, n')) : Unmoved address n n' := by
  rcases pickup_of_up (up_of_pickup h) caller since maxBytes channels with
    ⟨_, hpickup⟩ | ⟨_, hpickup⟩
  · rw [hpickup] at h
    cases h
    exact .refl n
  · rw [hpickup] at h
    cases h
    exact ⟨rfl, rfl, rfl, rfl⟩

end Node

/-! ### Two hosts -/

namespace Network

/-- A host of ours, and one that serves an address with some limit. Both may have gone on, but they
stay as they are in what a round asks them about. They may be the same. -/
structure Between (w : Network) (name address : String) (us them : Node) (served : Nat) : Prop where
  ours : ∃ h, w.hosts.find? name = some h ∧ us.Unmoved address h.node
  theirs : ∃ b h, w.bound.find? address = some b ∧ b.byteLimit = served ∧
    w.hosts.find? b.host = some h ∧ them.Unmoved address h.node

variable {w : Network} {name address : String} {us them : Node} {served : Nat}

theorem find?_setNode (w : Network) (name : String) (h : Host) (n : Node) (other : String) :
    (w.setNode name h n).hosts.find? other =
      if name = other then some { h with node := n } else w.hosts.find? other :=
  Table.find?_insert _ _ _ _

/-- A host that has gone on without a change is found as any other. -/
theorem exists_find?_setNode {name other : String} {h d : Host} {m n : Node}
    (hh : w.hosts.find? name = some h) (hn : h.node.Unmoved address n)
    (hd : w.hosts.find? other = some d) (hm : m.Unmoved address d.node) :
    ∃ d', (w.setNode name h n).hosts.find? other = some d' ∧ m.Unmoved address d'.node := by
  rw [find?_setNode]
  -- The host looked for may be the one that has gone on.
  by_cases heq : name = other
  · subst heq
    obtain rfl := Option.some.inj (hh.symm.trans hd)
    rw [if_pos rfl]
    exact ⟨_, rfl, hm.trans hn⟩
  · rw [if_neg heq]
    exact ⟨d, hd, hm⟩

theorem Between.setNode (hw : w.Between name address us them served) {other : String} {h : Host}
    {n : Node} (hh : w.hosts.find? other = some h) (hn : h.node.Unmoved address n) :
    (w.setNode other h n).Between name address us them served := by
  obtain ⟨ours, hours, hus⟩ := hw.ours
  obtain ⟨b, theirs, hbound, hserved, htheirs, hthem⟩ := hw.theirs
  obtain ⟨theirs', htheirs', hthem'⟩ := exists_find?_setNode hh hn htheirs hthem
  exact ⟨exists_find?_setNode hh hn hours hus, b, theirs', hbound, hserved, htheirs', hthem'⟩

variable [Cryptography]

/-- A call goes to the one who serves the address. -/
theorem Between.exists_rpc_eq (hw : w.Between name address us them served) (own : Nat)
    (call : Call) :
    ∃ surface host h, w.hosts.find? host = some h ∧ them.Unmoved address h.node ∧
      w.rpc own address call =
        ((Memory.rpc own served (fun call n => n.handle surface call) call h.node).1,
          w.setNode host h
            (Memory.rpc own served (fun call n => n.handle surface call) call h.node).2) := by
  obtain ⟨b, h, hbound, rfl, hh, hthem⟩ := hw.theirs
  refine ⟨b.surface, b.host, h, hh, hthem, ?_⟩
  simp only [rpc, hbound, hh]

/-! ### The calls of a round -/

omit [Cryptography] in
theorem Between.exists_find?_setNode (hw : w.Between name address us them served)
    (other : String) (h : Host) (n : Node) :
    ∃ h', (w.setNode other h n).hosts.find? name = some h' := by
  obtain ⟨ours, hours, _⟩ := hw.ours
  rw [find?_setNode]
  split
  · exact ⟨_, rfl⟩
  · exact ⟨ours, hours⟩

section Calls

variable {own : Nat} (hown : Stream.reserve < own) (hserved : Stream.reserve < served)
  (hmax : own ≤ Frame.maxLength)

include hown hserved hmax

theorem Between.exists_rpc_id (hw : w.Between name address us them served) :
    ∃ key w', w'.Between name address us them served ∧
      w.rpc own address ⟨.id, []⟩ = (.ok (.publicKey key), w') := by
  have hreserve : Stream.reserve = 1024 := rfl
  have hroom : 128 ≤ min own served := le_min (by omega) (by omega)
  obtain ⟨surface, host, h, hh, _, hrpc⟩ := hw.exists_rpc_eq own ⟨.id, []⟩
  have hanswer := Response.fits_ok (Value.shallow_iff.mpr (Nat.zero_le _))
    (Nat.le_of_eq (Value.length_publicKey h.node.router.identity.routing.publicKey)) hroom
  rw [Memory.rpc_of_fits hmax (Call.fits_id hroom) (h.node.handle_id surface) hanswer] at hrpc
  exact ⟨_, _, hw.setNode hh (.refl _), hrpc⟩

variable [Cryptography.Lawful]

/-- A request for mail comes back with a bundle, unless the store of the host is out of service. -/
theorem Between.exists_rpc_ofPickup (hw : w.Between name address us them served)
    (hlimits : served ∈ them.transports.limits) (caller : PublicKey) (since : Time) :
    ∃ answer w', w'.Between name address us them served ∧
      w.rpc own address (.ofPickup caller since (UInt64.ofNat (Bundle.budget own)) []) =
        (answer, w') ∧
      ((StoreCall.outboxSince.name ∈ them.backend.down ∧
        answer = .error (.remote "store backend: outbox_since failed")) ∨
      (StoreCall.outboxSince.name ∉ them.backend.down ∧ ∃ b, answer = .ok (.bundle b))) := by
  have hreserve : Stream.reserve = 1024 := rfl
  have hoverhead : Bundle.frameOverhead = 64 := rfl
  have hroom : 128 ≤ min own served := le_min (by omega) (by omega)
  have hfits : Call.Fits (.ofPickup caller since (UInt64.ofNat (Bundle.budget own)) [])
      (min own served) := Call.fits_ofPickup hroom
  obtain ⟨surface, host, h, hh, hthem, hrpc⟩ := hw.exists_rpc_eq own
    (.ofPickup caller since (UInt64.ofNat (Bundle.budget own)) [])
  rw [← hthem.transports] at hlimits
  rw [← hthem.backend]
  rcases h.node.handle_ofPickup_cases surface hlimits (by omega) (by omega) hmax caller since with
    ⟨hdown, hhandle⟩ | ⟨hup, b, n', maxBytes, hpickup, hhandle, hlength⟩
  · have hanswer := Response.fits_err rfl
      (by decide : "store backend: outbox_since failed".utf8ByteSize ≤ 100) hroom
    rw [Memory.rpc_of_fits hmax hfits hhandle hanswer] at hrpc
    exact ⟨_, _, hw.setNode hh (.refl _), hrpc, .inl ⟨hdown, rfl⟩⟩
  · have hanswer := Response.fits_bundle hlength (Nat.le_trans (Nat.min_le_left _ _) hmax)
    rw [Memory.rpc_of_fits hmax hfits hhandle hanswer] at hrpc
    exact ⟨_, _, hw.setNode hh (Node.unmoved_pickup hpickup), hrpc, .inr ⟨hup, b, rfl⟩⟩

/-- A bundle that fits the host is answered, and the answer is not about a length. -/
theorem Between.exists_rpc_ofDropoff [Cryptography.Addressed]
    (hw : w.Between name address us them served) (key : PublicKey) (once : Key) (time : Time)
    {es : List OutboxEntry} (hsum : (es.map Bundle.cost).sum < UInt64.size)
    (hfits : Bundle.dropoffLength (SealedBox.sealedLength (Bundle.batch es).length) ≤
      min own served) :
    ∃ answer w' h, w.rpc own address
        ⟨.dropoff, [.bundle ⟨SealedBox.close key once (Bundle.batch es), time⟩]⟩ = (answer, w') ∧
      w'.hosts.find? name = some h ∧ ∀ e, answer = .error e → ¬ e.IsFrameSize := by
  have hreserve : Stream.reserve = 1024 := rfl
  have hroom : 128 ≤ min own served := le_min (by omega) (by omega)
  set b : Bundle := ⟨SealedBox.close key once (Bundle.batch es), time⟩ with hb
  have hcall : Call.Fits ⟨.dropoff, [.bundle b]⟩ (min own served) := by
    refine Call.fits_ofDropoff ?_
    rwa [hb, SealedBox.length_close]
  obtain ⟨surface, host, h, hh, _, hrpc⟩ := hw.exists_rpc_eq own ⟨.dropoff, [.bundle b]⟩
  rcases h.node.handle_dropoff_cases surface key once time hsum with
    ⟨count, n', hhandle⟩ | hhandle
  · have hanswer := Response.fits_ok (Value.shallow_iff.mpr (Nat.zero_le _))
      (Nat.le_trans (Nat.le_of_eq (Value.length_uint count)) (by decide)) hroom
    obtain ⟨h', hfind⟩ := hw.exists_find?_setNode host h n'
    rw [Memory.rpc_of_fits hmax hcall hhandle hanswer] at hrpc
    exact ⟨_, _, h', hrpc, hfind, nofun⟩
  · have hanswer := Response.fits_err rfl (by decide :
      "bundle is not addressed to this node's routing key".utf8ByteSize ≤ 100) hroom
    obtain ⟨h', hfind⟩ := hw.exists_find?_setNode host h h.node
    rw [Memory.rpc_of_fits hmax hcall hhandle hanswer] at hrpc
    refine ⟨_, _, h', hrpc, hfind, fun e he => ?_⟩
    obtain rfl := Except.error.inj he
    have hletter : "bundle is not addressed to this node's routing key".toList.head? ≠
        some 'r' := by decide
    exact not_isFrameSize_remote hletter

end Calls

end Network

/-! ### What a round brings -/

namespace Node

/-- The entries that a round brings to a host: what a pickup takes that goes on where the last round
ended, within the budget of the node's own transport. -/
def offers (n : Node) (link : RoundLink) : List OutboxEntry :=
  n.taken (n.known link.host).lastLocal (Bundle.budget link.byteLimit) []

variable {n n' : Node} {link : RoundLink}

theorem Unmoved.offers (h : Unmoved link.host n n') : n'.offers link = n.offers link := by
  rw [Node.offers, Node.offers, taken, taken, h.backend, h.lastLocal]

/-- What a node offers fits its own frames, in a bundle. -/
theorem dropoffLength_offers_le (n : Node) (link : RoundLink)
    (hmax : link.byteLimit ≤ Frame.maxLength) (hne : n.offers link ≠ []) :
    Bundle.dropoffLength (SealedBox.sealedLength (Bundle.batch (n.offers link)).length) ≤
      link.byteLimit := by
  have hsize : link.byteLimit < UInt64.size := Nat.lt_of_le_of_lt hmax (by decide)
  have hbatch := Bundle.length_batch_le (Bundle.budget_lt hsize) hne (n.sum_cost_taken_le _ _ _)
  have hsealed := Bundle.sealedLength_add_le (Bundle.length_batch_pos _) hbatch
  have hframe := Bundle.counted_add_valueLength_le (Nat.le_refl 2) (Nat.le_trans hsealed hmax)
  exact Nat.le_trans hframe hsealed

variable [Cryptography]

/-- A node whose store is out of service asks for nothing. -/
theorem askForMail_of_down (hdown : StoreCall.outboxSince.name ∈ n.backend.down)
    (link : RoundLink) (key : PublicKey) : ∃ n',
      n.askForMail link key = (.failed (.store (.backend "outbox_since failed")), n') := by
  have hpickup := pickup_of_down (n := n.updatePeer link.host id) hdown key
    (n.known link.host).lastLocal (Bundle.budget link.byteLimit) []
  rcases n.askForMail_cases link key with ⟨e, n', h, hask⟩ | ⟨outgoing, n', h, _⟩
  · rw [hpickup] at h
    cases h
    exact ⟨_, hask⟩
  · rw [hpickup] at h
    cases h

/-- A node asks for mail with its own mail at hand. -/
theorem askForMail_of_up (hup : StoreCall.outboxSince.name ∉ n.backend.down)
    (hfilter : n.settings.sync.channelFilter = []) (link : RoundLink) (key : PublicKey) :
    ∃ caller since outgoing n', Unmoved link.host n n' ∧
      n.askForMail link key =
        (.call (.ofPickup caller since (UInt64.ofNat (Bundle.budget link.byteLimit)) [])
          (.incoming outgoing), n') ∧
      ((n.offers link = [] ∧ outgoing.isEmpty = true) ∨
        (n.offers link ≠ [] ∧ ∃ once time,
          outgoing = ⟨SealedBox.close key once (Bundle.batch (n.offers link)), time⟩)) := by
  have hknown : Unmoved link.host n (n.updatePeer link.host id) :=
    n.unmoved_updatePeer fun _ => rfl
  rcases n.askForMail_cases link key with ⟨e, n', h, _⟩ | ⟨outgoing, n', h, hask⟩
  · obtain ⟨b, n'', hpickup⟩ := exists_pickup (n := n.updatePeer link.host id) hup key
      (n.known link.host).lastLocal (Bundle.budget link.byteLimit) []
    rw [hpickup] at h
    cases h
  · rw [hfilter] at hask
    refine ⟨_, _, outgoing, n', hknown.trans (unmoved_pickup h), hask, ?_⟩
    rcases pickup_of_up (n := n.updatePeer link.host id) hup key (n.known link.host).lastLocal
      (Bundle.budget link.byteLimit) [] with ⟨hnone, hpickup⟩ | ⟨hsome, hpickup⟩
    · rw [hpickup] at h
      cases h
      exact .inl ⟨hnone, rfl⟩
    · rw [hpickup] at h
      cases h
      exact .inr ⟨hsome, _, _, rfl⟩

/-- What goes wrong with a bundle is nothing about a transport. -/
theorem dropoff_ne_transport {b : Bundle} {e : SyncError} (h : n.dropoff b = (.error e, n')) :
    ∀ t, e ≠ .transport t := by
  unfold dropoff at h
  split at h
  · rename_i e' henvelopes
    cases h
    unfold Bundle.envelopes at henvelopes
    split at henvelopes
    · cases henvelopes
      nofun
    · split at henvelopes
      · cases henvelopes
        nofun
      · cases henvelopes
        nofun
      · split at henvelopes
        · cases henvelopes
          nofun
        · cases henvelopes
  · cases h

end Node

/-! ### Rounds -/

namespace Network

variable [Cryptography] {w : Network} {name : String} {link : RoundLink} {us them : Node}
  {served : Nat}

theorem finishRound_call {w' : Network} {call : Call} {answer : Except TransportError Value}
    (stage : RoundStage) (hrpc : w.rpc link.byteLimit link.host call = (answer, w')) {h : Host}
    (hh : w'.hosts.find? name = some h) :
    w.finishRound name link (.call call stage) =
      (w'.setNode name h (h.node.resumeRound link stage answer).2).finishRound name link
        (h.node.resumeRound link stage answer).1 := by
  rw [finishRound]
  simp only [hrpc, hh]

theorem finishRound_call_error {w' : Network} {call : Call} {e : TransportError}
    (stage : RoundStage) (hrpc : w.rpc link.byteLimit link.host call = (.error e, w')) {h : Host}
    (hh : w'.hosts.find? name = some h) :
    (w.finishRound name link (.call call stage)).1 = .error (.transport e) := by
  rw [finishRound_call stage hrpc hh]
  show (finishRound _ name link (.failed (.transport e))).1 = _
  rw [finishRound]

/-- Taking in the peer's mail, which ends a round, has nothing to do with frames. -/
theorem not_failsBySize_takeIncoming (w : Network) (n : Node) (report : ExchangeReport)
    (incoming : Bundle) :
    ¬ FailsBySize (w.finishRound name link (n.takeIncoming link report incoming).1).1 := by
  rintro ⟨e, heq, _⟩
  rcases n.takeIncoming_cases link report incoming with
    ⟨_, htake⟩ | ⟨_, e', n', hdropoff, htake⟩ | ⟨_, _, _, _, _, htake, _⟩
  · rw [htake, finishRound] at heq
    cases heq
  · rw [htake, finishRound] at heq
    cases heq
    exact Node.dropoff_ne_transport hdropoff e rfl
  · rw [htake, finishRound] at heq
    cases heq

variable [Cryptography.Lawful]

section Rounds

variable (hown : Stream.reserve < link.byteLimit) (hserved : Stream.reserve < served)
  (hmax : link.byteLimit ≤ Frame.maxLength)

include hown hserved hmax

/-- **Handing over fails by size if the bundle does not fit the host.** -/
theorem failsBySize_dropoff_iff [Cryptography.Addressed]
    (hw : w.Between name link.host us them served) (hne : us.offers link ≠ []) (key : PublicKey)
    (once : Key) (time : Time) (incoming : Bundle) :
    let outgoing : Bundle := ⟨SealedBox.close key once (Bundle.batch (us.offers link)), time⟩
    FailsBySize (w.finishRound name link
      (.call ⟨.dropoff, [.bundle outgoing]⟩ (.receipt outgoing incoming))).1 ↔
      served < Bundle.dropoffLength
        (SealedBox.sealedLength (Bundle.batch (us.offers link)).length) := by
  intro outgoing
  have hfits := us.dropoffLength_offers_le link hmax hne
  have hlength : outgoing.data.length =
      SealedBox.sealedLength (Bundle.batch (us.offers link)).length := SealedBox.length_close _ _ _
  by_cases hlt : served < Bundle.dropoffLength
      (SealedBox.sealedLength (Bundle.batch (us.offers link)).length)
  · obtain ⟨surface, host, h, hh, _, hrpc⟩ :=
      hw.exists_rpc_eq link.byteLimit ⟨.dropoff, [.bundle outgoing]⟩
    have hcall := Call.counted_ofDropoff outgoing
    rw [hlength] at hcall
    rw [Memory.rpc_of_lt hmax (by rwa [hcall]) (by rwa [hcall])] at hrpc
    obtain ⟨ours, hours, _⟩ := (hw.setNode hh (.refl _)).ours
    rw [finishRound_call_error _ hrpc hours, failsBySize_error_iff]
    exact ⟨fun _ => hlt, fun _ => trivial⟩
  · refine ⟨fun hfails => absurd hfails ?_, fun hlt' => absurd hlt' hlt⟩
    have hsize : link.byteLimit < UInt64.size := Nat.lt_of_le_of_lt hmax (by decide)
    have hsum : ((us.offers link).map Bundle.cost).sum < UInt64.size :=
      Nat.lt_of_le_of_lt (us.sum_cost_taken_le _ _ _)
        (Nat.lt_of_le_of_lt (Nat.sub_le _ _) (Bundle.budget_lt hsize))
    obtain ⟨answer, w', h, hrpc, hh, hanswer⟩ := hw.exists_rpc_ofDropoff hown hserved hmax key
      once time hsum (le_min hfits (Nat.not_lt.mp hlt))
    cases answer with
    | error e =>
      rw [finishRound_call_error _ hrpc hh, failsBySize_error_iff]
      exact hanswer e rfl
    | ok v =>
      rw [finishRound_call _ hrpc hh]
      exact not_failsBySize_takeIncoming _ _ _ _

/-- Once the key of the host is known, a round fails by size if both stores are in service and there
is something to hand over that does not fit the host. -/
theorem failsBySize_askForMail_iff [Cryptography.Addressed]
    (hw : w.Between name link.host us them served) (hlimits : served ∈ them.transports.limits)
    (hfilter : us.settings.sync.channelFilter = []) {h : Host} (hh : w.hosts.find? name = some h)
    {n : Node} (hn : h.node.Unmoved link.host n) (key : PublicKey) :
    FailsBySize ((w.setNode name h (n.askForMail link key).2).finishRound name link
      (n.askForMail link key).1).1 ↔
      StoreCall.outboxSince.name ∉ us.backend.down ∧
      StoreCall.outboxSince.name ∉ them.backend.down ∧ us.offers link ≠ [] ∧
      served < Bundle.dropoffLength
        (SealedBox.sealedLength (Bundle.batch (us.offers link)).length) := by
  have hus : us.Unmoved link.host n := by
    obtain ⟨h', hh', hus⟩ := hw.ours
    obtain rfl := Option.some.inj (hh.symm.trans hh')
    exact hus.trans hn
  rw [← hus.backend]
  -- A node that cannot read its own mail makes no call.
  by_cases hup : StoreCall.outboxSince.name ∈ n.backend.down
  · refine ⟨fun ⟨e, heq, _⟩ => ?_, fun hall => absurd hup hall.1⟩
    obtain ⟨n', hask⟩ := Node.askForMail_of_down hup link key
    rw [hask, finishRound] at heq
    cases heq
  rw [← hus.settings] at hfilter
  obtain ⟨caller, since, outgoing, n', hmoved, hask, hout⟩ :=
    Node.askForMail_of_up hup hfilter link key
  rw [hus.offers] at hout
  rw [hask]
  have hw' := hw.setNode hh (hn.trans hmoved)
  obtain ⟨answer, w', hw', hrpc, hanswer⟩ :=
    hw'.exists_rpc_ofPickup hown hserved hmax hlimits caller since
  obtain ⟨h', hh', hus'⟩ := hw'.ours
  -- A host that cannot read its mail says so, and the round is over before anything is handed over.
  rcases hanswer with ⟨hdown, rfl⟩ | ⟨hthem, incoming, rfl⟩
  · rw [finishRound_call_error _ hrpc hh', failsBySize_error_iff]
    refine ⟨fun hsize => absurd hsize (not_isFrameSize_remote ?_), fun hall => absurd hdown hall.2.1⟩
    decide
  rw [finishRound_call _ hrpc hh']
  show FailsBySize ((w'.setNode name h' (h'.node.handOver link outgoing incoming).2).finishRound name
    link (h'.node.handOver link outgoing incoming).1).1 ↔ _
  unfold Node.handOver
  rcases hout with ⟨hnone, hempty⟩ | ⟨hsome, once, time, rfl⟩
  · rw [if_pos hempty]
    exact ⟨fun hfails => absurd hfails (not_failsBySize_takeIncoming _ _ _ _),
      fun hall => absurd hnone hall.2.2.1⟩
  · have hfails := failsBySize_dropoff_iff hown hserved hmax (hw'.setNode hh' (.refl _)) hsome key
      once time incoming
    rw [if_neg (by rw [Bundle.isEmpty_close]; decide)]
    exact ⟨fun h => ⟨hup, hthem, hsome, hfails.mp h⟩, fun hall => hfails.mpr hall.2.2.2⟩

end Rounds

/-- **When a round fails for the length of a frame**: when both stores are in service and the node has
a bundle to hand over whose frame is longer than the limit of the host. -/
theorem failsBySize_exchange_iff [Cryptography.Addressed] {us them : Host} {t : Transport}
    {address : String} {b : Binding} (hus : w.hosts.find? name = some us)
    (hbound : w.bound.find? address = some b) (hthem : w.hosts.find? b.host = some them)
    (hlimits : b.byteLimit ∈ them.node.transports.limits)
    (hfilter : us.node.settings.sync.channelFilter = []) (hown : Stream.reserve < t.byteLimit)
    (hserved : Stream.reserve < b.byteLimit) (hmax : t.byteLimit ≤ Frame.maxLength)
    (key : Option PublicKey) :
    FailsBySize (w.exchange name t address key).1 ↔
      StoreCall.outboxSince.name ∉ us.node.backend.down ∧
      StoreCall.outboxSince.name ∉ them.node.backend.down ∧
      us.node.offers ⟨address, t.byteLimit⟩ ≠ [] ∧
      b.byteLimit < Bundle.dropoffLength (SealedBox.sealedLength
        (Bundle.batch (us.node.offers ⟨address, t.byteLimit⟩)).length) := by
  let link : RoundLink := ⟨address, t.byteLimit⟩
  have hw : w.Between name link.host us.node them.node b.byteLimit :=
    ⟨⟨us, hus, .refl _⟩, b, them, hbound, rfl, hthem, .refl _⟩
  have hlearn (n : Node) (key : PublicKey) : n.Unmoved link.host
      (n.updatePeer link.host fun info => { info with routingKey := some key }) :=
    n.unmoved_updatePeer fun _ => rfl
  simp only [exchange, hus]
  unfold Node.beginRound
  split
  · exact failsBySize_askForMail_iff hown hserved hmax hw hlimits hfilter hus (hlearn _ _) _
  · split
    · exact failsBySize_askForMail_iff hown hserved hmax hw hlimits hfilter hus (.refl _) _
    · -- The key is asked for first, which leaves both hosts as they are.
      have hw' := hw.setNode hus (.refl us.node)
      obtain ⟨key, w', hw', hrpc⟩ := hw'.exists_rpc_id hown hserved hmax
      obtain ⟨h', hh', _⟩ := hw'.ours
      rw [finishRound_call .key hrpc hh']
      exact failsBySize_askForMail_iff hown hserved hmax hw' hlimits hfilter hh' (hlearn _ _) _

/-- **Rounds between hosts of different limits.** A node that asks for every channel has a round over
a transport with a host that serves an address with one of its own transports, both limits above the
reserve and the node's at most that of a frame. Whatever lies in the outboxes and whatever key is
given or known, no call of the round fails for the length of a frame, unless both stores are in
service and the node has a bundle to hand over whose frame is longer than the limit of the host; and
none ever does where the host carries all that the node does. -/
theorem exchange_across_limits [Cryptography.Addressed] {us them : Host} {t : Transport}
    {address : String} {b : Binding} (hus : w.hosts.find? name = some us)
    (hbound : w.bound.find? address = some b) (hthem : w.hosts.find? b.host = some them)
    (hlimits : b.byteLimit ∈ them.node.transports.limits)
    (hfilter : us.node.settings.sync.channelFilter = []) (hown : Stream.reserve < t.byteLimit)
    (hserved : Stream.reserve < b.byteLimit) (hmax : t.byteLimit ≤ Frame.maxLength)
    (key : Option PublicKey) :
    (FailsBySize (w.exchange name t address key).1 ↔
      StoreCall.outboxSince.name ∉ us.node.backend.down ∧
      StoreCall.outboxSince.name ∉ them.node.backend.down ∧
      us.node.offers ⟨address, t.byteLimit⟩ ≠ [] ∧
      b.byteLimit < Bundle.dropoffLength (SealedBox.sealedLength
        (Bundle.batch (us.node.offers ⟨address, t.byteLimit⟩)).length)) ∧
    (t.byteLimit ≤ b.byteLimit → ¬ FailsBySize (w.exchange name t address key).1) := by
  have hiff := failsBySize_exchange_iff hus hbound hthem hlimits hfilter hown hserved hmax key
  refine ⟨hiff, fun hle hfails => ?_⟩
  obtain ⟨_, _, hne, hlt⟩ := hiff.mp hfails
  have hfits := us.node.dropoffLength_offers_le ⟨address, t.byteLimit⟩ hmax hne
  exact Nat.not_lt.mpr (Nat.le_trans hfits hle) hlt

omit [Cryptography] [Cryptography.Lawful]

/-- A node with an outbox, and one without mail that serves an address. -/
def pair (own served : Nat) (o : Outbox) : Network where
  hosts := .ofList [
    ("client", { node := .keeping ⟨.chacha, Key.zero⟩ own o, registry := {} }),
    ("server", { node := .keeping ⟨.aes, Key.zero⟩ served [], registry := {} })]
  bound := .ofList [("server", ⟨"server", .everyone, served⟩)]
  timeOfDay := 0

theorem find?_pair_client (own served : Nat) (o : Outbox) :
    (pair own served o).hosts.find? "client" =
      some { node := .keeping ⟨.chacha, Key.zero⟩ own o, registry := {} } := by
  simp [pair, Table.ofList, Table.find?_insert]

theorem find?_pair_server (own served : Nat) (o : Outbox) :
    (pair own served o).hosts.find? "server" =
      some { node := .keeping ⟨.aes, Key.zero⟩ served [], registry := {} } := by
  simp [pair, Table.ofList, Table.find?_insert]

theorem bound_pair (own served : Nat) (o : Outbox) :
    (pair own served o).bound.find? "server" = some ⟨"server", .everyone, served⟩ := by
  simp [pair, Table.ofList, Table.find?_insert]

/-- A letter goes to a host with longer frames. -/
theorem exchange_across_limits_longer :
    letI := Cryptography.labelled
    Stream.reserve < 4096 ∧ 4096 ≤ Frame.maxLength ∧
      ¬ FailsBySize ((pair 4096 65536 [⟨"", [7], 5⟩]).exchange "client" ⟨"mem", 4096⟩ "server"
        none).1 :=
  letI := Cryptography.labelled
  haveI := Cryptography.lawful_labelled
  haveI := Cryptography.addressed_labelled
  ⟨by decide, by decide,
    (exchange_across_limits (find?_pair_client _ _ _) (bound_pair _ _ _) (find?_pair_server _ _ _)
      (List.mem_singleton_self _) rfl (by decide) (by decide) (by decide) none).2 (by decide)⟩

/-- Four letters of a thousand bytes, each in its envelope. -/
def letters : Outbox :=
  [⟨"", List.replicate 1065 7, 1⟩, ⟨"", List.replicate 1065 7, 2⟩, ⟨"", List.replicate 1065 7, 3⟩,
    ⟨"", List.replicate 1065 7, 4⟩]

theorem sum_cost_letters : (letters.map Bundle.cost).sum = 4 * counted 1065 := by
  have hcost (time : Time) : Bundle.cost ⟨"", List.replicate 1065 7, time⟩ = counted 1065 := by
    rw [Bundle.cost, List.length_replicate, counted]
  simp only [letters, List.map_cons, List.map_nil, hcost, List.sum_cons, List.sum_nil]
  omega

/-- All four go into one bundle. -/
theorem offers_letters :
    (Node.keeping ⟨.chacha, Key.zero⟩ 65536 letters).offers ⟨"server", 65536⟩ = letters := by
  have hsince : Outbox.since letters 0 [] = letters := rfl
  have hbudget : Bundle.budget 65536 - Bundle.batchOverhead = 65381 := by decide
  have hcost : counted 1065 ≤ 1065 + 4 := counted_le (by decide)
  show Bundle.gather (Bundle.budget 65536 - Bundle.batchOverhead) 0 (Outbox.since letters 0 []) = _
  rw [hsince, hbudget, Bundle.gather_of_sum_le]
  rw [sum_cost_letters]
  omega

theorem lt_dropoffLength_letters :
    4096 < Bundle.dropoffLength (SealedBox.sealedLength (Bundle.batch letters).length) := by
  have hbatch := Bundle.length_batch letters
  have hcost := lt_counted 1065
  have hsealed : (Bundle.batch letters).length ≤
      SealedBox.sealedLength (Bundle.batch letters).length := by
    rw [SealedBox.sealedLength]
    omega
  have hframe := Bundle.lt_dropoffLength (SealedBox.sealedLength (Bundle.batch letters).length)
  rw [sum_cost_letters] at hbatch
  omega

/-- Letters that a host with shorter frames could take one by one do not get there together, and the
round fails. -/
theorem failsBySize_exchange_shorter :
    letI := Cryptography.labelled
    Stream.reserve < 4096 ∧ 65536 ≤ Frame.maxLength ∧
      FailsBySize ((pair 65536 4096 letters).exchange "client" ⟨"mem", 65536⟩ "server" none).1 := by
  let _ := Cryptography.labelled
  have _ := Cryptography.lawful_labelled
  have _ := Cryptography.addressed_labelled
  have hiff := failsBySize_exchange_iff (find?_pair_client 65536 4096 letters)
    (bound_pair 65536 4096 letters) (find?_pair_server 65536 4096 letters)
    (t := ⟨"mem", 65536⟩) (List.mem_singleton_self _) rfl (by decide) (by decide) (by decide) none
  refine ⟨by decide, by decide, hiff.mpr ⟨List.not_mem_nil, List.not_mem_nil, ?_⟩⟩
  rw [offers_letters]
  exact ⟨List.cons_ne_nil _ _, lt_dropoffLength_letters⟩

end Network

end Courier
