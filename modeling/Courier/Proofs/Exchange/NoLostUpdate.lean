import Mathlib
import Courier.Proofs.Bundle.Elements
import Courier.Proofs.Bundle.Pickup
import Courier.Proofs.Exchange.Correspondence
import Courier.Proofs.SealedBox.Transparent

/-!
## No update is lost

Two watermarks carry an exchange: up to `lastLocal` the node's own mail was acknowledged by the
host, and up to `lastRemote` the host's mail was taken in. A round may fail between any two of its
calls, or between a call and its answer, so each bundle under way carries a watermark of its own:
what it holds and what was dealt with before it settle the outbox up to its time. Only when the
bundle is acknowledged or taken in does the watermark of the node move up to that time.

* `Acknowledged`, `TakenIn`: what it is to be delivered.
* `Faithful`: the invariant, with `Sound` for the calls under way.
* `Faithful.step`, `Faithful.run`: what may happen preserves it.
* `no_lost_update`: in every run the watermarks only move forward, and what lies below them was
  delivered at steps of the run.
-/

namespace Courier

open Courier.Bundle (batchOverhead)

variable [Cryptography]

namespace Correspondence

/-! ### What was delivered -/

/-- The host has acknowledged a bundle that holds an entry. -/
def Acknowledged (record : List Notice) (e : OutboxEntry) : Prop :=
  ∃ b response, .answered ⟨.dropoff, [.bundle b]⟩ response ∈ record ∧ response.error = "" ∧
    ∃ recipient, b.Holds recipient e

/-- The node has taken in a bundle that holds an entry: a round has ended well by a turn that left
the router as it is when all that is in the bundle is routed, one after the other, and the report
tells how many of them were routed. -/
def TakenIn (record : List Notice) (own : Keypair) (e : OutboxEntry) : Prop :=
  ∃ b before report after envelopes, .tookIn b before (.done report) after ∈ record ∧
    b.envelopes own = .ok envelopes ∧ e.data ∈ envelopes ∧
    after = (before.routeEach envelopes).2 ∧
    report.routed = (before.routeEach envelopes).1.countP Router.isRouted

theorem Acknowledged.mono {record record' : List Notice} (h : record ⊆ record') {e : OutboxEntry}
    (he : Acknowledged record e) : Acknowledged record' e := by
  obtain ⟨b, response, hmem, hrest⟩ := he
  exact ⟨b, response, h hmem, hrest⟩

theorem TakenIn.mono {record record' : List Notice} (h : record ⊆ record') {own : Keypair}
    {e : OutboxEntry} (he : TakenIn record own e) : TakenIn record' own e := by
  obtain ⟨b, before, report, after, envelopes, hmem, hrest⟩ := he
  exact ⟨b, before, report, after, envelopes, h hmem, hrest⟩

/-! ### The invariant -/

/-- What stays the same in all that may happen: the link, the routing key of the node and the
channels it asks for, and the longest frame of the host. -/
structure Terms where
  link : RoundLink
  own : Keypair
  channels : List String
  hostLimit : Nat

namespace Terms

/-- The room for the entries of a batch of the node. -/
def ownBudget (terms : Terms) : Nat := Bundle.budget terms.link.byteLimit - batchOverhead

/-- The room for the entries of a batch of the host, which fits the frames of both. -/
def bothBudget (terms : Terms) : Nat :=
  min (Bundle.budget terms.link.byteLimit) (Bundle.budget terms.hostLimit) - batchOverhead

end Terms

variable (terms : Terms)

/-- The node's own mail is acknowledged up to a time, but for what some bundle holds. -/
def SettledLocal (c : Correspondence) (held : OutboxEntry → Prop) (t : Time) : Prop :=
  c.node.router.Settled [] terms.ownBudget (fun e => Acknowledged c.record e ∨ held e) t

/-- The host's mail is taken in up to a time, but for what some bundle holds. -/
def SettledRemote (c : Correspondence) (held : OutboxEntry → Prop) (t : Time) : Prop :=
  c.host.router.Settled terms.channels terms.bothBudget
    (fun e => TakenIn c.record terms.own e ∨ held e) t

/-- A bundle of the node's that may be handed over. -/
def Outgoing (c : Correspondence) (b : Bundle) : Prop :=
  SettledLocal terms c (fun e => ∃ recipient, b.Holds recipient e) b.time

/-- A bundle of the host's that may be taken in. -/
def Incoming (c : Correspondence) (b : Bundle) : Prop :=
  SettledRemote terms c (b.Holds terms.own.publicKey) b.time

/-- What holds of a call under way. -/
def Sound (c : Correspondence) (w : PendingCall) : Prop :=
  match w.stage with
  | .key => True
  | .incoming outgoing =>
    Outgoing terms c outgoing ∧
      (∃ since, w.call = .ofPickup terms.own.publicKey since
          (UInt64.ofNat (Bundle.budget terms.link.byteLimit)) terms.channels ∧
        SettledRemote terms c (fun _ => False) since) ∧
      ∀ v b, w.answer = some (.ok v) → v.toBundle = .ok b → Incoming terms c b
  | .receipt outgoing incoming =>
    Outgoing terms c outgoing ∧ Incoming terms c incoming ∧
      w.call = ⟨.dropoff, [.bundle outgoing]⟩ ∧
      ∀ v, w.answer = some (.ok v) →
        ∃ response, .answered w.call response ∈ c.record ∧ response.error = ""

/-- The invariant: both outboxes were stamped by their clocks, they are settled up to the
watermarks of the node, and every call under way is sound. -/
structure Faithful (c : Correspondence) : Prop where
  routing : c.node.router.identity.routing = terms.own
  channelFilter : c.node.settings.sync.channelFilter = terms.channels
  hostLimit : c.host.transports.byteLimit = some terms.hostLimit
  nodeTimely : c.node.router.Timely
  hostTimely : c.host.router.Timely
  lastLocal : SettledLocal terms c (fun _ => False) (c.node.known terms.link.host).lastLocal
  lastRemote : SettledRemote terms c (fun _ => False) (c.node.known terms.link.host).lastRemote
  calls : ∀ w ∈ c.calls, Sound terms c w

/-! ### Growth preserves what is settled -/

/-- How a correspondence changes: the router of the node and the host grow, and so does the
record. Their clocks have not run out. -/
structure Grows (c c' : Correspondence) : Prop where
  node : c.node.router.Grows c'.node.router
  settings : c'.node.settings = c.node.settings
  host : c.host.Grows c'.host
  record : c.record ⊆ c'.record
  nodeClock : c'.node.router.clock.stamped ≠ Time.last
  hostClock : c'.host.router.clock.stamped ≠ Time.last

variable {terms} {c c' : Correspondence}

theorem SettledLocal.grows {held : OutboxEntry → Prop} {t : Time} (hf : Faithful terms c)
    (hg : Grows c c') (h : SettledLocal terms c held t) : SettledLocal terms c' held t := by
  refine (Router.Settled.grows h hf.nodeTimely hg.node hg.nodeClock).mono fun e he => ?_
  exact he.imp_left (Acknowledged.mono hg.record)

theorem SettledRemote.grows {held : OutboxEntry → Prop} {t : Time} (hf : Faithful terms c)
    (hg : Grows c c') (h : SettledRemote terms c held t) : SettledRemote terms c' held t := by
  refine (Router.Settled.grows h hf.hostTimely hg.host.router hg.hostClock).mono fun e he => ?_
  exact he.imp_left (TakenIn.mono hg.record)

theorem Sound.grows {w : PendingCall} (hf : Faithful terms c) (hg : Grows c c')
    (h : Sound terms c w) : Sound terms c' w := by
  unfold Sound at h ⊢
  split
  · trivial
  · rename_i outgoing hstage
    rw [hstage] at h
    obtain ⟨hout, ⟨since, hcall, hsince⟩, hanswer⟩ := h
    exact ⟨hout.grows hf hg, ⟨since, hcall, hsince.grows hf hg⟩,
      fun v b hv hb => (hanswer v b hv hb).grows hf hg⟩
  · rename_i outgoing incoming hstage
    rw [hstage] at h
    obtain ⟨hout, hin, hcall, hanswer⟩ := h
    refine ⟨hout.grows hf hg, hin.grows hf hg, hcall, fun v hv => ?_⟩
    obtain ⟨response, hmem, herror⟩ := hanswer v hv
    exact ⟨response, hg.record hmem, herror⟩

/-- The invariant after a change, once the watermarks and the new calls were seen to. -/
theorem Faithful.next (hf : Faithful terms c) (hg : Grows c c')
    (hlocal : SettledLocal terms c' (fun _ => False) (c'.node.known terms.link.host).lastLocal)
    (hremote : SettledRemote terms c' (fun _ => False)
      (c'.node.known terms.link.host).lastRemote)
    (hcalls : ∀ w ∈ c'.calls, w ∈ c.calls ∨ Sound terms c' w) : Faithful terms c' where
  routing := hg.node.routing.trans hf.routing
  channelFilter := (congrArg (·.sync.channelFilter) hg.settings).trans hf.channelFilter
  hostLimit := (congrArg Transports.byteLimit hg.host.transports).trans hf.hostLimit
  nodeTimely := (hg.node.outbox hf.nodeTimely hg.nodeClock).1
  hostTimely := (hg.host.router.outbox hf.hostTimely hg.hostClock).1
  lastLocal := hlocal
  lastRemote := hremote
  calls := fun w hw => (hcalls w hw).elim (fun hw => (hf.calls w hw).grows hf hg) id

/-! ### Asking for mail -/

variable [Cryptography.Lawful]

/-- A round that asks for mail goes on from the watermarks of the node. -/
theorem Faithful.ask (hf : Faithful terms c) (hlimit : terms.link.byteLimit < UInt64.size)
    (n : Node) (hrouter : n.router = c.node.router) (hsettings : n.settings = c.node.settings)
    (hlocal : (n.known terms.link.host).lastLocal = (c.node.known terms.link.host).lastLocal)
    (hremote : (n.known terms.link.host).lastRemote = (c.node.known terms.link.host).lastRemote)
    {key : PublicKey} {others : List PendingCall} (hothers : others ⊆ c.calls)
    (hg : Grows c (c.proceed (n.askForMail terms.link key) others none)) :
    Faithful terms (c.proceed (n.askForMail terms.link key) others none) := by
  have hknown : ∀ {result n'}, (n.updatePeer terms.link.host id).pickup key
      (n.known terms.link.host).lastLocal (Bundle.budget terms.link.byteLimit) [] = (result, n') →
      n'.known terms.link.host = n.known terms.link.host := by
    intro result n' hpickup
    rw [Node.known_of_grows ((Node.grows_pickup _ _ _ _ _).of_snd hpickup)]
    exact n.known_updatePeer terms.link.host id
  rcases n.askForMail_cases terms.link key with ⟨e, n', hpickup, heq⟩ | ⟨outgoing, n', hpickup, heq⟩
  · rw [heq] at hg ⊢
    refine hf.next hg ?_ ?_ fun w hw => .inl (hothers hw)
    · show SettledLocal _ _ _ (n'.known terms.link.host).lastLocal
      rw [hknown hpickup, hlocal]
      exact hf.lastLocal.grows hf hg
    · show SettledRemote _ _ _ (n'.known terms.link.host).lastRemote
      rw [hknown hpickup, hremote]
      exact hf.lastRemote.grows hf hg
  · rw [heq] at hg ⊢
    have hlast := hf.lastLocal
    rw [SettledLocal, ← hlocal, ← hrouter] at hlast
    have htimely := hf.nodeTimely
    rw [← hrouter] at htimely
    have hready : Outgoing terms c outgoing := by
      have hsettled := Router.Settled.pickup (n := n.updatePeer terms.link.host id)
        (Bundle.budget_lt hlimit) htimely hlast hpickup
      rw [Outgoing, SettledLocal, ← hrouter]
      refine hsettled.mono fun e he => ?_
      rcases he with (hdone | hnone) | hholds
      · exact .inl hdone
      · exact hnone.elim
      · exact .inr ⟨key, hholds⟩
    have hkeptLocal := hf.lastLocal.grows hf hg
    have hkeptRemote := hf.lastRemote.grows hf hg
    rw [← hlocal] at hkeptLocal
    rw [← hremote] at hkeptRemote
    refine hf.next hg ?_ ?_ fun w hw => ?_
    · show SettledLocal _ _ _ (n'.known terms.link.host).lastLocal
      rw [hknown hpickup]
      exact hkeptLocal
    · show SettledRemote _ _ _ (n'.known terms.link.host).lastRemote
      rw [hknown hpickup]
      exact hkeptRemote
    · rcases List.mem_append.mp hw with hw | hw
      · exact .inl (hothers hw)
      · obtain rfl := List.mem_singleton.mp hw
        right
        refine ⟨hready.grows hf hg, ⟨(n.known terms.link.host).lastRemote, ?_, hkeptRemote⟩, ?_⟩
        · dsimp only
          rw [hrouter, hsettings, hf.routing, hf.channelFilter]
        · intro v b hv
          cases hv

/-! ### The host handles a call -/

theorem Faithful.handled (hf : Faithful terms c) (hlimit : terms.link.byteLimit < UInt64.size)
    {front rest : List PendingCall} {w : PendingCall} (hw : c.calls = front ++ w :: rest)
    (hg : Grows c (c.handled front w rest)) : Faithful terms (c.handled front w rest) := by
  have hmem : w ∈ c.calls := hw ▸ List.mem_append_right _ List.mem_cons_self
  have hsound := hf.calls w hmem
  refine hf.next hg (hf.lastLocal.grows hf hg) (hf.lastRemote.grows hf hg) fun w' hw' => ?_
  rcases List.mem_append.mp hw' with hw' | hw'
  · exact .inl (hw ▸ List.mem_append_left _ hw')
  rcases List.mem_cons.mp hw' with rfl | hw'
  · right
    have hsound' := hsound.grows hf hg
    unfold Sound at hsound hsound' ⊢
    dsimp only
    split
    · trivial
    · rename_i outgoing hstage
      rw [hstage] at hsound hsound'
      obtain ⟨hout, ⟨since, hcall, hsince⟩, _⟩ := hsound
      refine ⟨hsound'.1, hsound'.2.1, fun v b hv hb => ?_⟩
      obtain ⟨hresult, _⟩ := Response.answer_eq_ok (Option.some.inj hv)
      rw [hcall] at hresult
      obtain ⟨n', hpickup⟩ := Node.pickup_of_result hf.hostLimit hresult hb
      have hasked := UInt64.toNat_ofNat_of_lt' (Bundle.budget_lt hlimit)
      rw [hasked] at hpickup
      have hmax : min (Bundle.budget terms.link.byteLimit) (Bundle.budget terms.hostLimit) <
          UInt64.size := Nat.lt_of_le_of_lt (Nat.min_le_left _ _) (Bundle.budget_lt hlimit)
      have hsettled := Router.Settled.pickup hmax hf.hostTimely hsince hpickup
      have hready : Incoming terms c b := hsettled.mono fun e he => he.imp_left fun hdone =>
        hdone.elim id False.elim
      exact hready.grows hf hg
    · rename_i outgoing incoming hstage
      rw [hstage] at hsound hsound'
      refine ⟨hsound'.1, hsound'.2.1, hsound'.2.2.1, fun v hv => ?_⟩
      obtain ⟨_, herror⟩ := Response.answer_eq_ok (Option.some.inj hv)
      exact ⟨_, List.mem_append_right _ (List.mem_singleton_self _), herror⟩
  · exact .inl (hw ▸ List.mem_append_right _ (List.mem_cons_of_mem _ hw'))

/-! ### A round goes on -/

omit [Cryptography.Lawful]

/-- The bundle that is taken in moves the watermark of the host's mail. -/
theorem Faithful.takeIncoming (hf : Faithful terms c) {incoming : Bundle}
    (hin : Incoming terms c incoming) {report : ExchangeReport} {others : List PendingCall}
    (hothers : others ⊆ c.calls)
    (hg : Grows c (c.proceed (c.node.takeIncoming terms.link report incoming) others
      (if incoming.isEmpty then none else some incoming))) :
    Faithful terms (c.proceed (c.node.takeIncoming terms.link report incoming) others
      (if incoming.isEmpty then none else some incoming)) := by
  have hlocal := hf.lastLocal.grows hf hg
  have hremote := hf.lastRemote.grows hf hg
  have hnew := hin.grows hf hg
  rcases c.node.takeIncoming_cases terms.link report incoming with
    ⟨_, heq⟩ | ⟨_, e, n', hdropoff, heq⟩ | ⟨hsome, n', report', f, hdropoff, heq, hf'⟩
  · rw [heq] at hg hlocal hremote ⊢
    exact hf.next hg hlocal hremote fun w hw => .inl (hothers hw)
  · have hknown := Node.known_of_grows ((Node.grows_dropoff _ _).of_snd hdropoff) terms.link.host
    rw [heq] at hg hlocal hremote ⊢
    refine hf.next hg ?_ ?_ fun w hw => .inl (hothers hw)
    · show SettledLocal _ _ _ (n'.known terms.link.host).lastLocal
      rw [hknown]
      exact hlocal
    · show SettledRemote _ _ _ (n'.known terms.link.host).lastRemote
      rw [hknown]
      exact hremote
  · have hknown := Node.known_of_grows ((Node.grows_dropoff _ _).of_snd hdropoff) terms.link.host
    rw [heq] at hg hlocal hremote hnew ⊢
    refine hf.next hg ?_ ?_ fun w hw => .inl (hothers hw)
    · show SettledLocal _ _ _ ((n'.updatePeer terms.link.host f).known terms.link.host).lastLocal
      rw [Node.known_updatePeer, (hf' _).1, hknown]
      exact hlocal
    · show SettledRemote _ _ _ ((n'.updatePeer terms.link.host f).known terms.link.host).lastRemote
      rw [Node.known_updatePeer, (hf' _).2, hknown]
      refine hremote.later (hnew.mono fun e he => ?_)
      rcases he with hdone | ⟨_, entries, _, hmem, hread⟩
      · exact .inl hdone
      -- The turn has routed what the bundle holds, and has changed the books besides.
      · left
        have henvelopes := hread terms.own rfl
        have hrouted := Node.dropoff_of_envelopes (hf.routing ▸ henvelopes)
        obtain ⟨hcount, rfl⟩ := Prod.mk.inj (hdropoff.symm.trans hrouted)
        refine ⟨incoming, c.node.router, report', _, _, ?_, henvelopes, List.mem_map_of_mem hmem,
          rfl, Except.ok.inj hcount⟩
        refine List.mem_append_right _ (List.mem_map.mpr ⟨incoming, ?_, rfl⟩)
        rw [hsome]
        exact List.mem_singleton_self _

/-- The receipt of a bundle moves the watermark of the node's own mail. -/
theorem Faithful.acknowledge (hf : Faithful terms c) {outgoing : Bundle}
    (hout : Outgoing terms c outgoing) {response : Response}
    (hmem : .answered ⟨.dropoff, [.bundle outgoing]⟩ response ∈ c.record)
    (herror : response.error = "") (f : PeerInfo → PeerInfo)
    (hlocal : ∀ info, (f info).lastLocal = info.lastLocal.later outgoing.time)
    (hremote : ∀ info, (f info).lastRemote = info.lastRemote) {others : List PendingCall}
    (hothers : others ⊆ c.calls)
    (hg : Grows c { c with node := c.node.updatePeer terms.link.host f, calls := others }) :
    Faithful terms { c with node := c.node.updatePeer terms.link.host f, calls := others } := by
  refine hf.next hg ?_ ?_ fun w hw => .inl (hothers hw)
  · dsimp only
    rw [Node.known_updatePeer, hlocal]
    refine (hf.lastLocal.grows hf hg).later ((hout.grows hf hg).mono fun e he => ?_)
    rcases he with hdone | hholds
    · exact .inl hdone
    · exact .inl ⟨outgoing, response, hmem, herror, hholds⟩
  · dsimp only
    rw [Node.known_updatePeer, hremote]
    exact hf.lastRemote.grows hf hg

/-- A round that fails leaves everything as it is. -/
theorem Faithful.fail (hf : Faithful terms c) {e : SyncError} {others : List PendingCall}
    (hothers : others ⊆ c.calls) (hg : Grows c (c.proceed (.failed e, c.node) others none)) :
    Faithful terms (c.proceed (.failed e, c.node) others none) :=
  hf.next hg (hf.lastLocal.grows hf hg) (hf.lastRemote.grows hf hg) fun _ hw => .inl (hothers hw)

/-- The bundle of the host's is there. -/
theorem Faithful.resume_incoming (hf : Faithful terms c) {outgoing : Bundle} {v : Value}
    (hout : Outgoing terms c outgoing)
    (hready : ∀ b, v.toBundle = .ok b → Incoming terms c b) {others : List PendingCall}
    (hothers : others ⊆ c.calls)
    (hg : Grows c (c.proceed (c.node.resumeRound terms.link (.incoming outgoing) (.ok v)) others
      ((RoundStage.incoming outgoing).takesIn? (.ok v)))) :
    Faithful terms (c.proceed (c.node.resumeRound terms.link (.incoming outgoing) (.ok v)) others
      ((RoundStage.incoming outgoing).takesIn? (.ok v))) := by
  cases hb : v.toBundle with
  | error e =>
    have heq : c.node.resumeRound terms.link (.incoming outgoing) (.ok v) =
        (.failed (.codec e), c.node) := by
      rw [Node.resumeRound, hb]
    have htakes : (RoundStage.incoming outgoing).takesIn? (.ok v) = none := by
      rw [RoundStage.takesIn?, hb]
    rw [heq, htakes] at hg ⊢
    exact hf.fail hothers hg
  | ok incoming =>
    have hin := hready incoming hb
    have heq : c.node.resumeRound terms.link (.incoming outgoing) (.ok v) =
        c.node.handOver terms.link outgoing incoming := by
      rw [Node.resumeRound, hb]
    cases hempty : outgoing.isEmpty with
    | true =>
      -- There is nothing to hand over, so the host's mail is taken in at once.
      have htakes : (RoundStage.incoming outgoing).takesIn? (.ok v) =
          if incoming.isEmpty then none else some incoming := by
        rw [RoundStage.takesIn?, hb, hempty]
        dsimp only
        cases incoming.isEmpty <;> rfl
      have hdirect : c.node.handOver terms.link outgoing incoming =
          c.node.takeIncoming terms.link {} incoming := by
        rw [Node.handOver, if_pos hempty]
      rw [heq, htakes, hdirect] at hg ⊢
      exact hf.takeIncoming hin hothers hg
    | false =>
      have htakes : (RoundStage.incoming outgoing).takesIn? (.ok v) = none := by
        rw [RoundStage.takesIn?, hb, hempty]
        rfl
      have hcall : c.node.handOver terms.link outgoing incoming =
          (.call ⟨.dropoff, [.bundle outgoing]⟩ (.receipt outgoing incoming), c.node) := by
        rw [Node.handOver, if_neg (by rw [hempty]; exact Bool.false_ne_true)]
      rw [heq, htakes, hcall] at hg ⊢
      refine hf.next hg (hf.lastLocal.grows hf hg) (hf.lastRemote.grows hf hg) fun w hw => ?_
      rcases List.mem_append.mp hw with hw | hw
      · exact .inl (hothers hw)
      · obtain rfl := List.mem_singleton.mp hw
        right
        refine ⟨hout.grows hf hg, hin.grows hf hg, rfl, fun v' hv' => ?_⟩
        cases hv'

/-- The receipt for the bundle of the node's is there. First the watermark of the node's own mail
moves, and then the host's mail is taken in. -/
theorem Faithful.resume_receipt (hf : Faithful terms c) {outgoing incoming : Bundle}
    (hout : Outgoing terms c outgoing) (hin : Incoming terms c incoming) {response : Response}
    (hmem : .answered ⟨.dropoff, [.bundle outgoing]⟩ response ∈ c.record)
    (herror : response.error = "") {v : Value} {others : List PendingCall}
    (hothers : others ⊆ c.calls)
    (hg : Grows c (c.proceed (c.node.resumeRound terms.link (.receipt outgoing incoming) (.ok v))
      others ((RoundStage.receipt outgoing incoming).takesIn? (.ok v)))) :
    Faithful terms (c.proceed
      (c.node.resumeRound terms.link (.receipt outgoing incoming) (.ok v)) others
      ((RoundStage.receipt outgoing incoming).takesIn? (.ok v))) := by
  let f : PeerInfo → PeerInfo := fun info =>
    { info with
      lastLocal := info.lastLocal.later outgoing.time
      sentBytes := info.sentBytes + outgoing.data.length }
  let c₁ : Correspondence :=
    { c with node := c.node.updatePeer terms.link.host f, calls := others }
  have hsame : c.proceed (c.node.resumeRound terms.link (.receipt outgoing incoming) (.ok v))
      others ((RoundStage.receipt outgoing incoming).takesIn? (.ok v)) =
      c₁.proceed (c₁.node.takeIncoming terms.link { sentBytes := outgoing.data.length } incoming)
        others (if incoming.isEmpty then none else some incoming) := rfl
  rw [hsame] at hg ⊢
  have hg₁ : Grows c c₁ := ⟨.refl _, rfl, .refl _, List.Subset.refl _,
    Time.ne_last_of_le hg.node.stamped hg.nodeClock,
    Time.ne_last_of_le hg.host.router.stamped hg.hostClock⟩
  have hf₁ : Faithful terms c₁ :=
    hf.acknowledge hout hmem herror f (fun _ => rfl) (fun _ => rfl) hothers hg₁
  exact hf₁.takeIncoming (hin.grows hf hg₁) (List.Subset.refl _)
    ⟨hg.node, hg.settings, hg.host, hg.record, hg.nodeClock, hg.hostClock⟩

variable [Cryptography.Lawful]

/-- A round that has learned the key of the host. -/
theorem Faithful.learn (hf : Faithful terms c) (hlimit : terms.link.byteLimit < UInt64.size)
    (key : PublicKey) {others : List PendingCall} (hothers : others ⊆ c.calls)
    (hg : Grows c (c.proceed ((c.node.updatePeer terms.link.host fun info =>
      { info with routingKey := some key }).askForMail terms.link key) others none)) :
    Faithful terms (c.proceed ((c.node.updatePeer terms.link.host fun info =>
      { info with routingKey := some key }).askForMail terms.link key) others none) := by
  refine hf.ask hlimit (c.node.updatePeer terms.link.host _) rfl rfl ?_ ?_ hothers hg
  · rw [Node.known_updatePeer]
  · rw [Node.known_updatePeer]

/-- A round begins. -/
theorem Faithful.begin (hf : Faithful terms c) (hlimit : terms.link.byteLimit < UInt64.size)
    (given : Option PublicKey)
    (hg : Grows c (c.proceed (c.node.beginRound terms.link given) c.calls none)) :
    Faithful terms (c.proceed (c.node.beginRound terms.link given) c.calls none) := by
  cases given with
  | some key =>
    rw [Node.beginRound] at hg ⊢
    exact hf.learn hlimit key (List.Subset.refl _) hg
  | none =>
    cases hkey : (c.node.peerInfo? terms.link.host).bind PeerInfo.routingKey with
    | some key =>
      have heq : c.node.beginRound terms.link none = c.node.askForMail terms.link key := by
        rw [Node.beginRound, hkey]
      rw [heq] at hg ⊢
      exact hf.ask hlimit c.node rfl rfl rfl rfl (List.Subset.refl _) hg
    | none =>
      have heq : c.node.beginRound terms.link none = (.call ⟨.id, []⟩ .key, c.node) := by
        rw [Node.beginRound, hkey]
      rw [heq] at hg ⊢
      refine hf.next hg (hf.lastLocal.grows hf hg) (hf.lastRemote.grows hf hg) fun w hw => ?_
      rcases List.mem_append.mp hw with hw | hw
      · exact .inl hw
      · obtain rfl := List.mem_singleton.mp hw
        exact .inr trivial

/-- The key of the host is there. -/
theorem Faithful.resume_key (hf : Faithful terms c) (hlimit : terms.link.byteLimit < UInt64.size)
    {v : Value} {others : List PendingCall} (hothers : others ⊆ c.calls)
    (hg : Grows c (c.proceed (c.node.resumeRound terms.link .key (.ok v)) others none)) :
    Faithful terms (c.proceed (c.node.resumeRound terms.link .key (.ok v)) others none) := by
  cases hv : v.toPublicKey with
  | error e =>
    have heq : c.node.resumeRound terms.link .key (.ok v) = (.failed (.codec e), c.node) := by
      rw [Node.resumeRound, hv]
    rw [heq] at hg ⊢
    exact hf.fail hothers hg
  | ok key =>
    have heq : c.node.resumeRound terms.link .key (.ok v) =
        (c.node.updatePeer terms.link.host fun info =>
          { info with routingKey := some key }).askForMail terms.link key := by
      rw [Node.resumeRound, hv]
    rw [heq] at hg ⊢
    exact hf.learn hlimit key hothers hg

/-- A round goes on with an answer. -/
theorem Faithful.resume (hf : Faithful terms c) (hlimit : terms.link.byteLimit < UInt64.size)
    {front rest : List PendingCall} {w : PendingCall} {answer : Except TransportError Value}
    (hw : c.calls = front ++ w :: rest)
    (hanswer : w.answer = some answer ∨ ∃ e, answer = .error e)
    (hg : Grows c (c.proceed (c.node.resumeRound terms.link w.stage answer) (front ++ rest)
      (w.stage.takesIn? answer))) :
    Faithful terms (c.proceed (c.node.resumeRound terms.link w.stage answer) (front ++ rest)
      (w.stage.takesIn? answer)) := by
  have hmem : w ∈ c.calls := hw ▸ List.mem_append_right _ List.mem_cons_self
  have hothers : front ++ rest ⊆ c.calls := by
    rw [hw]
    exact ((List.sublist_cons_self w rest).append_left front).subset
  have hsound := hf.calls w hmem
  obtain ⟨call, stage, there⟩ := w
  cases answer with
  | error e => exact hf.fail hothers hg
  | ok v =>
    have hthere : there = some (.ok v) := hanswer.resolve_right fun ⟨e, he⟩ => by cases he
    cases stage with
    | key => exact hf.resume_key hlimit hothers hg
    | incoming outgoing =>
      obtain ⟨hout, _, hready⟩ := hsound
      exact hf.resume_incoming hout (fun b hb => hready v b hthere hb) hothers hg
    | receipt outgoing incoming =>
      obtain ⟨hout, hin, hcall, hacknowledged⟩ := hsound
      obtain ⟨response, hrecord, herror⟩ := hacknowledged v hthere
      obtain rfl : call = ⟨.dropoff, [.bundle outgoing]⟩ := hcall
      exact hf.resume_receipt hout hin hrecord herror hothers hg

/-- **What may happen preserves the invariant**, as long as the clocks have not run out. -/
theorem Faithful.step (hf : Faithful terms c) (hlimit : terms.link.byteLimit < UInt64.size)
    (hstep : Step terms.link c c') (hn : c'.node.router.clock.stamped ≠ Time.last)
    (hh : c'.host.router.clock.stamped ≠ Time.last) : Faithful terms c' := by
  obtain ⟨hnode, hhost, hrecord⟩ := hstep.advances
  have hg : Grows c c' := ⟨hnode.router, hnode.settings, hhost, hrecord, hn, hh⟩
  cases hstep with
  | node a =>
    have hknown := Node.known_of_grows (a.grows_act c.node) terms.link.host
    refine hf.next hg ?_ ?_ fun w hw => .inl hw
    · dsimp only
      rw [hknown]
      exact hf.lastLocal.grows hf hg
    · dsimp only
      rw [hknown]
      exact hf.lastRemote.grows hf hg
  | host a =>
    exact hf.next hg (hf.lastLocal.grows hf hg) (hf.lastRemote.grows hf hg) fun w hw => .inl hw
  | begin given => exact hf.begin hlimit given hg
  | handle hw hnew => exact hf.handled hlimit hw hg
  | resume hw hanswer => exact hf.resume hlimit hw hanswer hg

omit [Cryptography.Lawful] in
/-- In a whole run the node moves forward and the host grows. -/
theorem Run.advances {link : RoundLink} (h : Run link c c') :
    c.node.Advances link.host c'.node ∧ c.host.Grows c'.host := by
  induction h with
  | refl => exact ⟨.refl _, .refl _⟩
  | tail _ hstep ih =>
    obtain ⟨hnode, hhost, _⟩ := hstep.advances
    exact ⟨ih.1.trans hnode, ih.2.trans hhost⟩

/-- **What a run preserves.** -/
theorem Faithful.run (hf : Faithful terms c) (hlimit : terms.link.byteLimit < UInt64.size)
    (hrun : Run terms.link c c') (hn : c'.node.router.clock.stamped ≠ Time.last)
    (hh : c'.host.router.clock.stamped ≠ Time.last) : Faithful terms c' := by
  induction hrun with
  | refl => exact hf
  | tail _ hstep ih =>
    obtain ⟨hnode, hhost, _⟩ := hstep.advances
    exact (ih (Time.ne_last_of_le hnode.router.stamped hn)
      (Time.ne_last_of_le hhost.router.stamped hh)).step hlimit hstep hn hh

omit [Cryptography.Lawful] in
/-- A node that has exchanged nothing with a host. -/
theorem faithful_start {node host : Node} (hrouting : node.router.identity.routing = terms.own)
    (hfilter : node.settings.sync.channelFilter = terms.channels)
    (hhost : host.transports.byteLimit = some terms.hostLimit)
    (hnodeTimely : node.router.Timely) (hhostTimely : host.router.Timely)
    (hlocal : (node.known terms.link.host).lastLocal = 0)
    (hremote : (node.known terms.link.host).lastRemote = 0) :
    Faithful terms ⟨node, host, [], []⟩ where
  routing := hrouting
  channelFilter := hfilter
  hostLimit := hhost
  nodeTimely := hnodeTimely
  hostTimely := hhostTimely
  lastLocal := by
    dsimp only
    rw [hlocal]
    exact Router.settled_zero hnodeTimely _ _ _
  lastRemote := by
    dsimp only
    rw [hremote]
    exact Router.settled_zero hhostTimely _ _ _
  calls := List.forall_mem_nil _

/-- **No update is lost.** A node that has exchanged nothing with a host begins rounds with it at
will, of which any call may fail before or after the host has handled it, while both go on
sending, routing and serving. As long as the clocks have not run to the last time there is, the
watermarks of the node only move forward; every entry of its outbox up to `lastLocal` that fits a
batch was in a bundle that the host acknowledged; and every entry of the host's outbox up to
`lastRemote` that stands in a channel the node asks for and fits a batch of both was routed by the
node from a bundle. What the record says of this, the host has answered and the node has done in
steps of the run. -/
theorem no_lost_update {link : RoundLink} (hlimit : link.byteLimit < UInt64.size)
    {node host : Node} {hostLimit : Nat} (hhost : host.transports.byteLimit = some hostLimit)
    (hnodeTimely : node.router.Timely) (hhostTimely : host.router.Timely)
    (hlocal : (node.known link.host).lastLocal = 0)
    (hremote : (node.known link.host).lastRemote = 0) {c c' : Correspondence}
    (hbefore : Run link ⟨node, host, [], []⟩ c) (hafter : Run link c c')
    (hn : c'.node.router.clock.stamped ≠ Time.last)
    (hh : c'.host.router.clock.stamped ≠ Time.last) :
    ((c.node.known link.host).lastLocal ≤ (c'.node.known link.host).lastLocal ∧
      (c.node.known link.host).lastRemote ≤ (c'.node.known link.host).lastRemote) ∧
    (∀ e ∈ c'.node.backend.store.outbox, e.time ≤ (c'.node.known link.host).lastLocal →
      Varint.length e.data.length + e.data.length ≤ Bundle.budget link.byteLimit - 11 →
        Acknowledged c'.record e) ∧
    (∀ e ∈ c'.host.backend.store.outbox, e.time ≤ (c'.node.known link.host).lastRemote →
      (node.settings.sync.channelFilter = [] ∨ e.channel ∈ node.settings.sync.channelFilter) →
      Varint.length e.data.length + e.data.length ≤
        min (Bundle.budget link.byteLimit) (Bundle.budget hostLimit) - 11 →
          TakenIn c'.record c'.node.router.identity.routing e) ∧
    ∀ notice ∈ c'.record, ∃ c₁ c₂, Run link ⟨node, host, [], []⟩ c₁ ∧ Step link c₁ c₂ ∧
      Run link c₂ c' ∧ notice.Tells link c₁ c₂ := by
  let terms : Terms :=
    ⟨link, node.router.identity.routing, node.settings.sync.channelFilter, hostLimit⟩
  have hstart : Faithful terms ⟨node, host, [], []⟩ :=
    faithful_start rfl rfl hhost hnodeTimely hhostTimely hlocal hremote
  have hf : Faithful terms c' := hstart.run hlimit (hbefore.trans hafter) hn hh
  have hadvances := (Run.advances hafter).1
  refine ⟨⟨hadvances.lastLocal, hadvances.lastRemote⟩, fun e he ht hcost => ?_,
    fun e he ht hchannel hcost => ?_, fun notice hnotice => ?_⟩
  · exact (hf.lastLocal.all e he ht (.inl rfl) hcost).elim id False.elim
  · rw [hf.routing]
    exact (hf.lastRemote.all e he ht hchannel hcost).elim id False.elim
  · exact (Run.tells (hbefore.trans hafter) hnotice).resolve_left List.not_mem_nil

omit [Cryptography] [Cryptography.Lawful] in
/-- A round that nothing disturbs hands over a letter in each direction, and the node opens the one
that it gets. -/
theorem no_lost_update_undisturbed :
    letI := Cryptography.transparent
    let link : RoundLink := ⟨"b", 4096⟩
    let own : Keypair := ⟨.chacha, Key.zero⟩
    let letter : Bytes := 0 :: SealedBox.close own.publicKey Key.zero [8]
    let node := Node.keeping own 4096 [⟨"", [7], 5⟩]
    let host := Node.keeping ⟨.aes, Key.zero⟩ 4096 [⟨"", letter, 4⟩]
    let begun := proceed ⟨node, host, [], []⟩ (node.beginRound link none) [] none
    let ended := (attend link)^[6] begun
    ((ended.node.known "b").lastLocal = 5 ∧ (ended.node.known "b").lastRemote = 4 ∧
      ended.node.router.queue.waiting = [⟨.content, none, [8]⟩]) ∧
    ((begun.node.known "b").lastLocal ≤ (ended.node.known "b").lastLocal ∧
      (begun.node.known "b").lastRemote ≤ (ended.node.known "b").lastRemote) ∧
    (∀ e ∈ ended.node.backend.store.outbox, e.time ≤ (ended.node.known "b").lastLocal →
      Varint.length e.data.length + e.data.length ≤ Bundle.budget 4096 - 11 →
        Acknowledged ended.record e) ∧
    (∀ e ∈ ended.host.backend.store.outbox, e.time ≤ (ended.node.known "b").lastRemote →
      (node.settings.sync.channelFilter = [] ∨ e.channel ∈ node.settings.sync.channelFilter) →
      Varint.length e.data.length + e.data.length ≤
        min (Bundle.budget 4096) (Bundle.budget 4096) - 11 →
          TakenIn ended.record ended.node.router.identity.routing e) ∧
    ∀ notice ∈ ended.record, ∃ c₁ c₂, Run link ⟨node, host, [], []⟩ c₁ ∧ Step link c₁ c₂ ∧
      Run link c₂ ended ∧ notice.Tells link c₁ c₂ := by
  let := Cryptography.transparent
  have := Cryptography.lawful_transparent
  intro link own letter node host begun ended
  have hended : ((ended.node.known "b").lastLocal = 5 ∧ (ended.node.known "b").lastRemote = 4 ∧
        ended.node.router.queue.waiting = [⟨.content, none, [8]⟩]) ∧
      ended.node.router.clock.stamped ≠ Time.last ∧
      ended.host.router.clock.stamped ≠ Time.last := by decide +kernel +revert
  obtain ⟨hwatermarks, hn, hh⟩ := hended
  have hnode : node.router.Timely := ⟨by decide, by decide, by decide, by decide⟩
  have hhost : host.router.Timely := ⟨by decide, by decide, by decide, by decide⟩
  have hbefore : Run link ⟨node, host, [], []⟩ begun := .single (.begin _ none)
  have hafter : Run link begun ended := run_attends link 6 begun
  have hlimit : link.byteLimit < UInt64.size := by decide
  have hhostLimit : host.transports.byteLimit = some 4096 := rfl
  have hall := no_lost_update hlimit hhostLimit hnode hhost rfl rfl hbefore hafter hn hh
  exact ⟨hwatermarks, hall⟩

end Correspondence

end Courier
