import Mathlib
import Courier.Proofs.Exchange.Conversation
import Courier.Proofs.Polling.Pass
import Courier.Proofs.SealedBox.Transparent

/-!
## Counting failures

Polling keeps one number for each address and no history. What the number stands for is told by the
record of all that has happened: it is the number of failed rounds with that address since the last
successful one, or since the policy last started over if that was later. Several peers may share an
address, and the number may change within a pass; what a peer's turn comes to is always decided by the
number as it is then.

* `Event`, `failuresSince`: the record, and the failures that count in it.
* `Unfolds`: the turns of some peers, told by the record alone.
* `Recorded`: the record of any number of passes.
* `Agrees.visit`, `Agrees.pass`, `Agrees.of_recorded`: a turn, a pass and any number of passes keep the
  numbers in agreement with the record.
* `failures_counted`: what that comes to.
-/

namespace Courier

namespace PollPolicy

/-! ### The record -/

/-- What can happen in a pass. -/
inductive Event
  /-- A round was had with a peer. -/
  | tried (peer : Peer) (succeeded : Bool)
  | skipped (peer : Peer)
  /-- The policy started over. -/
  | startedOver

namespace Event

/-- After this no earlier failure of an address counts. -/
def clears (uri : String) : Event → Bool
  | tried peer succeeded => succeeded && peer.uri == uri
  | skipped _ => false
  | startedOver => true

/-- A round with an address failed. -/
def fails (uri : String) : Event → Bool
  | tried peer succeeded => !succeeded && peer.uri == uri
  | skipped _ => false
  | startedOver => false

def isTried : Event → Bool
  | tried _ _ => true
  | _ => false

def isSkipped : Event → Bool
  | skipped _ => true
  | _ => false

def isSuccess : Event → Bool
  | tried _ succeeded => succeeded
  | _ => false

end Event

/-- The number of failed rounds with an address since its last successful round, or since the policy
last started over if that was later. -/
def failuresSince (uri : String) (record : List Event) : Nat :=
  (record.rtakeWhile fun e => !e.clears uri).countP (Event.fails uri)

variable {uri : String} {record : List Event} {e : Event}

theorem failuresSince_of_clears (h : e.clears uri = true) :
    failuresSince uri (record ++ [e]) = 0 := by
  rw [failuresSince, List.rtakeWhile_concat_neg _ _ _ (by simp [h])]
  rfl

theorem failuresSince_of_not_clears (h : e.clears uri = false) :
    failuresSince uri (record ++ [e]) =
      failuresSince uri record + if e.fails uri then 1 else 0 := by
  rw [failuresSince, List.rtakeWhile_concat_pos _ _ _ (by simp [h]), List.countP_append,
    List.countP_singleton]
  rfl

/-- The numbers of a policy are those of a record, and none is past the ceiling. -/
structure Agrees (p : PollPolicy) (record : List Event) : Prop where
  count : ∀ uri, p.failureCount uri = failuresSince uri record
  le : ∀ uri, p.failureCount uri ≤ p.settings.retryCeiling

/-! ### A turn -/

theorem failureCount_count (p : PollPolicy) (uri : String) (succeeded : Bool) (other : String) :
    (p.count uri succeeded).failureCount other =
      if uri = other then (if succeeded then 0 else p.failureCount uri + 1)
      else p.failureCount other := by
  cases succeeded with
  | true =>
    show ((p.failures.erase uri).find? other).getD 0 = _
    rw [Table.find?_erase]
    split <;> rfl
  | false =>
    show ((p.failures.insert uri (p.failureCount uri + 1)).find? other).getD 0 = _
    rw [Table.find?_insert]
    split <;> rfl

/-- A round is had and counted. -/
theorem Agrees.count_tried {p : PollPolicy} (h : p.Agrees record) {peer : Peer}
    (hlt : p.failureCount peer.uri < p.settings.retryCeiling) (succeeded : Bool) :
    (p.count peer.uri succeeded).Agrees (record ++ [.tried peer succeeded]) := by
  refine ⟨fun uri => ?_, fun uri => ?_⟩
  · rw [failureCount_count]
    by_cases huri : peer.uri = uri
    · subst huri
      rw [if_pos rfl]
      cases succeeded with
      | true => rw [if_pos rfl, failuresSince_of_clears (by simp [Event.clears])]
      | false =>
        rw [failuresSince_of_not_clears (by simp [Event.clears]), ← h.count]
        simp [Event.fails]
    · have hother : (peer.uri == uri) = false := by simpa using huri
      rw [if_neg huri, failuresSince_of_not_clears (by simp [Event.clears, hother]), ← h.count]
      simp [Event.fails, hother]
  · rw [settings_count, failureCount_count]
    split
    · split
      · exact Nat.zero_le _
      · exact hlt
    · exact h.le uri

theorem Agrees.skipped {p : PollPolicy} (h : p.Agrees record) (peer : Peer) :
    p.Agrees (record ++ [.skipped peer]) :=
  ⟨fun uri => by rw [failuresSince_of_not_clears rfl, h.count]; rfl, h.le⟩

section

variable {σ : Type} {ts : Transports} {round : Transport → String → σ → Bool × σ}

/-- When so much is on record, a peer is to be tried: its address has failed fewer times than the
ceiling, and there is a transport for its scheme. -/
def IsDue (ceiling : Nat) (ts : Transports) (record : List Event) (peer : Peer) : Prop :=
  failuresSince peer.uri record < ceiling ∧ (ts.find? peer.scheme).isSome = true

/-- What comes of a peer's turn. The peer is tried if it is due by then, and skipped otherwise; a round
changes the world and comes out as it does there. -/
inductive TakesTurn (ceiling : Nat) (ts : Transports) (round : Transport → String → σ → Bool × σ)
    (record : List Event) (world : σ) (peer : Peer) : Event → σ → Prop
  | skip (hnot : ¬IsDue ceiling ts record peer) :
      TakesTurn ceiling ts round record world peer (.skipped peer) world
  | attempt {t : Transport} (hlt : failuresSince peer.uri record < ceiling)
      (ht : ts.find? peer.scheme = some t) :
      TakesTurn ceiling ts round record world peer (.tried peer (round t peer.address world).1)
        (round t peer.address world).2

/-- What comes of the turns of some peers, one after the other. -/
inductive Unfolds (ceiling : Nat) (ts : Transports) (round : Transport → String → σ → Bool × σ) :
    (record : List Event) → (world : σ) → List Peer → List Event → σ → Prop
  | done (record : List Event) (world : σ) : Unfolds ceiling ts round record world [] [] world
  | turn {record events : List Event} {world world' world'' : σ} {peer : Peer} {rest : List Peer}
      {e : Event} (h : TakesTurn ceiling ts round record world peer e world')
      (hrest : Unfolds ceiling ts round (record ++ [e]) world' rest events world'') :
      Unfolds ceiling ts round record world (peer :: rest) (e :: events) world''

/-- What becomes of a peer is decided at its turn. -/
theorem TakesTurn.decided {ceiling : Nat} {world world' : σ} {peer : Peer}
    (h : TakesTurn ceiling ts round record world peer e world') :
    ((∃ succeeded, e = .tried peer succeeded) ↔ IsDue ceiling ts record peer) ∧
      (e = .skipped peer ↔ ¬IsDue ceiling ts record peer) := by
  cases h with
  | skip hnot => exact ⟨⟨nofun, fun hdue => absurd hdue hnot⟩, ⟨fun _ => hnot, fun _ => rfl⟩⟩
  | attempt hlt ht =>
    have hdue : IsDue ceiling ts record peer := ⟨hlt, by rw [ht]; rfl⟩
    exact ⟨⟨fun _ => hdue, fun _ => ⟨_, rfl⟩⟩, ⟨nofun, fun hnot => absurd hdue hnot⟩⟩

/-- The turn of the peer at some place, with what is on record before it. -/
theorem Unfolds.exists_takesTurn {ceiling : Nat} {world world' : σ} {peers : List Peer}
    {events : List Event} (h : Unfolds ceiling ts round record world peers events world') {k : Nat}
    {peer : Peer} (hk : peers[k]? = some peer) :
    ∃ e before after, events[k]? = some e ∧
      TakesTurn ceiling ts round (record ++ events.take k) before peer e after := by
  induction h generalizing k with
  | done record world => cases hk
  | turn h hrest ih =>
    cases k with
    | zero =>
      obtain rfl := Option.some.inj hk
      rw [List.take_zero, List.append_nil]
      exact ⟨_, _, _, rfl, h⟩
    | succ k =>
      obtain ⟨e, before, after, he, hturn⟩ := ih hk
      rw [List.take_succ_cons, List.append_cons]
      exact ⟨e, before, after, he, hturn⟩

theorem Unfolds.decided {ceiling : Nat} {world world' : σ} {peers : List Peer}
    {events : List Event} (h : Unfolds ceiling ts round record world peers events world') (k : Nat)
    (peer : Peer) (hk : peers[k]? = some peer) :
    ((∃ succeeded, events[k]? = some (.tried peer succeeded)) ↔
      IsDue ceiling ts (record ++ events.take k) peer) ∧
    (events[k]? = some (.skipped peer) ↔ ¬IsDue ceiling ts (record ++ events.take k) peer) := by
  obtain ⟨e, before, after, he, hturn⟩ := h.exists_takesTurn hk
  simp only [he, Option.some.injEq]
  exact hturn.decided

/-- A report with what more has happened. -/
def addTo (report : PassReport) (events : List Event) : PassReport :=
  { report with
    attempted := report.attempted + events.countP Event.isTried
    succeeded := report.succeeded + events.countP Event.isSuccess
    skipped := report.skipped + events.countP Event.isSkipped }

theorem addTo_cons (report : PassReport) (e : Event) (events : List Event) :
    addTo report (e :: events) = addTo (addTo report [e]) events := by
  simp only [addTo, List.countP_cons, List.countP_nil]
  congr 1 <;> omega

/-- **A turn goes as the record says**, and after it the numbers are those of the record. -/
theorem Agrees.visit {s : Pass σ} (h : s.policy.Agrees record) (ts : Transports)
    (round : Transport → String → σ → Bool × σ) (peer : Peer) :
    ∃ e, TakesTurn s.policy.settings.retryCeiling ts round record s.world peer e
        (visit ts round s peer).world ∧
      (visit ts round s peer).report = addTo s.report [e] ∧
      (visit ts round s peer).policy.Agrees (record ++ [e]) := by
  rcases visit_cases ts round s peer with ⟨hnot, hvisit⟩ | ⟨t, hlt, ht, hvisit⟩
  · rw [hvisit]
    rw [h.count] at hnot
    exact ⟨.skipped peer, .skip hnot, rfl, h.skipped peer⟩
  · rw [hvisit]
    refine ⟨.tried peer (round t peer.address s.world).1, .attempt ?_ ht, ?_,
      h.count_tried hlt _⟩
    · rwa [← h.count]
    · simp only [addTo, List.countP_singleton]
      rfl

/-- **The turns of some peers go as the record says**, and after each of them the numbers are those of
the record. -/
theorem Agrees.visitAll {s : Pass σ} (h : s.policy.Agrees record) (ts : Transports)
    (round : Transport → String → σ → Bool × σ) (peers : List Peer) :
    ∃ events, Unfolds s.policy.settings.retryCeiling ts round record s.world peers events
        (visitAll ts round s peers).world ∧
      (visitAll ts round s peers).report = addTo s.report events ∧
      ∀ k, (visitAll ts round s (peers.take k)).policy.Agrees (record ++ events.take k) := by
  induction peers generalizing s record with
  | nil =>
    refine ⟨[], .done _ _, rfl, fun k => ?_⟩
    rw [List.take_nil, List.take_nil, List.append_nil]
    exact h
  | cons peer rest ih =>
    obtain ⟨e, hturn, hreport, hagrees⟩ := h.visit ts round peer
    obtain ⟨events, hrest, hreport', hall⟩ := ih hagrees
    rw [(visit_keeps ts round s peer).1] at hrest
    refine ⟨e :: events, .turn hturn hrest, ?_, fun k => ?_⟩
    · rw [addTo_cons, ← hreport]
      exact hreport'
    · cases k with
      | zero =>
        rw [List.take_zero, List.take_zero, List.append_nil]
        exact h
      | succ k =>
        rw [List.take_succ_cons, List.take_succ_cons, List.append_cons]
        exact hall k

/-! ### A pass -/

/-- When a pass has been had: what it was over and in which world, and how its rounds went. -/
structure Occasion (σ : Type) where
  transports : Transports
  round : Transport → String → σ → Bool × σ
  /-- The stored peers, if the store tells them. -/
  peers : Except StoreError (List Peer)
  world : σ

/-- A pass as it is had: none, if the store does not tell the peers. -/
def attend (p : PollPolicy) (o : Occasion σ) : Except StoreError PassReport × PollPolicy × σ :=
  match o.peers with
  | .error e => (.error e, p, o.world)
  | .ok peers =>
    let s := p.pass o.transports o.round peers o.world
    (.ok s.report, s.policy, s.world)

/-- The policy after some passes. -/
def after (p : PollPolicy) (occasions : List (Occasion σ)) : PollPolicy :=
  occasions.foldl (fun p o => (p.attend o).2.1) p

theorem after_concat (p : PollPolicy) (occasions : List (Occasion σ)) (o : Occasion σ) :
    p.after (occasions ++ [o]) = ((p.after occasions).attend o).2.1 := List.foldl_concat _ _ _ _

/-- What a pass puts on record besides the turns: that the policy has started over, if it has. -/
def closing (p : PollPolicy) (peers : List Peer) (events : List Event) : List Event :=
  if events.countP Event.isTried = 0 ∧ p.startsOver peers = true then [.startedOver] else []

/-- Which group has its turn next: the same if somebody was tried, otherwise the one behind it, and
behind the last the first if the settings say so. -/
def nextGroup (p : PollPolicy) (peers : List Peer) (events : List Event) : Nat :=
  if (p.currentGroup? peers).isSome = true ∧ events.countP Event.isTried = 0 then
    if p.group + 1 < (p.enabledGroups peers).length then p.group + 1
    else if p.settings.retryForever then 0
    else p.group
  else p.group

theorem Agrees.advance {p : PollPolicy} (h : p.Agrees record) (count : Nat) :
    (p.advance count).Agrees (record ++
      if ¬p.group + 1 < count ∧ p.settings.retryForever = true then [.startedOver] else []) := by
  unfold PollPolicy.advance
  by_cases hnext : p.group + 1 < count
  · rw [if_pos hnext, if_neg (fun h => h.1 hnext), List.append_nil]
    exact ⟨h.count, h.le⟩
  · rw [if_neg hnext]
    by_cases hforever : p.settings.retryForever = true
    · rw [if_pos hforever, if_pos ⟨hnext, hforever⟩]
      refine ⟨fun uri => ?_, fun uri => Nat.zero_le _⟩
      rw [failuresSince_of_clears rfl]
      rfl
    · rw [if_neg hforever, if_neg (fun h => hforever h.2), List.append_nil]
      exact h

/-- What a pass does, told by the record. -/
structure Accounts (p : PollPolicy) (o : Occasion σ) (peers : List Peer) (record events : List Event)
    (s : Pass σ) : Prop where
  /-- The peers that have a turn are tried or skipped as the record says. -/
  unfolds : Unfolds p.settings.retryCeiling o.transports o.round record o.world (p.turns peers)
    events s.world
  /-- A peer that has a turn is tried if it is due by then, and skipped otherwise. -/
  decided : ∀ (k : Nat) (peer : Peer), (p.turns peers)[k]? = some peer →
    ((∃ succeeded, events[k]? = some (.tried peer succeeded)) ↔
      IsDue p.settings.retryCeiling o.transports (record ++ events.take k) peer) ∧
    (events[k]? = some (.skipped peer) ↔
      ¬IsDue p.settings.retryCeiling o.transports (record ++ events.take k) peer)
  /-- The report counts what has happened. -/
  report : s.report = addTo { group := p.currentGroup? peers } events
  /-- After each turn the numbers are those of the record. -/
  during : ∀ k, (visitAll o.transports o.round ⟨p, { group := p.currentGroup? peers }, o.world⟩
    ((p.turns peers).take k)).policy.Agrees (record ++ events.take k)
  /-- The group is the next one, which is the first where the policy has started over. -/
  group : s.policy.group = p.nextGroup peers events
  after : s.policy.Agrees (record ++ events ++ p.closing peers events)

/-- **A pass goes as the record says.** -/
theorem Agrees.pass {p : PollPolicy} (h : p.Agrees record) (o : Occasion σ) (peers : List Peer) :
    ∃ events, p.Accounts o peers record events
      (p.pass o.transports o.round peers o.world) := by
  obtain ⟨events, hunfolds, hreport, hduring⟩ := Agrees.visitAll
    (s := ⟨p, { group := p.currentGroup? peers }, o.world⟩) h o.transports o.round (p.turns peers)
  obtain ⟨hsettings, hgroup⟩ := visitAll_keeps o.transports o.round
    ⟨p, { group := p.currentGroup? peers }, o.world⟩ (p.turns peers)
  -- So many turns are all of them.
  have hagrees := hduring ((p.turns peers).length + events.length)
  rw [List.take_of_length_le (Nat.le_add_right _ _), List.take_of_length_le (Nat.le_add_left _ _)]
    at hagrees
  rw [← takeTurns] at hunfolds hreport hagrees hsettings hgroup
  have htried : (p.takeTurns o.transports o.round peers o.world).report.attempted =
      events.countP Event.isTried := by
    rw [hreport]
    exact Nat.zero_add _
  refine ⟨events, ?_⟩
  rw [pass_eq, htried]
  split
  -- Nobody was tried, and the policy moves on; otherwise it stays.
  · rename_i hidle
    refine ⟨hunfolds, hunfolds.decided, hreport, hduring, ?_, ?_⟩
    · rw [nextGroup, if_pos hidle]
      dsimp only
      rw [group_advance, hsettings, hgroup]
    · have hadvance := hagrees.advance (p.enabledGroups peers).length
      rw [hsettings, hgroup] at hadvance
      simpa [closing, startsOver, hidle.1, hidle.2] using hadvance
  · rename_i hbusy
    have hnone : p.closing peers events = [] := by
      -- Only where there is a group does a policy start over.
      refine if_neg fun hclosing => hbusy ⟨?_, hclosing.1⟩
      have hstarts := hclosing.2
      simp only [startsOver, Bool.and_eq_true] at hstarts
      exact hstarts.1.1
    refine ⟨hunfolds, hunfolds.decided, hreport, hduring, ?_, ?_⟩
    · rw [nextGroup, if_neg hbusy]
      exact hgroup
    · rw [hnone, List.append_nil]
      exact hagrees

/-! ### Any number of passes -/

theorem settings_attend (p : PollPolicy) (o : Occasion σ) :
    (p.attend o).2.1.settings = p.settings := by
  unfold attend
  split
  · rfl
  · rename_i peers _
    have hkeeps : (p.takeTurns o.transports o.round peers o.world).policy.settings = p.settings :=
      (visitAll_keeps _ _ _ _).1
    dsimp only
    rw [pass_eq]
    split
    · exact (settings_advance _ _).trans hkeeps
    · exact hkeeps

/-- The record of any passes of a policy, each over whatever peers are stored at its time. -/
inductive Recorded (start : PollPolicy) : List (Occasion σ) → List Event → Prop
  | start : Recorded start [] []
  | refused {occasions : List (Occasion σ)} {record : List Event} {o : Occasion σ} {e : StoreError}
      (h : Recorded start occasions record) (ho : o.peers = .error e) :
      Recorded start (occasions ++ [o]) record
  | pass {occasions : List (Occasion σ)} {record events : List Event} {o : Occasion σ}
      {peers : List Peer} {world : σ} (h : Recorded start occasions record)
      (ho : o.peers = .ok peers)
      (hunfolds : Unfolds start.settings.retryCeiling o.transports o.round record o.world
        ((start.after occasions).turns peers) events world) :
      Recorded start (occasions ++ [o])
        (record ++ events ++ (start.after occasions).closing peers events)

/-- **After any passes the numbers are those of the record.** -/
theorem Agrees.of_recorded {start : PollPolicy} (h : start.Agrees []) (occasions : List (Occasion σ)) :
    ∃ record, Recorded start occasions record ∧ (start.after occasions).Agrees record ∧
      (start.after occasions).settings = start.settings := by
  induction occasions using List.reverseRecOn with
  | nil => exact ⟨[], .start, h, rfl⟩
  | append_singleton occasions o ih =>
    obtain ⟨record, hrecorded, hagrees, hsettings⟩ := ih
    rw [after_concat, settings_attend]
    unfold attend
    cases ho : o.peers with
    | error e => exact ⟨record, .refused hrecorded ho, hagrees, hsettings⟩
    | ok peers =>
      obtain ⟨events, haccounts⟩ := hagrees.pass o peers
      have hunfolds := haccounts.unfolds
      rw [hsettings] at hunfolds
      exact ⟨_, .pass hrecorded ho hunfolds, haccounts.after, hsettings⟩

end

end PollPolicy

/-! ### Passes in a network -/

namespace Network

variable [Cryptography]

/-- A pass over the peers that a host has stored, with rounds in the network. -/
def occasion (w : Network) (name : String) (h : Host) : PollPolicy.Occasion Network where
  transports := h.node.transports
  round t address w :=
    ((w.exchange name t address none).1.toOption.isSome, (w.exchange name t address none).2)
  peers := h.node.backend.list Peer
  world := w

theorem pollPass_eq (w : Network) (name : String) (h : Host) (p : PollPolicy) :
    w.pollPass name h p = p.attend (w.occasion name h) := by
  unfold pollPass PollPolicy.attend
  cases hpeers : h.node.backend.list Peer with
  | error e =>
    have ho : (w.occasion name h).peers = .error e := hpeers
    simp only [ho]
    rfl
  | ok peers =>
    have ho : (w.occasion name h).peers = .ok peers := hpeers
    simp only [ho]
    rfl

/-- A pass changes no records of any host. -/
theorem moves_pollPass (w : Network) (name : String) (h : Host) (p : PollPolicy) :
    w.Moves Node.Keeps (w.pollPass name h p).2.2 := by
  have hrefl := Moves.refl Node.Keeps.refl w
  rw [pollPass_eq]
  unfold PollPolicy.attend
  split
  · exact hrefl
  · rename_i peers _
    let s : PollPolicy.Pass Network := ⟨p, { group := p.currentGroup? peers }, w⟩
    have hround (t : Transport) (address : String) (w' : Network) (hw' : w.Moves Node.Keeps w') :
        w.Moves Node.Keeps ((w.occasion name h).round t address w').2 :=
      hw'.trans (fun _ _ _ => .trans) (w'.moves_exchange name t address none)
    have hworld := PollPolicy.world_visitAll (s := s) (w.occasion name h).transports hround hrefl
      (p.turns peers)
    dsimp only
    rw [PollPolicy.pass_eq]
    split
    · exact hworld
    · exact hworld

end Network

namespace PollPolicy

/-- **Failures are counted as they happen.** For all settings and any passes, over whatever peers are
stored at the time of each and with whatever outcome of every round: the number of an address is that
of its failed rounds since its last successful one or since the policy last started over, and never
exceeds the ceiling. In the next pass every enabled peer of the current group is tried exactly if at its
turn that number is below the ceiling and there is a transport for its scheme, and is counted as
skipped otherwise; all other peers are left alone. And no pass of a host changes the peers that it or
any other host has stored. -/
theorem failures_counted [Cryptography] (settings : SyncSettings) (flushed : Nat) :
    (∀ {σ : Type} (occasions : List (Occasion σ)),
      let start : PollPolicy := { settings := settings, flushed := flushed }
      let p := start.after occasions
      ∃ record, Recorded start occasions record ∧
        (∀ uri, p.failureCount uri = failuresSince uri record ∧
          p.failureCount uri ≤ settings.retryCeiling) ∧
        ∀ (o : Occasion σ) (peers : List Peer), o.peers = .ok peers →
          (∀ peer, peer ∈ p.turns peers ↔ peer ∈ peers ∧ peer.enabled = true ∧
            p.currentGroup? peers = some peer.group) ∧
          ∃ events s, p.attend o = (.ok s.report, s.policy, s.world) ∧
            p.Accounts o peers record events s) ∧
    ∀ (w : Network) (name : String) (h : Host) (p : PollPolicy),
      w.pollPass name h p = p.attend (w.occasion name h) ∧
      ∀ other d, w.hosts.find? other = some d →
        ∃ d', (w.pollPass name h p).2.2.hosts.find? other = some d' ∧
          d'.node.backend.store.peers = d.node.backend.store.peers := by
  refine ⟨fun {σ} occasions => ?_, fun w name h p => ⟨w.pollPass_eq name h p, fun other d hd => ?_⟩⟩
  · intro start p
    have hstart : start.Agrees [] := ⟨fun _ => rfl, fun _ => Nat.zero_le _⟩
    obtain ⟨record, hrecorded, hagrees, hsettings⟩ := hstart.of_recorded occasions
    refine ⟨record, hrecorded, fun uri => ⟨hagrees.count uri, ?_⟩, fun o peers ho => ⟨?_, ?_⟩⟩
    · have hle := hagrees.le uri
      rwa [hsettings] at hle
    · exact fun peer => mem_turns
    · obtain ⟨events, haccounts⟩ := hagrees.pass o peers
      refine ⟨events, _, ?_, haccounts⟩
      rw [attend, ho]
  · obtain ⟨d', hd', hkeeps⟩ := w.moves_pollPass name h p other d hd
    exact ⟨d', hd', hkeeps.peers⟩

/-- A peer that nobody answers at is tried once, and skipped in the next pass. -/
theorem failures_counted_silent :
    letI := Cryptography.transparent
    let start : PollPolicy := { settings := { retryCeiling := 1 }, flushed := 0 }
    let peer : Peer := ⟨"b", true, "mem://b", "home"⟩
    let o : Occasion Unit :=
      { transports := .ofList [("mem", ⟨"mem", 4096⟩)]
        round := fun _ _ world => (false, world)
        peers := .ok [peer]
        world := () }
    let p := start.after [o]
    let client : Host := { node := .keeping ⟨.chacha, Key.zero⟩ 4096 [], registry := {} }
    (∃ record events s, Recorded start [o] record ∧ failuresSince "mem://b" record = 1 ∧
      p.attend o = (.ok s.report, s.policy, s.world) ∧ p.Accounts o [peer] record events s ∧
      events[0]? = some (.skipped peer)) ∧
    ∃ d', ((Network.pair 4096 4096 []).pollPass "client" client p).2.2.hosts.find? "client" =
        some d' ∧
      d'.node.backend.store.peers = client.node.backend.store.peers := by
  let := Cryptography.transparent
  intro start peer o p client
  obtain ⟨hpasses, hnetwork⟩ := failures_counted { retryCeiling := 1 } 0
  constructor
  · obtain ⟨record, hrecorded, hcount, hnext⟩ := hpasses [o]
    obtain ⟨hturns, events, s, hattend, haccounts⟩ := hnext o [peer] rfl
    have hnumber : p.failureCount "mem://b" = 1 := by decide +kernel
    have hfailures : failuresSince "mem://b" record = 1 := (hcount _).1.symm.trans hnumber
    have hceiling : p.settings.retryCeiling = 1 := by decide +kernel
    have hfirst : (p.turns [peer])[0]? = some peer := by decide +kernel
    refine ⟨record, events, s, hrecorded, hfailures, hattend, haccounts, ?_⟩
    refine (haccounts.decided 0 peer hfirst).2.mpr fun hdue => ?_
    have hlt := hdue.1
    rw [List.take_zero, List.append_nil, hfailures, hceiling] at hlt
    exact Nat.lt_irrefl 1 hlt
  · exact (hnetwork _ "client" client p).2 "client" client (Network.find?_pair_client _ _ _)

end PollPolicy

end Courier
