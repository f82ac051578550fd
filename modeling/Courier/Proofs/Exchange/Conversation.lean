import Mathlib
import Courier.Proofs.Exchange.Correspondence
import Courier.Proofs.Exchange.FrameLimits
import Courier.Proofs.Exchange.Transparency
import Courier.Proofs.Node.Serving

/-!
## The conversation of a round

A round is a conversation: it makes a call, waits for the answer, and goes on to the next call or to
its end. What it hears may be anything, a value or an error of any kind, and between two calls the
node may do other things. Where the calls go through a network, that answers them all to the end, and
on the way no host goes missing and none of them loses or gains a record.

* `Conversation`: the calls of a round and the answers to them, up to some turn.
* `Network.Moves`: what happens to the nodes of a network.
* `Network.finishRound_induction`: a round is carried on call by call.
* `Network.converses_exchange`: a round in a network is a conversation that has come to its end.
-/

namespace Courier

variable [Cryptography]

/-! ### Conversations -/

/-- Calls with the answers to them. -/
abbrev Transcript := List (Call × Except TransportError Value)

/-- How a round of a node has come to some turn: the calls up to there with the answers to them.
Between two calls the node may do anything that leaves alone what it knows about its peers. -/
inductive Conversation (link : RoundLink) (given : Option PublicKey) (start : Node) :
    Transcript → Turn → Node → Prop
  | begin : Conversation link given start [] (start.beginRound link given).1
      (start.beginRound link given).2
  | resume {heard : Transcript} {call : Call} {stage : RoundStage} {n m : Node}
      (h : Conversation link given start heard (.call call stage) n)
      (hm : m.peers = n.peers) (answer : Except TransportError Value) :
      Conversation link given start (heard ++ [(call, answer)])
        (m.resumeRound link stage answer).1 (m.resumeRound link stage answer).2

/-- The result of a round that has come to its end. -/
def Turn.result? : Turn → Option (Except SyncError ExchangeReport)
  | .call _ _ => none
  | .done report => some (.ok report)
  | .failed e => some (.error e)

/-! ### What a round asks for, and what it changes -/

/-- Whatever call a round makes next, everyone may make it. -/
def Turn.AsksPublicly (turn : Turn) : Prop :=
  ∀ call stage, turn = .call call stage → call.action.isPublic = true

namespace Node

variable (n : Node) (link : RoundLink)

theorem asksPublicly_takeIncoming (report : ExchangeReport) (incoming : Bundle) :
    (n.takeIncoming link report incoming).1.AsksPublicly := by
  rintro call stage heq
  rcases n.takeIncoming_cases link report incoming with
    ⟨_, htake⟩ | ⟨_, e, n', _, htake⟩ | ⟨_, _, _, _, _, htake, _⟩
  all_goals
    rw [htake] at heq
    cases heq

theorem asksPublicly_askForMail (key : PublicKey) : (n.askForMail link key).1.AsksPublicly := by
  rintro call stage heq
  rcases n.askForMail_cases link key with ⟨e, n', _, hask⟩ | ⟨outgoing, n', _, hask⟩
  · rw [hask] at heq
    cases heq
  · rw [hask] at heq
    cases heq
    rfl

theorem asksPublicly_beginRound (given : Option PublicKey) :
    (n.beginRound link given).1.AsksPublicly := by
  unfold beginRound
  split
  · exact asksPublicly_askForMail _ _ _
  · split
    · exact asksPublicly_askForMail _ _ _
    · rintro call stage heq
      cases heq
      rfl

theorem asksPublicly_resumeRound (stage : RoundStage) (answer : Except TransportError Value) :
    (n.resumeRound link stage answer).1.AsksPublicly := by
  unfold resumeRound handOver
  split
  · exact nofun
  · split
    · split
      · exact nofun
      · exact asksPublicly_askForMail _ _ _
    · split
      · exact nofun
      · split
        · exact asksPublicly_takeIncoming _ _ _ _
        · rintro call stage heq
          cases heq
          rfl
    · exact asksPublicly_takeIncoming _ _ _ _

end Node

theorem Conversation.asksPublicly {link : RoundLink} {given : Option PublicKey} {start n : Node}
    {heard : Transcript} {turn : Turn} (h : Conversation link given start heard turn n) :
    turn.AsksPublicly := by
  cases h with
  | begin => exact start.asksPublicly_beginRound link given
  | resume h hm answer => exact Node.asksPublicly_resumeRound _ _ _ _

/-- A node keeps its settings, its keys and its records, and loses nothing from its outbox. -/
def Node.Keeps (n n' : Node) : Prop := n.router.Relays (fun _ => True) n'.router

namespace Node

section

variable {n n' n'' : Node}

omit [Cryptography]

theorem Keeps.refl (n : Node) : n.Keeps n := Router.Relays.refl _

theorem Keeps.trans (h : n.Keeps n') (h' : n'.Keeps n'') : n.Keeps n'' := Router.Relays.trans h h'

/-- A node that keeps its records is still to poll the same peers. -/
theorem Keeps.peers (h : n.Keeps n') : n'.backend.store.peers = n.backend.store.peers := by
  rw [backend, h.backend]
  rfl

theorem Keeps.of_onlyDraws (h : n.OnlyDraws n') : n.Keeps n' := by
  obtain ⟨entropy, rfl⟩ := h
  exact Router.Relays.refl _

theorem keeps_updatePeer (n : Node) (host : String) (f : PeerInfo → PeerInfo) :
    n.Keeps (n.updatePeer host f) := Router.Relays.refl _

end

theorem keeps_pickup (n : Node) (caller : PublicKey) (since : Time) (maxBytes : Nat)
    (channels : List String) : n.Keeps (n.pickup caller since maxBytes channels).2 := by
  unfold pickup
  split
  · exact .refl n
  · dsimp only
    split
    · exact .refl n
    · exact .of_onlyDraws n.onlyDraws_drawSecret

theorem keeps_dropoff (n : Node) (b : Bundle) : n.Keeps (n.dropoff b).2 := by
  unfold dropoff
  split
  · exact .refl n
  · exact Router.relays_routeAll (fun _ _ => trivial) _ _

theorem keeps_takeIncoming (n : Node) (link : RoundLink) (report : ExchangeReport)
    (incoming : Bundle) : n.Keeps (n.takeIncoming link report incoming).2 := by
  have hdropoff := n.keeps_dropoff incoming
  rcases n.takeIncoming_cases link report incoming with
    ⟨_, htake⟩ | ⟨_, e, n', hd, htake⟩ | ⟨_, n', _, _, hd, htake, _⟩
  · rw [htake]
    exact .refl n
  · rw [hd] at hdropoff
    rw [htake]
    exact hdropoff
  · rw [hd] at hdropoff
    rw [htake]
    exact hdropoff.trans (n'.keeps_updatePeer _ _)

theorem keeps_askForMail (n : Node) (link : RoundLink) (key : PublicKey) :
    n.Keeps (n.askForMail link key).2 := by
  have hpickup := (n.updatePeer link.host id).keeps_pickup key (n.known link.host).lastLocal
    (Bundle.budget link.byteLimit) []
  rcases n.askForMail_cases link key with ⟨e, n', hp, hask⟩ | ⟨outgoing, n', hp, hask⟩
  all_goals
    rw [hp] at hpickup
    rw [hask]
    exact (n.keeps_updatePeer _ _).trans hpickup

theorem keeps_beginRound (n : Node) (link : RoundLink) (given : Option PublicKey) :
    n.Keeps (n.beginRound link given).2 := by
  unfold beginRound
  split
  · exact (n.keeps_updatePeer _ _).trans (keeps_askForMail _ _ _)
  · split
    · exact keeps_askForMail _ _ _
    · exact .refl n

theorem keeps_resumeRound (n : Node) (link : RoundLink) (stage : RoundStage)
    (answer : Except TransportError Value) : n.Keeps (n.resumeRound link stage answer).2 := by
  unfold resumeRound handOver
  split
  · exact .refl n
  · split
    · split
      · exact .refl n
      · exact (n.keeps_updatePeer _ _).trans (keeps_askForMail _ _ _)
    · split
      · exact .refl n
      · split
        · exact keeps_takeIncoming _ _ _ _
        · exact .refl n
    · exact (n.keeps_updatePeer _ _).trans (keeps_takeIncoming _ _ _ _)

/-- On every surface, a call that everyone may make is served as on that for everyone. -/
theorem handle_eq_everyone (n : Node) (surface : Surface) {call : Call}
    (hpublic : call.action.isPublic = true) : n.handle surface call = n.handle .everyone call := by
  have hnot : ∀ s : Surface, ¬(s = .everyone ∧ (!call.action.isPublic) = true) := by
    simp [hpublic]
  rw [handle, handle, dispatch, dispatch, if_neg (hnot _), if_neg (hnot _)]

theorem keeps_handle (n : Node) (surface : Surface) {call : Call}
    (hpublic : call.action.isPublic = true) :
    n.Keeps (n.handle surface call).2 ∧ (n.handle surface call).2.peers = n.peers := by
  rw [n.handle_eq_everyone surface hpublic]
  exact n.relays_handle_everyone fun _ _ => trivial

end Node

/-! ### Rounds in a network -/

omit [Cryptography] in
/-- Over a call within one process the host does what its handler does, or nothing. -/
theorem Memory.rpc_snd {σ : Type} (own served : Nat) (handler : Call → σ → Response × σ)
    (call : Call) (s : σ) :
    (rpc own served handler call s).2 = s ∨
      (rpc own served handler call s).2 = (handler call s).2 := by
  unfold rpc
  split
  · exact .inl rfl
  · rename_i hdeliver
    obtain rfl := deliver_eq_ok hdeliver
    exact .inr rfl

namespace Network

variable {w w' w'' : Network} {name : String} {link : RoundLink}

/-- Every host is still there, with a node that has changed in some way. -/
def Moves (change : Node → Node → Prop) (w w' : Network) : Prop :=
  ∀ name h, w.hosts.find? name = some h →
    ∃ h', w'.hosts.find? name = some h' ∧ change h.node h'.node

omit [Cryptography] in
theorem Moves.refl {change : Node → Node → Prop} (hrefl : ∀ n, change n n) (w : Network) :
    w.Moves change w :=
  fun _ h hh => ⟨h, hh, hrefl _⟩

omit [Cryptography] in
theorem Moves.trans {change : Node → Node → Prop}
    (htrans : ∀ n n' n'', change n n' → change n' n'' → change n n'') (h : w.Moves change w')
    (h' : w'.Moves change w'') : w.Moves change w'' := by
  intro name d hd
  obtain ⟨d', hd', hchange⟩ := h name d hd
  obtain ⟨d'', hd'', hchange'⟩ := h' name d' hd'
  exact ⟨d'', hd'', htrans _ _ _ hchange hchange'⟩

omit [Cryptography] in
theorem moves_setNode {change : Node → Node → Prop} (hrefl : ∀ n, change n n) {h : Host}
    (hh : w.hosts.find? name = some h) {n : Node} (hn : change h.node n) :
    w.Moves change (w.setNode name h n) := by
  intro other d hd
  rw [find?_setNode]
  by_cases heq : name = other
  · subst heq
    obtain rfl := Option.some.inj (hh.symm.trans hd)
    rw [if_pos rfl]
    exact ⟨_, rfl, hn⟩
  · rw [if_neg heq]
    exact ⟨d, hd, hrefl _⟩

theorem rpc_of_unbound {address : String} (h : w.bound.find? address = none) (byteLimit : Nat)
    (call : Call) : w.rpc byteLimit address call = (.error (.unreachable address), w) := by
  simp only [rpc, h]

/-- A call that everyone may make changes no records of any host, and nothing that one knows about its
peers. -/
theorem moves_rpc (w : Network) (byteLimit : Nat) (address : String) {call : Call}
    (hpublic : call.action.isPublic = true) :
    w.Moves (fun n n' => n.Keeps n' ∧ n'.peers = n.peers) (w.rpc byteLimit address call).2 := by
  have hrefl : ∀ n : Node, n.Keeps n ∧ n.peers = n.peers := fun n => ⟨.refl n, rfl⟩
  unfold rpc
  split
  · exact .refl hrefl w
  · rename_i b _
    split
    · exact .refl hrefl w
    · rename_i h hh
      refine moves_setNode hrefl hh ?_
      rcases Memory.rpc_snd byteLimit b.byteLimit (fun call n => n.handle b.surface call) call h.node
        with hsame | hhandled
      · rw [hsame]
        exact hrefl _
      · rw [hhandled]
        exact h.node.keeps_handle b.surface hpublic

/-- **A round is carried on call by call.** What holds of a network and a turn, and is preserved when
the network answers a call and the host goes on with the answer, holds at the end of the round. -/
theorem finishRound_induction {P : Network → Turn → Prop}
    (hstep : ∀ w call stage, P w (.call call stage) →
      ∃ h, (w.rpc link.byteLimit link.host call).2.hosts.find? name = some h ∧
        P ((w.rpc link.byteLimit link.host call).2.setNode name h
            (h.node.resumeRound link stage (w.rpc link.byteLimit link.host call).1).2)
          (h.node.resumeRound link stage (w.rpc link.byteLimit link.host call).1).1)
    (w : Network) (turn : Turn) (hturn : P w turn) :
    ∃ turn', turn'.result? = some (w.finishRound name link turn).1 ∧
      P (w.finishRound name link turn).2 turn' := by
  -- Every answer leaves fewer calls to make.
  induction hleft : turn.callsLeft using Nat.strong_induction_on generalizing w turn with
  | _ left ih =>
    cases turn with
    | done report =>
      rw [finishRound]
      exact ⟨.done report, rfl, hturn⟩
    | failed e =>
      rw [finishRound]
      exact ⟨.failed e, rfl, hturn⟩
    | call call stage =>
      obtain ⟨h, hh, hnext⟩ := hstep w call stage hturn
      rw [finishRound_call stage rfl hh]
      subst hleft
      exact ih _ (h.node.callsLeft_resumeRound link stage _) _ _ hnext rfl

/-- A host has come to some turn of a round: with the conversation up to there, in which a network has
given every answer, and with all hosts as they were or having kept their records. -/
structure Converses (w₀ : Network) (name : String) (link : RoundLink) (given : Option PublicKey)
    (start : Node) (w : Network) (turn : Turn) (heard : Transcript) (h : Host) : Prop where
  found : w.hosts.find? name = some h
  conversation : Conversation link given start heard turn h.node
  answered : ∀ c ∈ heard, ∃ w : Network, (w.rpc link.byteLimit link.host c.1).1 = c.2
  moves : w₀.Moves Node.Keeps w

variable {w₀ : Network} {given : Option PublicKey} {start : Node} {h : Host}

/-- A call is answered, and the host goes on with the answer. -/
theorem Converses.resume {call : Call} {stage : RoundStage} {heard : Transcript}
    (hc : Converses w₀ name link given start w (.call call stage) heard h) :
    ∃ h', (w.rpc link.byteLimit link.host call).2.hosts.find? name = some h' ∧
      ∃ heard' h'', Converses w₀ name link given start
        ((w.rpc link.byteLimit link.host call).2.setNode name h'
          (h'.node.resumeRound link stage (w.rpc link.byteLimit link.host call).1).2)
        (h'.node.resumeRound link stage (w.rpc link.byteLimit link.host call).1).1 heard' h'' := by
  have hpublic := hc.conversation.asksPublicly call stage rfl
  have hrpc := w.moves_rpc link.byteLimit link.host hpublic
  -- The host may be the one that has answered; what it knows about its peers is the same.
  obtain ⟨h', hh', -, hpeers⟩ := hrpc name h hc.found
  refine ⟨h', hh', heard ++ [(call, (w.rpc link.byteLimit link.host call).1)],
    { h' with node := (h'.node.resumeRound link stage
      (w.rpc link.byteLimit link.host call).1).2 }, ?_, ?_, ?_, ?_⟩
  · rw [find?_setNode, if_pos rfl]
  · exact hc.conversation.resume hpeers _
  · intro c hmem
    rcases List.mem_append.mp hmem with hmem | hmem
    · exact hc.answered c hmem
    · obtain rfl := List.mem_singleton.mp hmem
      exact ⟨w, rfl⟩
  · have hkeeps : w.Moves Node.Keeps (w.rpc link.byteLimit link.host call).2 := by
      intro other d hd
      obtain ⟨d', hd', hkept, -⟩ := hrpc other d hd
      exact ⟨d', hd', hkept⟩
    have hresumed := moves_setNode Node.Keeps.refl hh' (h'.node.keeps_resumeRound link stage
      (w.rpc link.byteLimit link.host call).1)
    exact (hc.moves.trans (fun _ _ _ => .trans) hkeeps).trans (fun _ _ _ => .trans) hresumed

/-- **A round in a network is a conversation that has come to its end.** -/
theorem converses_exchange (hh : w.hosts.find? name = some h) (t : Transport) (address : String)
    (key : Option PublicKey) :
    ∃ turn heard h', turn.result? = some (w.exchange name t address key).1 ∧
      Converses w name ⟨address, t.byteLimit⟩ key h.node (w.exchange name t address key).2 turn
        heard h' := by
  simp only [exchange, hh]
  have hbegun : Converses w name ⟨address, t.byteLimit⟩ key h.node
      (w.setNode name h (h.node.beginRound ⟨address, t.byteLimit⟩ key).2)
      (h.node.beginRound ⟨address, t.byteLimit⟩ key).1 []
      { h with node := (h.node.beginRound ⟨address, t.byteLimit⟩ key).2 } :=
    ⟨by rw [find?_setNode, if_pos rfl], .begin, List.forall_mem_nil _,
      moves_setNode Node.Keeps.refl hh (h.node.keeps_beginRound _ key)⟩
  obtain ⟨turn, hresult, heard, h', hc⟩ := finishRound_induction
    (P := fun w' turn => ∃ heard h',
      Converses w name ⟨address, t.byteLimit⟩ key h.node w' turn heard h')
    (by
      rintro w' call stage ⟨heard, h', hc⟩
      exact hc.resume) _ _ ⟨[], _, hbegun⟩
  exact ⟨turn, heard, h', hresult, hc⟩

/-- A round changes no records of any host. -/
theorem moves_exchange (w : Network) (name : String) (t : Transport) (address : String)
    (key : Option PublicKey) : w.Moves Node.Keeps (w.exchange name t address key).2 := by
  cases hh : w.hosts.find? name with
  | none =>
    simp only [exchange, hh]
    exact .refl Node.Keeps.refl w
  | some h =>
    obtain ⟨_, _, _, _, hc⟩ := converses_exchange hh t address key
    exact hc.moves

end Network

end Courier
