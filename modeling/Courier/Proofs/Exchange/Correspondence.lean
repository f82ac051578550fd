import Mathlib
import Courier.Proofs.Exchange.Calls
import Courier.Proofs.Exchange.Watermark

/-!
## A node and a host that exchange mail

A node begins rounds of exchange with a host whenever it likes, several at a time. Each round
waits for the answer to one call after the other. A call may get lost on its way, and so may its
answer after the host has handled it; meanwhile node and host send, route and serve whatever they
are asked to. What the host answers and what the node takes in is put on record.

* `Correspondence.Step`: all that may happen.
* `Node.Advances`: what rounds do to a node.
* `Node.askForMail_cases`, `Node.takeIncoming_cases`: all that a round can do between two calls.
* `Notice.Tells`, `Correspondence.Run.tells`: what is on record is what the steps of the run did.
-/

namespace Courier

variable [Cryptography]

/-! ### What may happen -/

/-- What happens at a node besides its rounds of exchange. -/
inductive Activity
  | send (contact : String) (content : Bytes)
  | sendTo (recipient : PublicKey) (content : Bytes)
  | sendChannel (channel : String) (content : Bytes)
  | route (raw : Bytes)
  | serve (surface : Surface) (call : Call)

/-- The node after an activity. -/
def Activity.act (n : Node) : Activity → Node
  | send contact content => (n.send contact content).2
  | sendTo recipient content => (n.sendTo recipient content).2
  | sendChannel channel content => (n.sendChannel channel content).2
  | route raw => { n with router := (n.router.route raw).2 }
  | serve surface call => (n.handle surface call).2

theorem Activity.grows_act (n : Node) (a : Activity) : n.Grows (a.act n) := by
  cases a with
  | send contact content => exact n.grows_send contact content
  | sendTo recipient content => exact n.grows_emit recipient none content
  | sendChannel channel content => exact n.grows_sendChannel channel content
  | route raw => exact .of_router (n.router.grows_route raw)
  | serve surface call => exact n.grows_handle surface call

/-- A call of a round, what waits for its answer, and the answer once the host has handled the
call. -/
structure PendingCall where
  call : Call
  stage : RoundStage
  answer : Option (Except TransportError Value) := none

/-- What is put on record. -/
inductive Notice
  /-- The host has answered a call of the node. -/
  | answered (call : Call) (response : Response)
  /-- A round had the turn in which it takes in a bundle of the host's: the router of the node before
  the turn, what came of the turn, and the router after it. -/
  | tookIn (bundle : Bundle) (before : Router) (turn : Turn) (after : Router)

/-- A node, a host, the calls of the rounds under way, and the record. -/
structure Correspondence where
  node : Node
  host : Node
  calls : List PendingCall := []
  record : List Notice := []

/-- What a response is for the round that waits for it. -/
def Response.answer (r : Response) : Except TransportError Value :=
  match r.result with
  | .error text => .error (.remote text)
  | .ok v => .ok v

omit [Cryptography] in
/-- An answer with a value is one of success. -/
theorem Response.answer_eq_ok {r : Response} {v : Value} (h : r.answer = .ok v) :
    r.result = .ok v ∧ r.error = "" := by
  unfold answer at h
  split at h
  · cases h
  · rename_i v' hresult
    obtain rfl := Except.ok.inj h
    refine ⟨hresult, ?_⟩
    unfold result at hresult
    split at hresult
    · rename_i hempty
      exact String.isEmpty_iff.mp hempty
    · cases hresult

/-- The bundle of the host that a round takes in when it goes on with an answer, if it does. -/
def RoundStage.takesIn? (stage : RoundStage) (answer : Except TransportError Value) :
    Option Bundle :=
  match answer with
  | .error _ => none
  | .ok v =>
    match stage with
    | .key => none
    | .incoming outgoing =>
      match v.toBundle with
      | .error _ => none
      | .ok b => if outgoing.isEmpty && !b.isEmpty then some b else none
    | .receipt _ b => if b.isEmpty then none else some b

namespace Correspondence

/-- A round has its turn; the other calls stay. -/
def proceed (c : Correspondence) (turn : Turn × Node) (others : List PendingCall)
    (takesIn? : Option Bundle) : Correspondence where
  node := turn.2
  host := c.host
  calls := match turn.1 with
    | .call call stage => others ++ [⟨call, stage, none⟩]
    | .done _ => others
    | .failed _ => others
  record := c.record ++
    takesIn?.toList.map fun b => .tookIn b c.node.router turn.1 turn.2.router

/-- The host handles a call. -/
def handled (c : Correspondence) (front : List PendingCall) (w : PendingCall)
    (rest : List PendingCall) : Correspondence where
  node := c.node
  host := (c.host.handle .everyone w.call).2
  calls := front ++ { w with answer := some (c.host.handle .everyone w.call).1.answer } :: rest
  record := c.record ++ [.answered w.call (c.host.handle .everyone w.call).1]

/-- All that may happen between a node and a host that it reaches over some link. -/
inductive Step (link : RoundLink) : Correspondence → Correspondence → Prop
  | node (c : Correspondence) (a : Activity) : Step link c { c with node := a.act c.node }
  | host (c : Correspondence) (a : Activity) : Step link c { c with host := a.act c.host }
  | begin (c : Correspondence) (given : Option PublicKey) :
      Step link c (c.proceed (c.node.beginRound link given) c.calls none)
  /-- A call reaches the host. -/
  | handle {c : Correspondence} {front rest : List PendingCall} {w : PendingCall}
      (hw : c.calls = front ++ w :: rest) (hnew : w.answer = none) :
      Step link c (c.handled front w rest)
  /-- A round goes on with the answer of the host, or with an error whether or not there is one. -/
  | resume {c : Correspondence} {front rest : List PendingCall} {w : PendingCall}
      {answer : Except TransportError Value} (hw : c.calls = front ++ w :: rest)
      (hanswer : w.answer = some answer ∨ ∃ e, answer = .error e) :
      Step link c (c.proceed (c.node.resumeRound link w.stage answer) (front ++ rest)
        (w.stage.takesIn? answer))

/-- Everything that may happen in time. -/
abbrev Run (link : RoundLink) : Correspondence → Correspondence → Prop :=
  Relation.ReflTransGen (Step link)

/-- The oldest of the rounds has its turn: the host handles its call, or it goes on with the
answer. -/
def attend (link : RoundLink) (c : Correspondence) : Correspondence :=
  match c.calls with
  | [] => c
  | w :: rest =>
    match w.answer with
    | none => c.handled [] w rest
    | some answer =>
      c.proceed (c.node.resumeRound link w.stage answer) rest (w.stage.takesIn? answer)

theorem run_attend (link : RoundLink) (c : Correspondence) : Run link c (c.attend link) := by
  unfold attend
  cases hcalls : c.calls with
  | nil => exact .refl
  | cons w rest =>
    have hfirst : c.calls = [] ++ w :: rest := hcalls
    dsimp only
    cases hanswer : w.answer with
    | none => exact .single (.handle hfirst hanswer)
    | some answer => exact .single (.resume hfirst (.inl hanswer))

theorem run_attends (link : RoundLink) (k : Nat) (c : Correspondence) :
    Run link c ((attend link)^[k] c) := by
  induction k generalizing c with
  | zero => exact .refl
  | succ k ih => exact (run_attend link c).trans (ih _)

end Correspondence

/-! ### What rounds do to a node -/

namespace Node

omit [Cryptography]

/-- What is known about a host, if only that it is there. -/
def known (n : Node) (host : String) : PeerInfo := (n.peerInfo? host).getD {}

@[simp] theorem known_updatePeer (n : Node) (host : String) (f : PeerInfo → PeerInfo) :
    (n.updatePeer host f).known host = f (n.known host) := by
  rw [known, peerInfo?, updatePeer, Table.find?_insert, if_pos rfl, Option.getD_some]
  rfl

/-- How a node changes by everything it does: its router grows, its settings and transports stay,
and what it knows about a host moves forward. -/
structure Advances (host : String) (n n' : Node) : Prop where
  router : n.router.Grows n'.router
  settings : n'.settings = n.settings
  transports : n'.transports = n.transports
  lastLocal : (n.known host).lastLocal ≤ (n'.known host).lastLocal
  lastRemote : (n.known host).lastRemote ≤ (n'.known host).lastRemote

variable {host : String} {n n' n'' : Node}

/-- What a node does besides its rounds leaves what it knows about its peers. -/
theorem known_of_grows (h : n.Grows n') (host : String) : n'.known host = n.known host := by
  rw [known, peerInfo?, h.peers]
  rfl

theorem Advances.of_grows (h : n.Grows n') : Advances host n n' := by
  have hknown := known_of_grows h host
  refine ⟨h.router, h.settings, h.transports, ?_, ?_⟩
  · rw [hknown]
    exact Int64.le_refl _
  · rw [hknown]
    exact Int64.le_refl _

theorem Advances.refl (n : Node) : Advances host n n := .of_grows (.refl n)

theorem Advances.trans (h : Advances host n n') (h' : Advances host n' n'') :
    Advances host n n'' :=
  ⟨h.router.trans h'.router, h'.settings.trans h.settings, h'.transports.trans h.transports,
    Int64.le_trans h.lastLocal h'.lastLocal, Int64.le_trans h.lastRemote h'.lastRemote⟩

theorem advances_updatePeer (n : Node) (f : PeerInfo → PeerInfo)
    (hlocal : ∀ info, info.lastLocal ≤ (f info).lastLocal)
    (hremote : ∀ info, info.lastRemote ≤ (f info).lastRemote) :
    Advances host n (n.updatePeer host f) := by
  refine ⟨.refl _, rfl, rfl, ?_, ?_⟩
  · rw [known_updatePeer]
    exact hlocal _
  · rw [known_updatePeer]
    exact hremote _

theorem advances_learn (n : Node) (host : String) (key : PublicKey) :
    Advances host n (n.updatePeer host fun info => { info with routingKey := some key }) :=
  n.advances_updatePeer _ (fun _ => Int64.le_refl _) fun _ => Int64.le_refl _

variable [Cryptography]

/-- All that taking in a bundle can come to. -/
theorem takeIncoming_cases (n : Node) (link : RoundLink) (report : ExchangeReport)
    (incoming : Bundle) :
    (incoming.isEmpty = true ∧ n.takeIncoming link report incoming = (.done report, n)) ∨
      (incoming.isEmpty = false ∧ ∃ e n', n.dropoff incoming = (.error e, n') ∧
        n.takeIncoming link report incoming = (.failed e, n')) ∨
      (incoming.isEmpty = false ∧ ∃ n' report' f,
        n.dropoff incoming = (.ok report'.routed, n') ∧
        n.takeIncoming link report incoming = (.done report', n'.updatePeer link.host f) ∧
        ∀ info, (f info).lastLocal = info.lastLocal ∧
          (f info).lastRemote = info.lastRemote.later incoming.time) := by
  unfold takeIncoming
  cases hempty : incoming.isEmpty with
  | true => exact .inl ⟨rfl, rfl⟩
  | false =>
    right
    cases hdropoff : n.dropoff incoming with
    | mk result n' =>
      cases result with
      | error e => exact .inl ⟨rfl, e, n', rfl, rfl⟩
      | ok routed => exact .inr ⟨rfl, n', _, _, rfl, rfl, fun _ => ⟨rfl, rfl⟩⟩

theorem advances_takeIncoming (n : Node) (link : RoundLink) (report : ExchangeReport)
    (incoming : Bundle) : Advances link.host n (n.takeIncoming link report incoming).2 := by
  rcases n.takeIncoming_cases link report incoming with
    ⟨_, heq⟩ | ⟨_, e, n', hdropoff, heq⟩ | ⟨_, n', report', f, hdropoff, heq, hf⟩
  · rw [heq]
    exact .refl n
  · rw [heq]
    exact .of_grows ((grows_dropoff _ _).of_snd hdropoff)
  · have hgrows := (grows_dropoff _ _).of_snd hdropoff
    rw [heq]
    refine (Advances.of_grows hgrows).trans (n'.advances_updatePeer f ?_ ?_)
    · intro info
      exact Int64.le_of_eq (hf info).1.symm
    · intro info
      rw [(hf info).2]
      exact Time.le_later_left _ _

/-- All that asking for mail can come to: the store fails, or the node's own mail is ready and the
call goes out. -/
theorem askForMail_cases (n : Node) (link : RoundLink) (key : PublicKey) :
    (∃ e n', (n.updatePeer link.host id).pickup key (n.known link.host).lastLocal
        (Bundle.budget link.byteLimit) [] = (.error e, n') ∧
      n.askForMail link key = (.failed e, n')) ∨
    ∃ outgoing n', (n.updatePeer link.host id).pickup key (n.known link.host).lastLocal
        (Bundle.budget link.byteLimit) [] = (.ok outgoing, n') ∧
      n.askForMail link key =
        (.call (.ofPickup n.router.identity.routing.publicKey (n.known link.host).lastRemote
          (UInt64.ofNat (Bundle.budget link.byteLimit)) n.settings.sync.channelFilter)
          (.incoming outgoing), n') := by
  have hinfo : ((n.updatePeer link.host id).peerInfo? link.host).getD {} = n.known link.host :=
    n.known_updatePeer link.host id
  unfold askForMail
  simp only [hinfo]
  cases hpickup : (n.updatePeer link.host id).pickup key (n.known link.host).lastLocal
    (Bundle.budget link.byteLimit) [] with
  | mk result n' =>
    cases result with
    | error e => exact .inl ⟨e, n', rfl, rfl⟩
    | ok outgoing =>
      have hgrows := (grows_pickup _ _ _ _ _).of_snd hpickup
      refine .inr ⟨outgoing, n', rfl, ?_⟩
      dsimp only
      rw [hgrows.router.routing, hgrows.settings]
      rfl

theorem advances_askForMail (n : Node) (link : RoundLink) (key : PublicKey) :
    Advances link.host n (n.askForMail link key).2 := by
  have hknown : Advances link.host n (n.updatePeer link.host id) :=
    n.advances_updatePeer id (fun _ => Int64.le_refl _) fun _ => Int64.le_refl _
  rcases n.askForMail_cases link key with ⟨e, n', hpickup, heq⟩ | ⟨outgoing, n', hpickup, heq⟩
  · rw [heq]
    exact hknown.trans (.of_grows ((grows_pickup _ _ _ _ _).of_snd hpickup))
  · rw [heq]
    exact hknown.trans (.of_grows ((grows_pickup _ _ _ _ _).of_snd hpickup))

theorem advances_beginRound (n : Node) (link : RoundLink) (given : Option PublicKey) :
    Advances link.host n (n.beginRound link given).2 := by
  unfold beginRound
  split
  · exact (n.advances_learn link.host _).trans (advances_askForMail _ _ _)
  · split
    · exact advances_askForMail _ _ _
    · exact .refl n

theorem advances_resumeRound (n : Node) (link : RoundLink) (stage : RoundStage)
    (answer : Except TransportError Value) :
    Advances link.host n (n.resumeRound link stage answer).2 := by
  unfold resumeRound
  split
  · exact .refl n
  · split
    · split
      · exact .refl n
      · exact (n.advances_learn link.host _).trans (advances_askForMail _ _ _)
    · split
      · exact .refl n
      · unfold handOver
        split
        · exact advances_takeIncoming _ _ _ _
        · exact .refl n
    · rename_i outgoing incoming
      have hacknowledged : Advances link.host n (n.updatePeer link.host fun info =>
          { info with
            lastLocal := info.lastLocal.later outgoing.time
            sentBytes := info.sentBytes + outgoing.data.length }) :=
        n.advances_updatePeer _ (fun _ => Time.le_later_left _ _) fun _ => Int64.le_refl _
      exact hacknowledged.trans (advances_takeIncoming _ _ _ _)

end Node

/-! ### What is on record -/

/-- What a step has done at which this is put on record. -/
def Notice.Tells (link : RoundLink) (c c' : Correspondence) : Notice → Prop
  | answered call response => c.host.handle .everyone call = (response, c'.host)
  | tookIn b before turn after =>
    c.node.router = before ∧ c'.node.router = after ∧ ∃ stage answer,
      RoundStage.takesIn? stage answer = some b ∧
        c.node.resumeRound link stage answer = (turn, c'.node)

namespace Correspondence

variable {link : RoundLink} {c c' : Correspondence} {notice : Notice}

/-- Everything that may happen moves the node forward and makes the host grow, and nothing is
taken off the record. -/
theorem Step.advances (h : Step link c c') :
    c.node.Advances link.host c'.node ∧ c.host.Grows c'.host ∧ c.record ⊆ c'.record := by
  cases h with
  | node a => exact ⟨.of_grows (a.grows_act _), .refl _, List.Subset.refl _⟩
  | host a => exact ⟨.refl _, a.grows_act _, List.Subset.refl _⟩
  | begin given =>
    exact ⟨c.node.advances_beginRound link given, .refl _, List.subset_append_left _ _⟩
  | handle hw hnew => exact ⟨.refl _, Node.grows_handle _ _ _, List.subset_append_left _ _⟩
  | resume hw hanswer =>
    exact ⟨Node.advances_resumeRound _ _ _ _, .refl _, List.subset_append_left _ _⟩

/-- What a step puts on record is what it has done. -/
theorem Step.tells (h : Step link c c') (hnotice : notice ∈ c'.record) :
    notice ∈ c.record ∨ notice.Tells link c c' := by
  cases h with
  | node a => exact .inl hnotice
  | host a => exact .inl hnotice
  | begin given =>
    rcases List.mem_append.mp hnotice with hold | hnew
    · exact .inl hold
    · cases hnew
  | handle hw hnew =>
    rcases List.mem_append.mp hnotice with hold | hnew
    · exact .inl hold
    · obtain rfl := List.mem_singleton.mp hnew
      exact .inr rfl
  | @resume front rest w answer hw hanswer =>
    rcases List.mem_append.mp hnotice with hold | hnew
    · exact .inl hold
    · obtain ⟨b, hb, rfl⟩ := List.mem_map.mp hnew
      exact .inr ⟨rfl, rfl, w.stage, answer, Option.mem_toList.mp hb, rfl⟩

/-- **What is on record has happened**, at some step of the run. -/
theorem Run.tells (h : Run link c c') (hnotice : notice ∈ c'.record) :
    notice ∈ c.record ∨ ∃ c₁ c₂, Run link c c₁ ∧ Step link c₁ c₂ ∧ Run link c₂ c' ∧
      notice.Tells link c₁ c₂ := by
  induction h with
  | refl => exact .inl hnotice
  | @tail c₁ c₂ hrun hstep ih =>
    rcases hstep.tells hnotice with hbefore | htells
    · rcases ih hbefore with hold | ⟨c₃, c₄, hfirst, hmiddle, hlast, htells⟩
      · exact .inl hold
      · exact .inr ⟨c₃, c₄, hfirst, hmiddle, hlast.tail hstep, htells⟩
    · exact .inr ⟨c₁, c₂, hrun, hstep, .refl, htells⟩

end Correspondence

end Courier
