import Mathlib
import Courier.Exchange
import Courier.Proofs.Delivery
import Courier.Proofs.Router.Opening
import Courier.Proofs.Stream.Ledger

/-!
## Nothing that was opened goes missing

Two sources feed the one queue of a node's reader: messages that came in one envelope, and streams that
were put together. The queue is bounded and drops what it has no room for. Whatever comes in whatever
order, each message and each stream is offered once, and is counted as delivered or as dropped; what
was delivered is with the reader or waits for it; and a stream that was dropped is done with all the
same.

* `Router.messages`: what routing finds in envelopes that are no parts of streams.
* `completed_deliver`: the streams that a delivery lets go of are those that it offers.
* `Account`: a node in a run, with what it has opened, completed, offered and handed out.
* `Account.Conserves`, `Account.OffersOnce`: what every event preserves.
* `Account.conservation`: what is so after any run.
-/

namespace Courier

/-! ### What is offered -/

namespace Router

variable [Cryptography] {r : Router}

/-- What routing finds in an envelope, if that is no part of a stream. -/
def message? (r : Router) (raw : Bytes) : Option Delivery :=
  match r.opens? raw with
  | none => none
  | some (e, mailClass, plaintext) =>
    if e.flags.isPart then none else some ⟨mailClass, e.channel, plaintext⟩

/-- What is found in envelopes that are routed one after the other. -/
def messages (r : Router) : List Bytes → List Delivery
  | [] => []
  | raw :: rest => (r.message? raw).toList ++ messages (r.route raw).2 rest

/-- **The messages are what is said to have been opened**, other than parts of streams. -/
theorem isSome_message?_iff (hup : StoreCall.appendOutbox.name ∉ r.backend.down) {raw : Bytes}
    {e : Envelope} {fp : Fingerprint} (hread : Envelope.read? raw = some (e, fp)) :
    (r.message? raw).isSome = true ↔ e.flags.isPart = false ∧
      ∃ mailClass total, (r.route raw).1 = .ok (.routed (some mailClass) total) := by
  unfold message?
  cases hopens : r.opens? raw with
  | none =>
    obtain ⟨-, -, hnot⟩ := route_of_not_opens hopens
    simp [hnot]
  | some o =>
    obtain ⟨e', mailClass, plaintext⟩ := o
    obtain ⟨⟨fp', hread', -⟩, -⟩ := opens?_eq_some_iff.mp hopens
    obtain ⟨rfl, rfl⟩ := Prod.mk.inj (Option.some.inj (hread.symm.trans hread'))
    dsimp only
    cases hpart : e.flags.isPart with
    | true => simp
    | false =>
      have hreads : e.flags.isPart = true →
          ∃ streams, r.streams.handle e.flags plaintext mailClass = .ok streams := by simp [hpart]
      obtain ⟨total, htotal⟩ := outcome_of_opens hopens hup hreads
      simp [htotal]

/-- The messages as they are offered, for no stream. -/
def parcels (r : Router) (raws : List Bytes) : List DeliveryQueue.Parcel :=
  (r.messages raws).map fun d => (none, d)

theorem queue_route (r : Router) (raw : Bytes) :
    (r.route raw).2.queue = r.queue.offerEach ((r.message? raw).toList.map fun d => (none, d)) := by
  unfold message?
  cases hopens : r.opens? raw with
  | none => exact (route_of_not_opens hopens).1
  | some o =>
    obtain ⟨e, mailClass, plaintext⟩ := o
    dsimp only
    rw [(takes_route hopens).queue]
    cases e.flags.isPart <;> rfl

theorem exists_routeAll_cons (r : Router) (count : Nat) (raw : Bytes) (rest : List Bytes) :
    ∃ count', (r.routeAll count (raw :: rest)).2 = ((r.route raw).2.routeAll count' rest).2 := by
  rw [routeAll]
  split
  · rename_i hroute
    exact ⟨count + 1, by rw [hroute]⟩
  · rename_i hroute
    exact ⟨count, by rw [hroute]⟩

/-- The reader is offered the messages, in order. -/
theorem queue_routeAll (r : Router) (count : Nat) (raws : List Bytes) :
    (r.routeAll count raws).2.queue = r.queue.offerEach (r.parcels raws) := by
  induction raws generalizing r count with
  | nil => rfl
  | cons raw rest ih =>
    obtain ⟨count', hcons⟩ := r.exists_routeAll_cons count raw rest
    rw [hcons, ih, queue_route, parcels, parcels, messages, List.map_append,
      DeliveryQueue.offerEach_append]

/-- Routing an envelope finishes no stream, and keeps no part of one that is finished. -/
theorem streams_route (h : r.streams.Apart) (raw : Bytes) :
    (r.route raw).2.streams.Apart ∧
      (r.route raw).2.streams.finished = r.streams.finished := by
  cases hopens : r.opens? raw with
  | none =>
    rw [(route_of_not_opens hopens).2.1]
    exact ⟨h, rfl⟩
  | some o =>
    obtain ⟨e, mailClass, plaintext⟩ := o
    rw [(takes_route hopens).streams]
    refine ⟨h.take e.flags plaintext mailClass, ?_⟩
    rw [Stream.Reassembler.take_eq]
    split
    · rfl
    · exact Stream.Reassembler.finished_put _ _

theorem streams_routeAll (h : r.streams.Apart) (count : Nat) (raws : List Bytes) :
    (r.routeAll count raws).2.streams.Apart ∧
      (r.routeAll count raws).2.streams.finished = r.streams.finished := by
  induction raws generalizing r count with
  | nil => exact ⟨h, rfl⟩
  | cons raw rest ih =>
    obtain ⟨count', hcons⟩ := r.exists_routeAll_cons count raw rest
    obtain ⟨hapart, hfinished⟩ := streams_route h raw
    obtain ⟨hapart', hfinished'⟩ := ih hapart count'
    rw [hcons]
    exact ⟨hapart', hfinished'.trans hfinished⟩

end Router

namespace Stream.Reassembler

/-- The streams that are there before and not after. -/
def gone (before after : Reassembler) : List UInt32 :=
  before.pending.keys.filter fun id => !after.pending.contains id

/-- The complete streams as they are offered. -/
def parcels (r : Reassembler) : List DeliveryQueue.Parcel := r.offers.map fun o => (some o.1, o.2)

theorem map_fst_offers (r : Reassembler) : r.offers.map Prod.fst = r.complete.map Prod.fst := by
  have hsome : ∀ e ∈ r.complete,
      (e.2.delivery?.map fun d => (e.1, d)).map Prod.fst = some e.1 := by
    intro e he
    -- A complete stream was announced, so there is something to deliver.
    have hcomplete : e.2.isComplete = true := (List.mem_filter.mp he).2
    unfold Pending.isComplete at hcomplete
    unfold Pending.delivery?
    cases ha : e.2.announcement with
    | none =>
      rw [ha] at hcomplete
      cases hcomplete
    | some a => rfl
  rw [offers, List.map_filterMap, List.filterMap_congr hsome, List.filterMap_eq_map']

/-- **The streams that a delivery lets go of are those that it offers**, whether or not the queue
takes them. -/
theorem gone_deliver (r : Reassembler) (q : DeliveryQueue) :
    r.gone (r.deliver q).2.1 = r.offers.map Prod.fst := by
  have hgone : ∀ e ∈ r.pending.entries,
      (!(r.deliver q).2.1.pending.contains e.1) = e.2.isComplete := by
    intro e he
    have hfind : r.pending.find? e.1 = some e.2 := (Table.find?_eq_some_iff _ _ _).mpr he
    rw [Table.contains, find?_pending_deliver, hfind]
    cases hcomplete : e.2.isComplete <;> simp [Option.filter, hcomplete]
  rw [map_fst_offers, gone, Table.keys, List.filter_map, complete]
  exact congrArg _ (List.filter_congr hgone)

theorem sources_parcels (r : Reassembler) :
    r.parcels.filterMap Prod.fst = r.offers.map Prod.fst := by
  rw [parcels, List.filterMap_map]
  show (r.offers.filterMap fun o => some o.1) = _
  rw [List.filterMap_eq_map']

end Stream.Reassembler

/-! ### Accounts -/

/-- A node in a run: the number of the messages that it opened, the streams that it completed, the
offers it made to its reader, and what of them the reader has received or lost by going away. -/
structure Account where
  node : Node
  messages : Nat := 0
  completed : List UInt32 := []
  offers : List Offer := []
  received : List Delivery := []
  lost : List Delivery := []

namespace Account

/-- What happens at a node. -/
inductive Event
  | route (raw : Bytes)
  | dropoff (bundle : Bundle)
  /-- What is complete is delivered. -/
  | reassemble
  /-- The reader takes the oldest message. -/
  | receive
  /-- The reader takes no more than what waits. -/
  | close
  /-- The reader goes away. -/
  | abandon
  /-- Streams of some age are dropped, and finished ones forgotten. -/
  | evict (age : Nat)
  /-- The time becomes another. -/
  | wait (now : Nat)
  /-- All of the node but its streams and its queue may become another's. -/
  | change (other : Node)

/-- A node without streams, whose queue is empty and has some depth. -/
def start (n : Node) (depth : Nat) : Account :=
  { node := { n with router.queue := .ofDepth depth, router.streams := {} } }

def queue (s : Account) : DeliveryQueue := s.node.router.queue

def streams (s : Account) : Stream.Reassembler := s.node.router.streams

/-- The streams that offers were made for. -/
def sources (s : Account) : List UInt32 := s.offers.filterMap Offer.source

variable [Cryptography]

/-- The node routes envelopes and is another after that. -/
def takeIn (s : Account) (raws : List Bytes) (node : Node) : Account :=
  { s with
    node := node
    messages := s.messages + (s.node.router.messages raws).length
    offers := s.offers ++ s.queue.offersOf (s.node.router.parcels raws) }

def step (s : Account) : Event → Account
  | .route raw => s.takeIn [raw] { s.node with router := (s.node.router.route raw).2 }
  | .dropoff bundle =>
    match bundle.envelopes s.node.router.identity.routing with
    | .error _ => { s with node := (s.node.dropoff bundle).2 }
    | .ok raws => s.takeIn raws (s.node.dropoff bundle).2
  | .reassemble =>
    let (_, streams, queue) := s.streams.deliver s.queue
    { s with
      node.router.streams := streams
      node.router.queue := queue
      completed := s.completed ++ s.streams.gone streams
      offers := s.offers ++ s.queue.offersOf s.streams.parcels }
  | .receive =>
    let (d, queue) := s.queue.receive
    { s with node.router.queue := queue, received := s.received ++ d.toList }
  | .close => { s with node.router.queue := s.queue.close }
  | .abandon =>
    { s with node.router.queue := s.queue.abandon, lost := s.lost ++ s.queue.waiting }
  | .evict age => { s with node.router.streams := (s.streams.evict age).2 }
  | .wait now => { s with node.router.streams := s.streams.atTime now }
  | .change other =>
    { s with node := { other with router.streams := s.streams, router.queue := s.queue } }

def run (s : Account) (events : List Event) : Account := events.foldl step s

/-- A bundle that cannot be opened brings nothing, and one that can its envelopes. -/
theorem step_dropoff (s : Account) (bundle : Bundle) :
    s.step (.dropoff bundle) = s ∨ ∃ raws, s.step (.dropoff bundle) =
      s.takeIn raws { s.node with router := (s.node.router.routeAll 0 raws).2 } := by
  cases hopen : bundle.envelopes s.node.router.identity.routing with
  | error error =>
    left
    simp only [step, Node.dropoff, hopen]
  | ok raws =>
    right
    exact ⟨raws, by simp only [step, Node.dropoff, hopen]⟩

/-- Every message and every stream was offered, and the queue agrees with the offers. -/
structure Conserves (depth : Nat) (s : Account) : Prop where
  balanced : s.queue.Balanced depth s.offers s.received s.lost
  offered : s.offers.length = s.messages + s.completed.length
  completed : s.sources = s.completed

variable {depth : Nat} {s : Account}

omit [Cryptography] in
theorem conserves_start (n : Node) (depth : Nat) : (start n depth).Conserves depth :=
  ⟨DeliveryQueue.balanced_ofDepth depth, rfl, rfl⟩

theorem sources_parcels (r : Router) (raws : List Bytes) :
    (r.parcels raws).filterMap Prod.fst = [] := by
  rw [Router.parcels, List.filterMap_map]
  exact List.filterMap_eq_nil_iff.mpr fun _ _ => rfl

theorem sources_takeIn (s : Account) (raws : List Bytes) (node : Node) :
    (s.takeIn raws node).sources = s.sources := by
  unfold takeIn sources
  dsimp only
  rw [List.filterMap_append, DeliveryQueue.sources_offersOf, sources_parcels, List.append_nil]

/-- Envelopes that are routed bring one offer for each message in them. -/
theorem Conserves.takeIn (h : s.Conserves depth) {raws : List Bytes} {node : Node}
    (hqueue : node.router.queue = s.queue.offerEach (s.node.router.parcels raws)) :
    (s.takeIn raws node).Conserves depth := by
  refine ⟨?_, ?_, ?_⟩
  · show node.router.queue.Balanced depth _ _ _
    rw [hqueue]
    exact h.balanced.offerEach _
  · have hlength : (s.node.router.parcels raws).length = (s.node.router.messages raws).length :=
      List.length_map _
    have hoffered := h.offered
    unfold Account.takeIn
    dsimp only
    rw [List.length_append, DeliveryQueue.length_offersOf, hlength]
    omega
  · rw [sources_takeIn]
    exact h.completed

/-- Complete streams bring one offer each, and are gone after that. -/
theorem Conserves.reassemble (h : s.Conserves depth) : (s.step .reassemble).Conserves depth := by
  have hgone : s.streams.gone (s.streams.deliver s.queue).2.1 = s.streams.offers.map Prod.fst :=
    s.streams.gone_deliver s.queue
  refine ⟨?_, ?_, ?_⟩
  · have hbalanced := h.balanced.offerEach s.streams.parcels
    have hqueue : (s.streams.deliver s.queue).2.2 = s.queue.offerEach s.streams.parcels := by
      rw [Stream.Reassembler.queue_deliver, DeliveryQueue.offerEach,
        Stream.Reassembler.parcels, List.foldl_map]
    rw [← hqueue] at hbalanced
    exact hbalanced
  · have hoffered := h.offered
    show (s.offers ++ s.queue.offersOf s.streams.parcels).length =
      s.messages + (s.completed ++ s.streams.gone (s.streams.deliver s.queue).2.1).length
    rw [List.length_append, List.length_append, DeliveryQueue.length_offersOf, hgone,
      Stream.Reassembler.parcels, List.length_map, List.length_map]
    omega
  · show (s.offers ++ s.queue.offersOf s.streams.parcels).filterMap Offer.source =
      s.completed ++ s.streams.gone (s.streams.deliver s.queue).2.1
    have hbefore : s.offers.filterMap Offer.source = s.completed := h.completed
    rw [List.filterMap_append, DeliveryQueue.sources_offersOf,
      Stream.Reassembler.sources_parcels, hgone, hbefore]

/-- **What every event preserves.** -/
theorem Conserves.step (h : s.Conserves depth) (event : Event) : (s.step event).Conserves depth := by
  cases event with
  | route raw =>
    refine h.takeIn ?_
    have hone : s.node.router.parcels [raw] =
        (s.node.router.message? raw).toList.map fun d => (none, d) := by
      rw [Router.parcels, Router.messages, Router.messages, List.append_nil]
    rw [hone]
    exact s.node.router.queue_route raw
  | dropoff bundle =>
    rcases s.step_dropoff bundle with hstep | ⟨raws, hstep⟩
    · rwa [hstep]
    · rw [hstep]
      exact h.takeIn (s.node.router.queue_routeAll 0 raws)
  | reassemble => exact h.reassemble
  | receive => exact ⟨h.balanced.receive, h.offered, h.completed⟩
  | close => exact ⟨h.balanced.close, h.offered, h.completed⟩
  | abandon => exact ⟨h.balanced.abandon, h.offered, h.completed⟩
  | evict age => exact ⟨h.balanced, h.offered, h.completed⟩
  | wait now => exact ⟨h.balanced, h.offered, h.completed⟩
  | change other => exact ⟨h.balanced, h.offered, h.completed⟩

theorem conserves_run (h : s.Conserves depth) (events : List Event) :
    (s.run events).Conserves depth := by
  induction events generalizing s with
  | nil => exact h
  | cons event rest ih => exact ih (h.step event)

/-! ### Once and for all -/

/-- Every stream that was offered is remembered as finished, and none was offered twice. -/
structure OffersOnce (s : Account) : Prop where
  apart : s.streams.Apart
  finished : ∀ id ∈ s.sources, s.streams.finished.contains id = true
  nodup : s.sources.Nodup

omit [Cryptography] in
theorem offersOnce_start (n : Node) (depth : Nat) : (start n depth).OffersOnce :=
  ⟨fun id p h => (by cases h), List.forall_mem_nil _, .nil⟩

theorem OffersOnce.takeIn (h : s.OffersOnce) {raws : List Bytes} {node : Node}
    (hstreams : node.router.streams.Apart ∧
      node.router.streams.finished = s.streams.finished) : (s.takeIn raws node).OffersOnce := by
  refine ⟨hstreams.1, ?_, ?_⟩
  · rw [sources_takeIn]
    intro id hid
    show node.router.streams.finished.contains id = true
    rw [hstreams.2]
    exact h.finished id hid
  · rw [sources_takeIn]
    exact h.nodup

theorem OffersOnce.reassemble (h : s.OffersOnce) : (s.step .reassemble).OffersOnce := by
  have hsources : (s.step .reassemble).sources = s.sources ++ s.streams.offers.map Prod.fst := by
    show (s.offers ++ s.queue.offersOf s.streams.parcels).filterMap Offer.source = _
    rw [List.filterMap_append, DeliveryQueue.sources_offersOf,
      Stream.Reassembler.sources_parcels]
    rfl
  have hheld : ∀ id ∈ s.streams.offers.map Prod.fst, ∃ p,
      s.streams.pending.find? id = some p ∧ p.isComplete = true := by
    intro id hid
    obtain ⟨o, ho, rfl⟩ := List.mem_map.mp hid
    obtain ⟨p, hfind, hcomplete, -⟩ := Stream.Reassembler.mem_offers.mp ho
    exact ⟨p, hfind, hcomplete⟩
  have hfinished := s.streams.contains_finished_deliver s.queue
  refine ⟨h.apart.deliver s.queue, ?_, ?_⟩
  · rw [hsources]
    intro id hid
    show (s.streams.deliver s.queue).2.1.finished.contains id = true
    rw [hfinished]
    rcases List.mem_append.mp hid with hid | hid
    · rw [h.finished id hid, Bool.true_or]
    · obtain ⟨p, hfind, hcomplete⟩ := hheld id hid
      simp [hfind, Option.filter, hcomplete]
  · rw [hsources, List.nodup_append]
    refine ⟨h.nodup, ?_, ?_⟩
    · exact List.pairwise_map.mpr (Stream.Ledger.pairwise_offers s.streams)
    · -- What is complete now is held, so it was not finished before.
      intro id hid other hother heq
      subst heq
      obtain ⟨p, hfind, -⟩ := hheld id hother
      have hnone := h.apart id p hfind
      have hknown := h.finished id hid
      rw [Table.contains, hnone] at hknown
      cases hknown

/-- As long as no stream is dropped for its age, none is offered again. -/
theorem OffersOnce.step (h : s.OffersOnce) {event : Event} (hkept : ∀ age, event ≠ .evict age) :
    (s.step event).OffersOnce := by
  cases event with
  | route raw => exact h.takeIn (Router.streams_route h.apart raw)
  | dropoff bundle =>
    rcases s.step_dropoff bundle with hstep | ⟨raws, hstep⟩
    · rwa [hstep]
    · rw [hstep]
      exact h.takeIn (Router.streams_routeAll h.apart 0 raws)
  | reassemble => exact h.reassemble
  | evict age => exact absurd rfl (hkept age)
  | receive => exact ⟨h.apart, h.finished, h.nodup⟩
  | close => exact ⟨h.apart, h.finished, h.nodup⟩
  | abandon => exact ⟨h.apart, h.finished, h.nodup⟩
  | wait now => exact ⟨h.apart, h.finished, h.nodup⟩
  | change other => exact ⟨h.apart, h.finished, h.nodup⟩

theorem offersOnce_run (h : s.OffersOnce) {events : List Event}
    (hkept : ∀ age, .evict age ∉ events) : (s.run events).OffersOnce := by
  induction events generalizing s with
  | nil => exact h
  | cons event rest ih =>
    have hevent : ∀ age, event ≠ .evict age := fun age heq => hkept age (heq ▸ List.mem_cons_self)
    exact ih (h.step hevent) fun age hmem => hkept age (List.mem_cons_of_mem _ hmem)

/-- Nothing is lost before the reader goes away. -/
theorem lost_run (hlost : s.lost = []) {events : List Event} (hstays : .abandon ∉ events) :
    (s.run events).lost = [] := by
  induction events generalizing s with
  | nil => exact hlost
  | cons event rest ih =>
    refine ih ?_ fun hmem => hstays (List.mem_cons_of_mem _ hmem)
    cases event with
    | abandon => exact absurd List.mem_cons_self hstays
    | dropoff bundle =>
      rcases s.step_dropoff bundle with hstep | ⟨raws, hstep⟩ <;> rw [hstep] <;> exact hlost
    | _ => exact hlost

/-- **Nothing that was opened goes missing.** In every run of a node whose queue has some depth:
what the queue counts as delivered or dropped are the messages that were opened and the streams that
were completed; what was received, lost with a reader who went away, and waits, are the messages that
the queue took, in order; it refused one only without a reader, or when as many waited as it has room
for; and unless streams are dropped for their age, none is offered twice. -/
theorem conservation (n : Node) (depth : Nat) (events : List Event) :
    let s := (start n depth).run events
    s.queue.delivered + s.queue.dropped = s.messages + s.completed.length ∧
      s.sources = s.completed ∧
      s.received ++ s.lost ++ s.queue.waiting =
        (s.offers.filter Offer.isAccepted).map Offer.delivery ∧
      (.abandon ∉ events → s.lost = []) ∧
      s.queue.delivered = s.offers.countP Offer.isAccepted ∧
      s.queue.dropped = s.offers.countP (fun o => !o.isAccepted) ∧
      s.queue.waiting.length ≤ max depth 1 ∧
      (∀ o ∈ s.offers, o.isAccepted = false →
        o.queue.isOpen = false ∨ o.queue.waiting.length = max depth 1) ∧
      ((∀ age, .evict age ∉ events) → s.sources.Nodup) := by
  intro s
  have h : s.Conserves depth := conserves_run (conserves_start n depth) events
  have hcount : s.offers.length =
      s.offers.countP Offer.isAccepted + s.offers.countP fun o => !o.isAccepted := by
    simpa using List.length_eq_countP_add_countP (l := s.offers) Offer.isAccepted
  have hoffered := h.offered
  refine ⟨?_, h.completed, h.balanced.inOrder, lost_run rfl, h.balanced.delivered,
    h.balanced.dropped, h.balanced.room, h.balanced.refused, fun hkept => ?_⟩
  · rw [h.balanced.delivered, h.balanced.dropped]
    omega
  · exact (offersOnce_run (offersOnce_start n depth) hkept).nodup

end Account

end Courier
