import Mathlib
import Courier.Proofs.Envelope
import Courier.Surface

/-!
## Outboxes grow at their end

Whatever a node does short of clearing its outbox, it keeps its routing key, its settings and its
transports, and its outbox only grows: every entry that is added has a later stamp than all before
it, and so stands behind them. This holds as long as the clock has not run to the last time there
is.

* `Router.Timely`: an outbox whose entries were stamped by the clock.
* `Router.Grows`, `Node.Grows`: how a router and a node change; both are closed under composition.
* `Router.grows_route`, `Node.grows_handle`, `Node.grows_sendChannel`: what a node does makes it
  grow.
-/

namespace Courier

/-- An entry that is later than all others goes to the end. -/
theorem Outbox.append_of_le {e : OutboxEntry} {o : Outbox} (h : ∀ d ∈ o, d.time ≤ e.time) :
    o.append e = o ++ [e] := by
  induction o with
  | nil => rfl
  | cons d rest ih =>
    have hd := h d List.mem_cons_self
    rw [append, if_neg (Int64.not_lt.mpr hd), ih fun x hx => h x (List.mem_cons_of_mem _ hx)]
    rfl

/-! ### Routers -/

namespace Router

/-- The entries of the outbox have distinct stamps that were taken from the clock. -/
structure Timely (r : Router) : Prop where
  stamped_nonneg : 0 ≤ r.clock.stamped
  positive : ∀ e ∈ r.backend.store.outbox, 0 < e.time
  within : ∀ e ∈ r.backend.store.outbox, e.time ≤ r.clock.stamped
  sorted : r.backend.store.outbox.Pairwise fun a b => a.time < b.time

/-- How a router changes: its routing key, its rules and the services of its store stay, and entries
are added to its outbox with later stamps than all before. -/
structure Grows (r r' : Router) : Prop where
  routing : r'.identity.routing = r.identity.routing
  settings : r'.settings = r.settings
  down : r'.backend.down = r.backend.down
  stamped : r.clock.stamped ≤ r'.clock.stamped
  outbox : r.Timely → r'.clock.stamped ≠ Time.last →
    r'.Timely ∧ ∃ new, r'.backend.store.outbox = r.backend.store.outbox ++ new ∧
      ∀ e ∈ new, r.clock.stamped < e.time

/-- What leaves the outbox and the clock alone. -/
theorem Grows.of_eq {r r' : Router} (hrouting : r'.identity.routing = r.identity.routing)
    (hsettings : r'.settings = r.settings) (hdown : r'.backend.down = r.backend.down)
    (houtbox : r'.backend.store.outbox = r.backend.store.outbox) (hclock : r'.clock = r.clock) :
    Grows r r' := by
  refine ⟨hrouting, hsettings, hdown, by rw [hclock]; exact Int64.le_refl _, fun ht _ => ?_⟩
  refine ⟨⟨?_, ?_, ?_, ?_⟩, [], by rw [houtbox, List.append_nil], List.forall_mem_nil _⟩
  · rw [hclock]
    exact ht.stamped_nonneg
  · rw [houtbox]
    exact ht.positive
  · rw [houtbox, hclock]
    exact ht.within
  · rw [houtbox]
    exact ht.sorted

theorem Grows.refl (r : Router) : Grows r r := .of_eq rfl rfl rfl rfl rfl

/-- The router that a step leaves behind. -/
theorem Grows.of_snd {α : Type} {r r' : Router} {a : α} {result : α × Router}
    (h : Grows r result.2) (hresult : result = (a, r')) : Grows r r' := by
  rwa [hresult] at h

theorem Grows.trans {r r' r'' : Router} (h : Grows r r') (h' : Grows r' r'') : Grows r r'' := by
  refine ⟨h'.routing.trans h.routing, h'.settings.trans h.settings, h'.down.trans h.down,
    Int64.le_trans h.stamped h'.stamped, fun ht hlast => ?_⟩
  obtain ⟨ht', new, hnew, hlater⟩ := h.outbox ht (Time.ne_last_of_le h'.stamped hlast)
  obtain ⟨ht'', new', hnew', hlater'⟩ := h'.outbox ht' hlast
  refine ⟨ht'', new ++ new', by rw [hnew', hnew, List.append_assoc], fun e he => ?_⟩
  rcases List.mem_append.mp he with he | he
  · exact hlater e he
  · exact Int64.lt_of_le_of_lt h.stamped (hlater' e he)

/-- All that posting an entry changes. -/
theorem post_eq_ok {r r' : Router} {label : String} {data : Bytes}
    (h : r.post label data = .ok r') :
    r' = { r with
      backend.store.outbox := r.backend.store.outbox.append ⟨label, data, r.clock.stamp.1⟩
      clock := r.clock.stamp.2 } := by
  unfold post Backend.append Backend.attempt at h
  dsimp only at h
  split at h
  · cases h
  · exact (Except.ok.inj h).symm

/-- A posted entry has a stamp of its own. -/
theorem grows_post {r r' : Router} {label : String} {data : Bytes}
    (h : r.post label data = .ok r') : Grows r r' := by
  obtain rfl := post_eq_ok h
  have hle : r.clock.stamped ≤ r.clock.stamp.1 := Clock.le_next_stamped _ _
  refine ⟨rfl, rfl, rfl, hle, fun ht hlast => ?_⟩
  have hlt : r.clock.stamped < r.clock.stamp.1 := Clock.lt_next_of_ne hlast
  have hwithin : ∀ d ∈ r.backend.store.outbox, d.time ≤ r.clock.stamp.1 := fun d hd =>
    Int64.le_trans (ht.within d hd) hle
  have houtbox := Outbox.append_of_le (e := ⟨label, data, r.clock.stamp.1⟩) hwithin
  refine ⟨⟨Int64.le_trans ht.stamped_nonneg hle, ?_, ?_, ?_⟩, [_], houtbox, ?_⟩
  · dsimp only
    rw [houtbox]
    refine List.forall_mem_append.mpr ⟨ht.positive, List.forall_mem_singleton.mpr ?_⟩
    exact Int64.lt_of_le_of_lt ht.stamped_nonneg hlt
  · dsimp only
    rw [houtbox]
    exact List.forall_mem_append.mpr ⟨hwithin, List.forall_mem_singleton.mpr (Int64.le_refl _)⟩
  · dsimp only
    rw [houtbox]
    refine List.pairwise_append.mpr ⟨ht.sorted, List.pairwise_singleton _ _, fun d hd => ?_⟩
    exact List.forall_mem_singleton.mpr (Int64.lt_of_le_of_lt (ht.within d hd) hlt)
  · exact List.forall_mem_singleton.mpr hlt

/-- A store in service takes every entry. -/
theorem post_of_up (r : Router) (hup : StoreCall.appendOutbox.name ∉ r.backend.down)
    (label : String) (data : Bytes) :
    r.post label data = .ok { r with
      backend.store.outbox := r.backend.store.outbox.append ⟨label, data, r.clock.stamp.1⟩
      clock := r.clock.stamp.2 } := by
  unfold post Backend.append Backend.attempt
  dsimp only
  rw [if_neg (by simpa using hup)]
  rfl

/-- What can be read as an envelope can be remembered. -/
theorem remember_of_read (r : Router) {raw : Bytes} {e : Envelope} {fp : Fingerprint}
    (h : Envelope.read? raw = some (e, fp)) :
    r.remember raw = .ok { r with recent := r.recent.insert fp } := by
  obtain ⟨hparse, hfp⟩ := Envelope.read?_eq_some_iff.mp h
  unfold remember
  rw [hparse]
  show (e.fingerprint >>= _) = _
  rw [hfp]
  rfl

/-- All that remembering an envelope changes. -/
theorem remember_eq_ok {r r' : Router} {raw : Bytes} (h : r.remember raw = .ok r') :
    ∃ e fp, Envelope.read? raw = some (e, fp) ∧ r' = { r with recent := r.recent.insert fp } := by
  cases hparse : Envelope.parse raw with
  | error error =>
    unfold remember at h
    rw [hparse] at h
    cases h
  | ok e =>
    cases hfp : e.fingerprint with
    | error error =>
      unfold remember at h
      rw [hparse] at h
      have herror : (e.fingerprint >>= fun fp =>
          (pure { r with recent := r.recent.insert fp } : Except WireError Router)) = .ok r' := h
      rw [hfp] at herror
      cases herror
    | ok fp =>
      have hread := Envelope.read?_eq_some_iff.mpr ⟨hparse, hfp⟩
      rw [r.remember_of_read hread] at h
      exact ⟨e, fp, hread, (Except.ok.inj h).symm⟩

/-- What a router remembers plays no part. -/
theorem grows_remember {r r' : Router} {raw : Bytes} (h : r.remember raw = .ok r') :
    Grows r r' := by
  obtain ⟨e, fp, -, rfl⟩ := remember_eq_ok h
  exact .of_eq rfl rfl rfl rfl rfl

theorem grows_consume {r r' : Router} {e : Envelope} {mailClass : MailClass} {plaintext : Bytes}
    (h : r.consume e mailClass plaintext = .ok r') : Grows r r' := by
  unfold consume at h
  split at h
  · split at h
    · cases h
    · obtain rfl := Except.ok.inj h
      exact .of_eq rfl rfl rfl rfl rfl
  · obtain rfl := Except.ok.inj h
    exact .of_eq rfl rfl rfl rfl rfl

theorem grows_redirectTo (r : Router) (raw : Bytes) (count : Nat) (targets : List String) :
    Grows r (r.redirectTo raw count targets).2 := by
  induction targets generalizing r count with
  | nil => exact .refl r
  | cons target rest ih =>
    unfold redirectTo
    split
    · exact ih r count
    · split
      · exact .refl r
      · rename_i hpost
        exact (grows_post hpost).trans (ih _ _)

theorem grows_forward (r : Router) (e : Envelope) (raw : Bytes) :
    Grows r (r.forward e raw).2 := by
  unfold forward
  dsimp only
  split
  · exact grows_redirectTo _ _ _ _
  · split
    · exact .refl r
    · rename_i hpost
      exact grows_post hpost

theorem grows_passOn (r : Router) (e : Envelope) (raw : Bytes) (consumed : Option MailClass) :
    Grows r (r.passOn e raw consumed).2 := by
  unfold passOn
  split
  · have h := r.grows_forward e raw
    dsimp only
    split <;> exact h
  · exact .refl r

variable [Cryptography]

theorem grows_routeNew (r : Router) (e : Envelope) (raw : Bytes) :
    Grows r (r.routeNew e raw).2 := by
  unfold routeNew
  split
  · exact .refl r
  · exact grows_passOn _ _ _ _
  · split
    · exact .refl r
    · rename_i hconsume
      exact (grows_consume hconsume).trans (grows_passOn _ _ _ _)

/-- Routing an envelope. -/
theorem grows_route (r : Router) (raw : Bytes) : Grows r (r.route raw).2 := by
  unfold route
  split
  · exact .refl r
  · split
    · exact .refl r
    · rename_i e _ fp _
      have hnoted : Grows r { r with recent := (r.recent.check fp).2 } :=
        .of_eq rfl rfl rfl rfl rfl
      dsimp only
      split
      · exact hnoted
      · exact hnoted.trans (grows_routeNew _ _ _)

theorem grows_routeAll (r : Router) (count : Nat) (raws : List Bytes) :
    Grows r (r.routeAll count raws).2 := by
  induction raws generalizing r count with
  | nil => exact .refl r
  | cons raw rest ih =>
    have hroute := r.grows_route raw
    unfold routeAll
    split
    · rename_i hr
      exact (hroute.of_snd hr).trans (ih _ _)
    · rename_i hr
      exact (hroute.of_snd hr).trans (ih _ _)

end Router

/-! ### Nodes -/

namespace Node

/-- How a node changes by what it does besides exchanging mail of its own accord: its router
grows, and it keeps its settings, its transports and what it knows about its peers. -/
structure Grows (n n' : Node) : Prop where
  router : n.router.Grows n'.router
  settings : n'.settings = n.settings
  transports : n'.transports = n.transports
  peers : n'.peers = n.peers

theorem Grows.refl (n : Node) : Grows n n := ⟨.refl _, rfl, rfl, rfl⟩

theorem Grows.trans {n n' n'' : Node} (h : Grows n n') (h' : Grows n' n'') : Grows n n'' :=
  ⟨h.router.trans h'.router, h'.settings.trans h.settings, h'.transports.trans h.transports,
    h'.peers.trans h.peers⟩

/-- The node that a step leaves behind. -/
theorem Grows.of_snd {α : Type} {n n' : Node} {a : α} {result : α × Node}
    (h : Grows n result.2) (hresult : result = (a, n')) : Grows n n' := by
  rwa [hresult] at h

theorem Grows.of_router {n : Node} {r : Router} (h : n.router.Grows r) :
    Grows n { n with router := r } := ⟨h, rfl, rfl, rfl⟩

/-- What a node draws at random plays no part. -/
theorem grows_entropy (n : Node) (entropy : Entropy) : Grows n { n with entropy := entropy } :=
  ⟨.refl _, rfl, rfl, rfl⟩

/-- Records other than those of the outbox play no part. -/
theorem grows_withBackend {n : Node} {b : Backend} (hdown : b.down = n.backend.down)
    (houtbox : b.store.outbox = n.backend.store.outbox) : Grows n (n.withBackend b) :=
  .of_router (.of_eq rfl rfl hdown houtbox rfl)

theorem grows_putRecord {α : Type} [Record α] (n : Node) (record : α)
    (houtbox : ∀ s (t : Table String α), (Record.withTable s t).outbox = s.outbox) :
    Grows n (n.putRecord record).2 := by
  unfold putRecord
  split
  · exact .refl n
  · rename_i b hput
    unfold Backend.put Backend.attempt at hput
    split at hput
    · cases hput
    · obtain rfl := Except.ok.inj hput
      exact grows_withBackend rfl (houtbox _ _)

theorem grows_deleteRecord {α : Type} [RecordValue α] (n : Node) (name : String)
    (houtbox : ∀ s (t : Table String α), (Record.withTable s t).outbox = s.outbox) :
    Grows n (n.deleteRecord name α).2 := by
  have hdelete : ∀ {found : Bool} {b : Backend}, n.backend.delete α name = .ok (found, b) →
      Grows n (n.withBackend b) := by
    intro found b hdelete
    unfold Backend.delete Backend.attempt at hdelete
    dsimp only at hdelete
    split at hdelete
    · cases hdelete
    · cases hdelete
      exact grows_withBackend rfl (houtbox _ _)
  unfold deleteRecord
  split
  · exact .refl n
  · rename_i h
    exact hdelete h
  · rename_i h
    exact hdelete h

variable [Cryptography]

/-! ### Sending -/

theorem grows_emitPiece (n : Node) (recipient : PublicKey) (channel : Option String)
    (piece : Stream.Piece) : Grows n (n.emitPiece recipient channel piece).2 := by
  have hdraw : Grows n n.drawSecret.2 := n.grows_entropy _
  unfold emitPiece
  dsimp only
  split
  · exact hdraw
  · split
    · exact hdraw
    · rename_i hremember
      have hremembered := hdraw.trans (.of_router (Router.grows_remember hremember))
      split
      · exact hremembered
      · rename_i hpost
        exact hremembered.trans (.of_router (Router.grows_post hpost))

theorem grows_emitAll (n : Node) (recipient : PublicKey) (channel : Option String)
    (pieces : List Stream.Piece) : Grows n (n.emitAll recipient channel pieces).2 := by
  induction pieces generalizing n with
  | nil => exact .refl n
  | cons piece rest ih =>
    have hpiece := n.grows_emitPiece recipient channel piece
    unfold emitAll
    split
    · rename_i hemit
      exact hpiece.of_snd hemit
    · rename_i hemit
      exact (hpiece.of_snd hemit).trans (ih _)

theorem grows_emit (n : Node) (recipient : PublicKey) (channel : Option String) (content : Bytes) :
    Grows n (n.emit recipient channel content).2 := by
  unfold emit
  split
  · exact .refl n
  · dsimp only
    split
    · exact .refl n
    · rename_i pieces _
      have hall := (n.grows_entropy n.entropy.draw32.2).trans
        (grows_emitAll _ recipient channel pieces)
      split
      · rename_i hemit
        exact hall.of_snd hemit
      · rename_i hemit
        exact hall.of_snd hemit

theorem grows_send (n : Node) (contact : String) (content : Bytes) :
    Grows n (n.send contact content).2 := by
  unfold send
  split
  · exact .refl n
  · exact .refl n
  · exact grows_emit _ _ _ _

theorem grows_sendChannel (n : Node) (channel : String) (content : Bytes) :
    Grows n (n.sendChannel channel content).2 := by
  unfold sendChannel
  split
  · exact .refl n
  · exact .refl n
  · exact grows_emit _ _ _ _

/-- Taking another content key leaves the routing key. -/
theorem grows_loadProfile (n : Node) (name : String) : Grows n (n.loadProfile name).2 := by
  unfold loadProfile
  split
  · exact .refl n
  · exact .refl n
  · exact .of_router (.of_eq rfl rfl rfl rfl rfl)

/-! ### Serving -/

theorem grows_pickup (n : Node) (caller : PublicKey) (since : Time) (maxBytes : Nat)
    (channels : List String) : Grows n (n.pickup caller since maxBytes channels).2 := by
  unfold pickup
  split
  · exact .refl n
  · dsimp only
    split
    · exact .refl n
    · exact n.grows_entropy _

theorem grows_dropoff (n : Node) (b : Bundle) : Grows n (n.dropoff b).2 := by
  unfold dropoff
  split
  · exact .refl n
  · exact .of_router (Router.grows_routeAll _ _ _)

omit [Cryptography] in
theorem grows_countResult {ε : Type} {n : Node} {wrap : ε → SurfaceError}
    {r : Except ε Nat × Node} (h : Grows n r.2) : Grows n (countResult wrap r).2 := by
  unfold countResult
  split <;> exact h

theorem grows_servePickup (n : Node) (caller : PublicKey) (since : Time) (asked : Nat)
    (channels : List String) : Grows n (n.servePickup caller since asked channels).2 := by
  unfold servePickup
  dsimp only
  split
  · rename_i hpickup
    exact (grows_pickup _ _ _ _ _).of_snd hpickup
  · rename_i hpickup
    exact (grows_pickup _ _ _ _ _).of_snd hpickup

theorem grows_serve (n : Node) (request : Request) : Grows n (n.serve request).2 := by
  cases request with
  | id => exact .refl n
  | pickup caller since maxBytes channels => exact grows_servePickup _ _ _ _ _
  | dropoff bundle => exact grows_countResult (n.grows_dropoff bundle)
  | list kind => exact .refl n
  | get kind name => exact .refl n
  | putChannel record => exact n.grows_putRecord record fun _ _ => rfl
  | putContact record => exact n.grows_putRecord record fun _ _ => rfl
  | putProfile record => exact n.grows_putRecord record fun _ _ => rfl
  | putPeer record => exact n.grows_putRecord record fun _ _ => rfl
  | delete kind name =>
    cases kind with
    | channel => exact n.grows_deleteRecord (α := Channel) name fun _ _ => rfl
    | contact => exact n.grows_deleteRecord (α := Contact) name fun _ _ => rfl
    | profile => exact n.grows_deleteRecord (α := Profile) name fun _ _ => rfl
    | peer => exact n.grows_deleteRecord (α := Peer) name fun _ _ => rfl
  | loadProfile name =>
    have hload := n.grows_loadProfile name
    unfold serve
    dsimp only
    split
    · rename_i hresult
      exact hload.of_snd hresult
    · rename_i hresult
      exact hload.of_snd hresult
  | send contact content => exact grows_countResult (n.grows_send contact content)
  | sendChannel channel content => exact grows_countResult (n.grows_sendChannel channel content)

/-- **Serving any call makes a node grow.** -/
theorem grows_handle (n : Node) (surface : Surface) (call : Call) :
    Grows n (n.handle surface call).2 := by
  have hdispatch : Grows n (n.dispatch surface call).2 := by
    unfold dispatch
    split
    · exact .refl n
    · split
      · exact .refl n
      · exact n.grows_serve _
  unfold handle
  split
  · rename_i hresult
    exact hdispatch.of_snd hresult
  · rename_i hresult
    exact hdispatch.of_snd hresult

end Node

end Courier
