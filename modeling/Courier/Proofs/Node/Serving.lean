import Mathlib
import Courier.Proofs.Exchange.Calls
import Courier.Proofs.Node.Echo
import Courier.Proofs.Router.Relaying

/-!
## What serving a call can change

A call that fails has drawn a secret at most: all that a node holds is as it was, on whichever
surface the call came in and whatever was wrong with it. For a send that is because a content whose
first envelope can be made goes out as a whole.

Everyone may ask a node for its key, ask it for mail, and bring it mail. Only the last does more than
draw a secret: the envelopes in the bundle are routed. So whatever everyone sends to a node, in
whatever order, it keeps its keys, its records and what it knows about its peers; its outbox loses
nothing; and what its outbox gains are copies of envelopes that were brought to it in bundles for its
routing key.

* `Node.OnlyDraws`: a node has drawn secrets and done nothing else.
* `Node.handle_failed`: what a call that fails leaves behind.
* `Call.Brings`: a call brings a node an envelope.
* `Node.handle_everyone_cases`: all that a call of everyone can do.
* `Node.serveEveryone_keeps`: what a node has after any such calls.
-/

namespace Courier

namespace Node

/-- A node is as it was, but may have drawn secrets. -/
def OnlyDraws (n n' : Node) : Prop := ∃ entropy, n' = { n with entropy := entropy }

theorem OnlyDraws.refl (n : Node) : n.OnlyDraws n := ⟨n.entropy, rfl⟩

theorem OnlyDraws.trans {n n' n'' : Node} (h : n.OnlyDraws n') (h' : n'.OnlyDraws n'') :
    n.OnlyDraws n'' := by
  obtain ⟨entropy, rfl⟩ := h
  obtain ⟨entropy', rfl⟩ := h'
  exact ⟨entropy', rfl⟩

theorem onlyDraws_drawSecret (n : Node) : n.OnlyDraws n.drawSecret.2 := ⟨_, rfl⟩

/-! ### Failing to keep or to drop a record -/

theorem putRecord_failed {α : Type} [Record α] {n n' : Node} {record : α} {e : SurfaceError}
    (h : n.putRecord record = (.error e, n')) : n' = n := by
  unfold putRecord at h
  split at h <;> cases h
  rfl

/-- Dropping a record that is not there leaves the others, where a store takes its own records back
as they are. -/
theorem deleteRecord_failed {α : Type} [RecordValue α] {n n' : Node} {name : String}
    {e : SurfaceError} (hsame : ∀ s : Store, Record.withTable s (Record.table s : Table String α) = s)
    (h : n.deleteRecord name α = (.error e, n')) : n' = n := by
  unfold deleteRecord at h
  split at h
  · cases h
    rfl
  · rename_i b hdelete
    cases h
    unfold Backend.delete Backend.attempt at hdelete
    dsimp only at hdelete
    split at hdelete
    · cases hdelete
    · obtain ⟨hmissing, rfl⟩ := Prod.mk.inj (Except.ok.inj hdelete)
      have herase := Table.erase_of_not_contains hmissing
      have hstore : (n.backend.store.delete α name).2 = n.backend.store := by
        rw [Store.delete]
        dsimp only
        rw [herase]
        exact hsame n.backend.store
      rw [hstore]
      rfl
  · cases h

variable [Cryptography]

/-! ### Failing to send -/

section Sending

variable [Cryptography.Lawful]

/-- A piece that cannot be sent is one that no envelope can be made for. -/
theorem onlyDraws_emitPiece {n n' : Node} (hup : StoreCall.appendOutbox.name ∉ n.backend.down)
    {recipient : PublicKey} {channel : Option String} {piece : Stream.Piece} {e : NodeError}
    (hflags : (piece.flags.chunked && piece.flags.streamHeader) = false)
    (h : n.emitPiece recipient channel piece = (.error e, n')) : n.OnlyDraws n' := by
  cases hclose : Envelope.close piece.plaintext recipient n.drawSecret.1 piece.flags channel with
  | error error =>
    unfold emitPiece at h
    dsimp only at h
    rw [hclose] at h
    cases h
    exact n.onlyDraws_drawSecret
  | ok data =>
    obtain ⟨m, hemit⟩ :=
      exists_emitPiece hup recipient (Envelope.bearable_of_close hclose) hflags
    rw [hemit] at h
    cases h

/-- Once an envelope can be made for the first of some pieces, the others go out as well. -/
theorem onlyDraws_emitAll {n n' : Node} (hup : StoreCall.appendOutbox.name ∉ n.backend.down)
    {recipient : PublicKey} {channel : Option String} {pieces : List Stream.Piece} {e : NodeError}
    (hflags : ∀ p ∈ pieces, (p.flags.chunked && p.flags.streamHeader) = false)
    (h : n.emitAll recipient channel pieces = (.error e, n')) : n.OnlyDraws n' := by
  cases pieces with
  | nil => cases h
  | cons piece rest =>
    unfold emitAll at h
    split at h
    · rename_i hemit
      cases h
      exact onlyDraws_emitPiece hup (hflags piece List.mem_cons_self) hemit
    · rename_i m hemit
      obtain ⟨-, sent, hsent⟩ := emits_emitPiece hemit
      -- The tag that the first envelope bears, the others can bear too.
      obtain ⟨p, -, hclose⟩ := hsent.closes 0 sent rfl
      have hdown := ((n.grows_emitPiece recipient channel piece).of_snd hemit).router.down
      have hup' : StoreCall.appendOutbox.name ∉ m.backend.down := by
        rw [backend, hdown]
        exact hup
      obtain ⟨m', hrest⟩ := exists_emitAll hup' recipient (Envelope.bearable_of_close hclose)
        fun p hp => hflags p (List.mem_cons_of_mem _ hp)
      rw [hrest] at h
      cases h

theorem onlyDraws_emit {n n' : Node} (hup : StoreCall.appendOutbox.name ∉ n.backend.down)
    {recipient : PublicKey} {channel : Option String} {content : Bytes} {e : NodeError}
    (h : n.emit recipient channel content = (.error e, n')) : n.OnlyDraws n' := by
  unfold emit at h
  split at h
  · cases h
    exact .refl n
  · dsimp only at h
    split at h
    · cases h
      exact .refl n
    · rename_i pieces hpieces
      split at h
      · rename_i hemit
        cases h
        have hflags := flags_of_pieces hpieces
        have hstream : n.OnlyDraws { n with entropy := n.entropy.draw32.2 } := ⟨_, rfl⟩
        exact hstream.trans (onlyDraws_emitAll (n := { n with entropy := n.entropy.draw32.2 })
          hup hflags hemit)
      · cases h

theorem onlyDraws_send {n n' : Node} (hup : StoreCall.appendOutbox.name ∉ n.backend.down)
    {contact : String} {content : Bytes} {e : NodeError}
    (h : n.send contact content = (.error e, n')) : n.OnlyDraws n' := by
  unfold send at h
  split at h
  · cases h
    exact .refl n
  · cases h
    exact .refl n
  · exact onlyDraws_emit hup h

theorem onlyDraws_sendChannel {n n' : Node}
    (hup : StoreCall.appendOutbox.name ∉ n.backend.down) {channel : String} {content : Bytes}
    {e : NodeError} (h : n.sendChannel channel content = (.error e, n')) : n.OnlyDraws n' := by
  unfold sendChannel at h
  split at h
  · cases h
    exact .refl n
  · cases h
    exact .refl n
  · exact onlyDraws_emit hup h

end Sending

/-! ### Failing otherwise -/

theorem onlyDraws_servePickup (n : Node) (caller : PublicKey) (since : Time) (asked : Nat)
    (channels : List String) : n.OnlyDraws (n.servePickup caller since asked channels).2 := by
  have hpickup : ∀ maxBytes, n.OnlyDraws (n.pickup caller since maxBytes channels).2 := by
    intro maxBytes
    unfold pickup
    split
    · exact .refl n
    · dsimp only
      split
      · exact .refl n
      · exact n.onlyDraws_drawSecret
  unfold servePickup
  dsimp only
  split
  · rename_i hresult
    rw [← congrArg Prod.snd hresult]
    exact hpickup _
  · rename_i hresult
    rw [← congrArg Prod.snd hresult]
    exact hpickup _

/-- A bundle that cannot be opened brings nothing. -/
theorem dropoff_failed {n n' : Node} {b : Bundle} {e : SyncError}
    (h : n.dropoff b = (.error e, n')) : n' = n := by
  unfold dropoff at h
  split at h <;> cases h
  rfl

theorem loadProfile_failed {n n' : Node} {name : String} {e : NodeError}
    (h : n.loadProfile name = (.error e, n')) : n' = n := by
  unfold loadProfile at h
  split at h <;> cases h <;> rfl

omit [Cryptography] in
theorem countResult_eq_error {ε : Type} {wrap : ε → SurfaceError} {r : Except ε Nat × Node}
    {e : SurfaceError} {n' : Node} (h : countResult wrap r = (.error e, n')) :
    ∃ error, r = (.error error, n') := by
  unfold countResult at h
  split at h <;> cases h
  exact ⟨_, rfl⟩

/-- A request that fails, of whatever kind, leaves all as it was. -/
theorem onlyDraws_serve [Cryptography.Lawful] {n n' : Node}
    (hup : StoreCall.appendOutbox.name ∉ n.backend.down) {request : Request} {e : SurfaceError}
    (h : n.serve request = (.error e, n')) : n.OnlyDraws n' := by
  have hsame : n' = n → n.OnlyDraws n' := fun heq => heq ▸ .refl n
  cases request with
  | id => cases h
  | pickup caller since maxBytes channels =>
    have hpickup := n.onlyDraws_servePickup caller since maxBytes channels
    rwa [show n.servePickup caller since maxBytes channels = (.error e, n') from h] at hpickup
  | dropoff bundle =>
    obtain ⟨error, hdropoff⟩ := countResult_eq_error h
    exact hsame (dropoff_failed hdropoff)
  | list kind => exact hsame (congrArg Prod.snd h).symm
  | get kind name => exact hsame (congrArg Prod.snd h).symm
  | putChannel record => exact hsame (putRecord_failed h)
  | putContact record => exact hsame (putRecord_failed h)
  | putProfile record => exact hsame (putRecord_failed h)
  | putPeer record => exact hsame (putRecord_failed h)
  | delete kind name =>
    cases kind with
    | channel => exact hsame (deleteRecord_failed (α := Channel) (fun _ => rfl) h)
    | contact => exact hsame (deleteRecord_failed (α := Contact) (fun _ => rfl) h)
    | profile => exact hsame (deleteRecord_failed (α := Profile) (fun _ => rfl) h)
    | peer => exact hsame (deleteRecord_failed (α := Peer) (fun _ => rfl) h)
  | loadProfile name =>
    unfold serve at h
    dsimp only at h
    split at h
    · rename_i hload
      cases h
      exact hsame (loadProfile_failed hload)
    · cases h
  | send contact content =>
    obtain ⟨error, hsend⟩ := countResult_eq_error h
    exact onlyDraws_send hup hsend
  | sendChannel channel content =>
    obtain ⟨error, hsend⟩ := countResult_eq_error h
    exact onlyDraws_sendChannel hup hsend

theorem handle_eq (n : Node) (surface : Surface) (call : Call) :
    n.handle surface call =
      (match (n.dispatch surface call).1 with
        | .error e => .err e.message
        | .ok v => .ok v, (n.dispatch surface call).2) := by
  unfold handle
  split <;> rename_i hresult <;> rw [hresult]

/-- **A call that fails changes nothing.** If a node whose store takes entries answers a call with an
error, on whichever surface and whatever the call, it has at most drawn secrets: its records, its
outbox and its clock, its keys, what it remembers, its streams and its queue, and what it knows about
its peers are all as before. -/
theorem handle_failed [Cryptography.Lawful] {n : Node}
    (hup : StoreCall.appendOutbox.name ∉ n.backend.down) {surface : Surface} {call : Call}
    (h : (n.handle surface call).1.error ≠ "") : n.OnlyDraws (n.handle surface call).2 := by
  rw [handle_eq] at h ⊢
  cases hdispatch : n.dispatch surface call with
  | mk result n' =>
    rw [hdispatch] at h
    cases result with
    | ok v => exact absurd rfl h
    | error e =>
      unfold dispatch at hdispatch
      split at hdispatch
      · cases hdispatch
        exact .refl n
      · split at hdispatch
        · cases hdispatch
          exact .refl n
        · exact onlyDraws_serve hup hdispatch

omit [Cryptography] in
/-- No envelope can be made for a channel without a name, and nothing is left of the attempt. -/
theorem handle_failed_nameless :
    letI := Cryptography.transparent
    letI n := (made 4096).withBackend { store := Store.put {} (⟨"", Router.sharedKey⟩ : Channel) }
    letI call : Call := ⟨.sendChannel, [.string "", .bytes [7]]⟩
    (n.handle .owner call).1.error = "channel flag set with an empty channel name" ∧
      n.OnlyDraws (n.handle .owner call).2 := by
  let _ := Cryptography.transparent
  have := Cryptography.lawful_transparent
  refine ⟨rfl, handle_failed List.not_mem_nil ?_⟩
  decide

end Node

/-! ### Calls of everyone -/

namespace ArgumentReader

/-- Arguments that were read one after the other. -/
theorem exists_of_run_bind {α β : Type} {x : ArgumentReader α} {f : α → ArgumentReader β}
    {args : Arguments} {b : β} (h : ((x >>= f).run args).1 = .ok b) :
    ∃ a args', ((f a).run args').1 = .ok b := by
  cases hx : x.run args with
  | mk result args' =>
    cases result with
    | error error =>
      have herror : ((x >>= f).run args).1 = .error error := by
        show ((let p := x.run args; ExceptT.bindCont f p.1 p.2) : Except CodecError β × _).1 = _
        rw [hx]
        rfl
      rw [herror] at h
      cases h
    | ok a =>
      rw [run_bind hx] at h
      exact ⟨a, args', h⟩

end ArgumentReader

namespace Request

open ArgumentReader (exists_of_run_bind)

/-- What everyone may ask for. -/
theorem ofCall_public_cases {call : Call} {request : Request}
    (hpublic : call.action.isPublic = true) (h : ofCall call = .ok request) :
    request = .id ∨ (∃ caller since maxBytes channels,
      request = .pickup caller since maxBytes channels) ∨
    (call.action = .dropoff ∧ ∃ b, request = .dropoff b) := by
  unfold ofCall at h
  cases haction : call.action with
  | id =>
    rw [haction] at h
    obtain rfl := Except.ok.inj h
    exact .inl rfl
  | pickup =>
    rw [haction] at h
    obtain ⟨caller, _, h⟩ := exists_of_run_bind h
    obtain ⟨since, _, h⟩ := exists_of_run_bind h
    obtain ⟨maxBytes, _, h⟩ := exists_of_run_bind h
    obtain ⟨channels, _, h⟩ := exists_of_run_bind h
    obtain rfl := Except.ok.inj h
    exact .inr (.inl ⟨_, _, _, _, rfl⟩)
  | dropoff =>
    rw [haction] at h
    obtain ⟨b, _, h⟩ := exists_of_run_bind h
    obtain rfl := Except.ok.inj h
    exact .inr (.inr ⟨rfl, b, rfl⟩)
  | _ =>
    rw [haction] at hpublic
    cases hpublic

end Request

variable [Cryptography]

/-- A call brings a node an envelope, in a bundle that opens with its routing key. -/
def Call.Brings (routing : Keypair) (raw : Bytes) (call : Call) : Prop :=
  call.action = .dropoff ∧ ∃ b envelopes, Request.ofCall call = .ok (.dropoff b) ∧
    b.envelopes routing = .ok envelopes ∧ raw ∈ envelopes

namespace Node

/-- **All that a call of everyone can do**: draw a secret, or have the envelopes in a bundle routed. -/
theorem handle_everyone_cases (n : Node) (call : Call) :
    n.OnlyDraws (n.handle .everyone call).2 ∨
    ∃ envelopes, (∀ raw ∈ envelopes, call.Brings n.router.identity.routing raw) ∧
      (n.handle .everyone call).2 =
        { n with router := (n.router.routeAll 0 envelopes).2 } := by
  rw [handle_eq]
  dsimp only
  unfold dispatch
  split
  · exact .inl (.refl n)
  · rename_i hpublic
    have hpublic : call.action.isPublic = true := by simpa using hpublic
    split
    · exact .inl (.refl n)
    · rename_i request hrequest
      rcases Request.ofCall_public_cases hpublic hrequest with
        rfl | ⟨caller, since, maxBytes, channels, rfl⟩ | ⟨haction, b, rfl⟩
      · exact .inl (.refl n)
      · exact .inl (n.onlyDraws_servePickup caller since maxBytes channels)
      · cases henvelopes : b.envelopes n.router.identity.routing with
        | error e =>
          have hdropoff : n.dropoff b = (.error e, n) := by rw [dropoff, henvelopes]
          exact .inl ⟨n.entropy, by rw [serve, hdropoff]; rfl⟩
        | ok envelopes =>
          have hdropoff : n.dropoff b = (.ok (n.router.routeAll 0 envelopes).1,
              { n with router := (n.router.routeAll 0 envelopes).2 }) := by
            rw [dropoff, henvelopes]
          refine .inr ⟨envelopes, fun raw hraw => ⟨haction, b, envelopes, hrequest, henvelopes, hraw⟩,
            ?_⟩
          rw [serve, hdropoff]
          rfl

/-! ### Calls in a row -/

/-- The node after it has served calls of everyone, one after the other. -/
def serveEveryone (n : Node) (calls : List Call) : Node :=
  calls.foldl (fun n call => (n.handle .everyone call).2) n

/-- One call relays what it brings. -/
theorem relays_handle_everyone {kind : Bytes → Prop} (n : Node) {call : Call}
    (hkind : ∀ raw, call.Brings n.router.identity.routing raw → kind raw) :
    n.router.Relays kind (n.handle .everyone call).2.router ∧
      (n.handle .everyone call).2.peers = n.peers := by
  rcases n.handle_everyone_cases call with ⟨entropy, hn⟩ | ⟨envelopes, hbrings, hn⟩
  · rw [hn]
    exact ⟨.refl n.router, rfl⟩
  · rw [hn]
    exact ⟨Router.relays_routeAll (fun raw hraw => hkind raw (hbrings raw hraw)) n.router 0, rfl⟩

theorem relays_serveEveryone {kind : Bytes → Prop} (n : Node) {calls : List Call}
    (hkind : ∀ call ∈ calls, ∀ raw, call.Brings n.router.identity.routing raw → kind raw) :
    n.router.Relays kind (n.serveEveryone calls).router ∧
      (n.serveEveryone calls).peers = n.peers := by
  induction calls generalizing n with
  | nil => exact ⟨.refl n.router, rfl⟩
  | cons call rest ih =>
    obtain ⟨hcall, hrest⟩ := List.forall_mem_cons.mp hkind
    obtain ⟨hrelays, hpeers⟩ := n.relays_handle_everyone hcall
    -- The routing key, by which bundles are opened, is still the same.
    rw [← hrelays.identity] at hrest
    obtain ⟨hrelays', hpeers'⟩ := ih (n.handle .everyone call).2 hrest
    exact ⟨hrelays.trans hrelays', hpeers'.trans hpeers⟩

/-- **What everyone cannot touch, and where the outbox comes from.** After any calls of everyone a
node has the records, the keys and the notes on its peers that it had before. Its outbox holds every
entry as it was, and besides these only copies of envelopes that one of the calls brought in a bundle
for the node's routing key: with the same box and the same marks of a part of a stream. -/
theorem serveEveryone_keeps (n : Node) (calls : List Call) :
    (n.serveEveryone calls).backend.store.channels = n.backend.store.channels ∧
    (n.serveEveryone calls).backend.store.contacts = n.backend.store.contacts ∧
    (n.serveEveryone calls).backend.store.profiles = n.backend.store.profiles ∧
    (n.serveEveryone calls).backend.store.peers = n.backend.store.peers ∧
    (n.serveEveryone calls).router.identity = n.router.identity ∧
    (n.serveEveryone calls).peers = n.peers ∧
    n.backend.store.outbox.Sublist (n.serveEveryone calls).backend.store.outbox ∧
    ∃ added, (n.serveEveryone calls).backend.store.outbox.Perm
        (added ++ n.backend.store.outbox) ∧
      ∀ e ∈ added, ∃ raw, e.IsCopyOf raw ∧
        ∃ call ∈ calls, call.Brings n.router.identity.routing raw := by
  have hkind : ∀ call ∈ calls, ∀ raw, call.Brings n.router.identity.routing raw →
      ∃ call ∈ calls, call.Brings n.router.identity.routing raw :=
    fun call hcall raw hraw => ⟨call, hcall, hraw⟩
  obtain ⟨hrelays, hpeers⟩ := n.relays_serveEveryone hkind
  have hbackend := hrelays.backend
  obtain ⟨added, hposts, hcopies⟩ := hrelays.adds
  refine ⟨by rw [backend, hbackend]; rfl, by rw [backend, hbackend]; rfl,
    by rw [backend, hbackend]; rfl, by rw [backend, hbackend]; rfl, hrelays.identity, hpeers,
    hrelays.sublist, added, ?_, ?_⟩
  · rw [backend, hposts.outbox]
    exact Outbox.foldl_append_perm added _
  · intro e he
    obtain ⟨raw, hbrings, hcopy⟩ := hcopies e he
    exact ⟨raw, hcopy, hbrings⟩

end Node

end Courier
