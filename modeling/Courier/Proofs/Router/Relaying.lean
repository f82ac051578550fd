import Mathlib
import Courier.Proofs.Router.Redirection

/-!
## What routing leaves alone

Whatever envelope a router is given, it changes neither its keys nor its settings, and of its store
nothing but the outbox. There it removes nothing, and what it adds are copies of the envelope: the
tag of a channel may be another, the box and the marks of a part of a stream are the same.

* `Outbox.sublist_append`: an entry takes no other's place.
* `OutboxEntry.IsCopyOf`: an entry that holds an envelope, under some tag.
* `Router.Relays`: a router keeps all it has, and adds copies of envelopes of some kind; closed under
  composition.
* `Router.relays_route`, `Router.relays_routeAll`: routing does no more than that.
-/

namespace Courier

theorem Outbox.sublist_append (e : OutboxEntry) (o : Outbox) : o.Sublist (o.append e) := by
  induction o with
  | nil => exact List.nil_sublist _
  | cons d rest ih =>
    unfold append
    split
    · exact List.sublist_cons_self e _
    · exact ih.cons_cons d

theorem Outbox.sublist_foldl (es : List OutboxEntry) (o : Outbox) :
    o.Sublist (es.foldl (fun o e => Outbox.append e o) o) := by
  induction es generalizing o with
  | nil => exact List.Sublist.refl o
  | cons e rest ih => exact (sublist_append e o).trans (ih (o.append e))

/-- An entry holds an envelope, with the box and the marks of another. -/
def OutboxEntry.IsCopyOf (e : OutboxEntry) (raw : Bytes) : Prop :=
  ∃ copy original, Envelope.parse e.data = .ok copy ∧ Envelope.parse raw = .ok original ∧
    copy.ciphertext = original.ciphertext ∧ copy.flags.chunked = original.flags.chunked ∧
    copy.flags.streamHeader = original.flags.streamHeader

namespace Router

/-- A router keeps its settings, its keys and its records, and adds to its outbox copies of envelopes
of some kind. -/
structure Relays (kind : Bytes → Prop) (r r' : Router) : Prop where
  settings : r'.settings = r.settings
  identity : r'.identity = r.identity
  backend : r'.backend = { r.backend with store.outbox := r'.backend.store.outbox }
  adds : ∃ added, r.Posts r' added ∧ ∀ e ∈ added, ∃ raw, kind raw ∧ e.IsCopyOf raw

variable {r r' r'' : Router} {kind : Bytes → Prop} {raw : Bytes} {e : Envelope}

/-- What leaves the store and the clock alone. -/
theorem Relays.of_eq (hsettings : r'.settings = r.settings) (hidentity : r'.identity = r.identity)
    (hbackend : r'.backend = r.backend) (hclock : r'.clock = r.clock) : Relays kind r r' :=
  ⟨hsettings, hidentity, by rw [hbackend], [], .of_eq (by rw [hbackend]) hclock,
    List.forall_mem_nil _⟩

theorem Relays.refl (r : Router) : Relays kind r r := .of_eq rfl rfl rfl rfl

theorem Relays.trans (h : Relays kind r r') (h' : Relays kind r' r'') : Relays kind r r'' := by
  obtain ⟨added, hposts, hcopies⟩ := h.adds
  obtain ⟨added', hposts', hcopies'⟩ := h'.adds
  refine ⟨h'.settings.trans h.settings, h'.identity.trans h.identity, ?_,
    added ++ added', hposts.trans hposts', List.forall_mem_append.mpr ⟨hcopies, hcopies'⟩⟩
  rw [h'.backend, h.backend]

/-- The router that a step leaves behind. -/
theorem Relays.of_snd {α : Type} {a : α} {result : α × Router} (h : Relays kind r result.2)
    (hresult : result = (a, r')) : Relays kind r r' := by
  rwa [hresult] at h

/-- No entry is lost, and none changed. -/
theorem Relays.sublist (h : Relays kind r r') :
    r.backend.store.outbox.Sublist r'.backend.store.outbox := by
  obtain ⟨added, hposts, -⟩ := h.adds
  rw [hposts.outbox]
  exact Outbox.sublist_foldl added _

theorem relays_post {label : String} {data : Bytes} (hkind : kind raw)
    (hcopy : OutboxEntry.IsCopyOf ⟨label, data, r.clock.stamp.1⟩ raw)
    (h : r.post label data = .ok r') : Relays kind r r' := by
  have hposts := posts_post h
  obtain rfl := post_eq_ok h
  exact ⟨rfl, rfl, rfl, _, hposts, List.forall_mem_singleton.mpr ⟨raw, hkind, hcopy⟩⟩

theorem relays_redirectTo (hkind : kind raw) (hparse : Envelope.parse raw = .ok e) (r : Router)
    (count : Nat) (targets : List String) :
    Relays kind r (r.redirectTo raw count targets).2 := by
  induction targets generalizing r count with
  | nil => exact .refl r
  | cons target rest ih =>
    unfold redirectTo
    split
    · exact ih r count
    · rename_i data hretag
      have hdata := Envelope.parse_of_retag hparse hretag
      split
      · exact .refl r
      · rename_i m hpost
        have hcopy : OutboxEntry.IsCopyOf ⟨target, data, r.clock.stamp.1⟩ raw :=
          ⟨_, e, hdata, hparse, rfl, rfl, rfl⟩
        exact (relays_post hkind hcopy hpost).trans (ih m (count + 1))

theorem relays_forward (hkind : kind raw) (hparse : Envelope.parse raw = .ok e) (r : Router) :
    Relays kind r (r.forward e raw).2 := by
  unfold forward
  dsimp only
  split
  · exact relays_redirectTo hkind hparse r 0 _
  · split
    · exact .refl r
    · rename_i hpost
      exact relays_post hkind ⟨e, e, hparse, hparse, rfl, rfl, rfl⟩ hpost

theorem relays_passOn (hkind : kind raw) (hparse : Envelope.parse raw = .ok e) (r : Router)
    (consumed : Option MailClass) : Relays kind r (r.passOn e raw consumed).2 := by
  have hforward := relays_forward hkind hparse r
  unfold passOn
  split
  · dsimp only
    split <;> exact hforward
  · exact .refl r

theorem relays_consume {mailClass : MailClass} {plaintext : Bytes}
    (h : r.consume e mailClass plaintext = .ok r') : Relays kind r r' := by
  obtain ⟨queue, streams, rfl⟩ := consume_eq_ok h
  exact .of_eq rfl rfl rfl rfl

variable [Cryptography]

theorem relays_routeNew (hkind : kind raw) (hparse : Envelope.parse raw = .ok e) (r : Router) :
    Relays kind r (r.routeNew e raw).2 := by
  unfold routeNew
  split
  · exact .refl r
  · exact relays_passOn hkind hparse r none
  · split
    · exact .refl r
    · rename_i m hconsume
      exact (relays_consume hconsume).trans (relays_passOn hkind hparse m _)

/-- **Routing an envelope keeps everything, and adds copies of it to the outbox.** -/
theorem relays_route (hkind : kind raw) (r : Router) : Relays kind r (r.route raw).2 := by
  unfold route
  split
  · exact .refl r
  · rename_i e hparse
    split
    · exact .refl r
    · rename_i fp _
      have hnoted : Relays kind r { r with recent := (r.recent.check fp).2 } :=
        .of_eq rfl rfl rfl rfl
      dsimp only
      split
      · exact hnoted
      · exact hnoted.trans (relays_routeNew hkind hparse _)

theorem relays_routeAll {raws : List Bytes} (hkind : ∀ raw ∈ raws, kind raw) (r : Router)
    (count : Nat) : Relays kind r (r.routeAll count raws).2 := by
  induction raws generalizing r count with
  | nil => exact .refl r
  | cons raw rest ih =>
    obtain ⟨hraw, hrest⟩ := List.forall_mem_cons.mp hkind
    have hroute := relays_route hraw r
    unfold routeAll
    split
    · rename_i hresult
      exact (hroute.of_snd hresult).trans (ih hrest _ _)
    · rename_i hresult
      exact (hroute.of_snd hresult).trans (ih hrest _ _)

/-- A router that relays opens the same boxes as before. -/
theorem Relays.open?_eq (h : Relays kind r r') (e : Envelope) : r'.open? e = r.open? e := by
  have hget : r'.backend.get? Channel = r.backend.get? Channel := by rw [h.backend]; rfl
  have hlist : r'.backend.list Profile = r.backend.list Profile := by rw [h.backend]; rfl
  unfold open? openChannel openPrivate openProfiles
  rw [h.settings, h.identity, hget, hlist]

end Router

end Courier
