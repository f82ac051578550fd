import Mathlib
import Courier.Proofs.Bundle.Pickup
import Courier.Proofs.Node.Growth

/-!
## Watermarks

A watermark is a time up to which an outbox is settled: every entry that is no later, stands in a
channel asked for and fits a batch has been dealt with. New entries are stamped later, so a
watermark stays one while the outbox grows; and a bundle that begins at a watermark moves it up to
the time of the bundle, for whoever deals with what the bundle holds.

* `Router.Settled`: what a watermark says.
* `Router.Settled.grows`: growth keeps a watermark.
* `Router.Settled.pickup`: a pickup moves a watermark.
-/

namespace Courier

open Courier.Bundle (batchOverhead cost gather)

/-! ### Settled outboxes -/

/-- Every entry of an outbox up to a time that has passed, in some channels or all and of a size
that fits a batch, is done with. -/
structure Router.Settled (r : Router) (channels : List String) (budget : Nat)
    (done : OutboxEntry → Prop) (t : Time) : Prop where
  within : t ≤ r.clock.stamped
  all : ∀ e ∈ r.backend.store.outbox, e.time ≤ t →
    (channels = [] ∨ e.channel ∈ channels) → cost e ≤ budget → done e

namespace Router

variable {r r' : Router} {channels : List String} {budget : Nat} {done done' : OutboxEntry → Prop}
  {t t' : Time}

theorem Settled.mono (h : r.Settled channels budget done t) (hdone : ∀ e, done e → done' e) :
    r.Settled channels budget done' t :=
  ⟨h.within, fun e he ht hc hb => hdone e (h.all e he ht hc hb)⟩

/-- What is added to an outbox is later than every watermark. -/
theorem Settled.grows (h : r.Settled channels budget done t) (hr : r.Timely) (hg : r.Grows r')
    (hlast : r'.clock.stamped ≠ Time.last) : r'.Settled channels budget done t := by
  obtain ⟨_, new, hnew, hlater⟩ := hg.outbox hr hlast
  refine ⟨Int64.le_trans h.within hg.stamped, fun e he ht => ?_⟩
  rw [hnew] at he
  rcases List.mem_append.mp he with he | he
  · exact h.all e he ht
  · have hlt := Int64.lt_of_le_of_lt h.within (hlater e he)
    exact absurd ht (Int64.not_le.mpr hlt)

/-- Every stamp is later than the beginning. -/
theorem settled_zero (hr : r.Timely) (channels : List String) (budget : Nat)
    (done : OutboxEntry → Prop) : r.Settled channels budget done 0 :=
  ⟨hr.stamped_nonneg, fun e he ht => absurd ht (Int64.not_le.mpr (hr.positive e he))⟩

theorem Settled.later (h : r.Settled channels budget done t)
    (h' : r.Settled channels budget done t') :
    r.Settled channels budget done (t.later t') := by
  rcases Time.later_eq_or t t' with heq | heq
  · rw [heq]
    exact h
  · rw [heq]
    exact h'

end Router

/-! ### Bundles that hold an entry -/

variable [Cryptography]

/-- A bundle holds an entry for a recipient: it is a sealed batch that the entry is in, and
whoever has the key pair of the recipient reads the entries back from it. -/
def Bundle.Holds (b : Bundle) (recipient : PublicKey) (e : OutboxEntry) : Prop :=
  ∃ once entries, b.data = SealedBox.close recipient once (Bundle.batch entries) ∧ e ∈ entries ∧
    ∀ k : Keypair, k.publicKey = recipient →
      b.envelopes k = .ok (entries.map OutboxEntry.data)

namespace Router

variable [Cryptography.Lawful]

/-- **A pickup moves a watermark.** -/
theorem Settled.pickup {n n' : Node} {channels : List String} {maxBytes : Nat}
    {done : OutboxEntry → Prop} {since : Time} {caller : PublicKey} {b : Bundle}
    (hmax : maxBytes < UInt64.size) (hr : n.router.Timely)
    (hs : n.router.Settled channels (maxBytes - batchOverhead) done since)
    (h : n.pickup caller since maxBytes channels = (.ok b, n')) :
    n.router.Settled channels (maxBytes - batchOverhead) (fun e => done e ∨ b.Holds caller e)
      b.time := by
  rcases Node.pickup_cases (Node.up_of_pickup h) hr.sorted caller since hmax channels with
    ⟨_, hpickup⟩ | ⟨b', taken, hdue, hpickup, ⟨newest, hnewest, htime⟩, hdata, hcarries⟩
  · rw [hpickup] at h
    cases h
    exact hs.mono fun _ => .inl
  · rw [hpickup] at h
    cases h
    refine ⟨?_, fun e he ht hc hcost => ?_⟩
    · have hin := Outbox.mem_due.mp (hdue ▸ List.mem_append_left _ hnewest)
      rw [← htime]
      exact hr.within newest hin.1
    -- An entry up to the watermark was done with; the later ones up to the new one are taken.
    rcases Int64.le_or_lt e.time since with hle | hlt
    · exact .inl (hs.all e he hle hc hcost)
    · right
      have hin := Outbox.mem_due.mpr ⟨he, hlt, hc, hcost⟩
      rw [show n.router.backend.store.outbox = n.backend.store.outbox from rfl, hdue] at hin
      rcases List.mem_append.mp hin with hin | hin
      · exact ⟨n.drawSecret.1, taken, hdata, hin, fun k hk => (hcarries k hk).envelopes⟩
      · exact absurd ht (Int64.not_le.mpr (Outbox.lt_of_mem_due hin))

end Router

end Courier
