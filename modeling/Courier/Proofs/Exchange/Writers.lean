import Mathlib
import Courier.Proofs.Bundle.Pickup
import Courier.Proofs.Node.Growth

/-!
## Entries that are appended late

Whoever puts an envelope into the outbox of a node takes a stamp first and appends the entry then.
When several do so at the same time, one that has its stamp may be overtaken: another, stamped later,
appends its entry, and a peer picks that up. The peer's next bundle begins behind the later stamp, so
the entry of the first is in no bundle to come. In all other cases an entry that fits a bundle is in
exactly one.

* `Traffic`, `Traffic.Step`: a node, its writers and a peer, and what each of them does at a time.
* `Traffic.Accounted`: what there is in the outbox, in writers' hands and in bundles; one lemma for
  each step.
* `Traffic.accounted_of_run`: the run lemma.
* `Traffic.count_bundled`: in which bundles an entry is.
-/

namespace Courier

open Courier.Bundle (batchOverhead cost)

/-! ### Entries with older stamps -/

namespace Router

variable {r r' : Router}

theorem Timely.of_le (h : r.Timely)
    (houtbox : r'.backend.store.outbox = r.backend.store.outbox)
    (hclock : r.clock.stamped ≤ r'.clock.stamped) : r'.Timely := by
  refine ⟨Int64.le_trans h.stamped_nonneg hclock, ?_, ?_, ?_⟩
  · rw [houtbox]
    exact h.positive
  · rw [houtbox]
    exact fun e he => Int64.le_trans (h.within e he) hclock
  · rw [houtbox]
    exact h.sorted

/-- An entry with a stamp of its own takes its place among the others, though it come late. -/
theorem Timely.append (h : r.Timely) {e : OutboxEntry} (hpos : 0 < e.time)
    (hle : e.time ≤ r.clock.stamped) (hnew : ∀ d ∈ r.backend.store.outbox, d.time ≠ e.time)
    (hclock : r'.clock = r.clock)
    (houtbox : r'.backend.store.outbox = r.backend.store.outbox.append e) : r'.Timely := by
  have hperm := Outbox.append_perm e r.backend.store.outbox
  have hmem : ∀ d ∈ r'.backend.store.outbox, d = e ∨ d ∈ r.backend.store.outbox := by
    intro d hd
    rw [houtbox] at hd
    exact List.mem_cons.mp (hperm.mem_iff.mp hd)
  refine ⟨by rw [hclock]; exact h.stamped_nonneg, ?_, ?_, ?_⟩
  · intro d hd
    rcases hmem d hd with rfl | hd
    · exact hpos
    · exact h.positive d hd
  · intro d hd
    rw [hclock]
    rcases hmem d hd with rfl | hd
    · exact hle
    · exact h.within d hd
  · have hsorted := Outbox.pairwise_append e (h.sorted.imp Int64.le_of_lt)
    have hne : (e :: r.backend.store.outbox).Pairwise fun a b => a.time ≠ b.time :=
      List.pairwise_cons.mpr ⟨fun d hd => (hnew d hd).symm, h.sorted.imp fun hlt => Int64.ne_of_lt hlt⟩
    have hne' := (hperm.pairwise_iff fun hab => Ne.symm hab).mpr hne
    rw [houtbox]
    exact (hsorted.and hne').imp fun ⟨hab, hab'⟩ => Int64.lt_of_le_of_ne hab hab'

end Router

/-- All that appending an entry changes. -/
theorem Backend.append_eq_ok {b b' : Backend} {e : OutboxEntry} (h : b.append e = .ok b') :
    b' = { b with store.outbox := b.store.outbox.append e } := by
  unfold Backend.append Backend.attempt at h
  split at h
  · cases h
  · exact (Except.ok.inj h).symm

/-! ### Writers and a peer -/

/-- A node whose outbox is written to in two steps, and a peer that picks up bundle after bundle. -/
structure Traffic where
  node : Node
  /-- What each writer has stamped and not appended yet. -/
  held : Nat → Option OutboxEntry := fun _ => none
  /-- The time of the peer's last bundle, from which the next one begins. -/
  watermark : Time
  /-- The entries that were appended, each with the watermark of the moment. -/
  appended : List (Time × OutboxEntry) := []
  /-- The bundles that the peer has got. -/
  bundles : List Bundle := []

namespace Traffic

variable [Cryptography] (k : Keypair) (maxBytes : Nat) (channels : List String)

/-- A writer takes a stamp, or appends the entry that it has stamped; or the peer picks up a bundle;
or something else happens that leaves the clock and the outbox alone. -/
inductive Step : Traffic → Traffic → Prop
  | stamp {t : Traffic} (writer : Nat) (label : String) (data : Bytes)
      (hidle : t.held writer = none) :
      Step t { t with
        node.router.clock := t.node.router.clock.stamp.2
        held := Function.update t.held writer (some ⟨label, data, t.node.router.clock.stamp.1⟩) }
  | append {t : Traffic} (writer : Nat) {e : OutboxEntry} {b : Backend}
      (hheld : t.held writer = some e) (h : t.node.backend.append e = .ok b) :
      Step t { t with
        node := t.node.withBackend b
        held := Function.update t.held writer none
        appended := t.appended ++ [(t.watermark, e)] }
  | pickup {t : Traffic} {b : Bundle} {n : Node}
      (h : t.node.pickup k.publicKey t.watermark maxBytes channels = (.ok b, n)) :
      Step t { t with node := n, watermark := b.time, bundles := t.bundles ++ [b] }
  | other {t : Traffic} {n : Node} (hclock : n.router.clock = t.node.router.clock)
      (houtbox : n.backend.store.outbox = t.node.backend.store.outbox) :
      Step t { t with node := n }

/-- Any number of steps. -/
abbrev Run : Traffic → Traffic → Prop := Relation.ReflTransGen (Step k maxBytes channels)

/-- The peer has picked up all there is: its next bundle is empty. -/
def Drained (t : Traffic) : Prop :=
  (t.node.pickup k.publicKey t.watermark maxBytes channels).1 = .ok (Bundle.empty t.watermark)

/-- No writer is between its two steps. -/
def Idle (t : Traffic) : Prop := ∀ writer, t.held writer = none

/-- A node posts an entry by the two steps of a writer, one right after the other. -/
theorem run_of_post {t : Traffic} {writer : Nat} {label : String} {data : Bytes} {r : Router}
    (hidle : t.held writer = none) (h : t.node.router.post label data = .ok r) :
    Run k maxBytes channels t { t with
      node.router := r
      appended := t.appended ++ [(t.watermark, ⟨label, data, t.node.router.clock.stamp.1⟩)] } := by
  have hup : t.node.backend.append ⟨label, data, t.node.router.clock.stamp.1⟩ = .ok r.backend := by
    unfold Router.post at h
    rw [Node.backend]
    cases happend : t.node.router.backend.append
        ⟨label, data, t.node.router.clock.stamp.1⟩ with
    | error error =>
      dsimp only at h
      rw [happend] at h
      cases h
    | ok b =>
      dsimp only at h
      rw [happend] at h
      obtain rfl := Except.ok.inj h
      rfl
  have hstamp : Step k maxBytes channels t _ := .stamp writer label data hidle
  have happend : Step k maxBytes channels { t with
      node.router.clock := t.node.router.clock.stamp.2
      held := Function.update t.held writer
        (some ⟨label, data, t.node.router.clock.stamp.1⟩) } _ :=
    .append writer (Function.update_self writer _ _) hup
  obtain rfl := Router.post_eq_ok h
  have hheld : Function.update (Function.update t.held writer
      (some ⟨label, data, t.node.router.clock.stamp.1⟩)) writer none = t.held := by
    rw [Function.update_idem, ← hidle, Function.update_eq_self]
  dsimp only at happend
  rw [hheld] at happend
  exact (Relation.ReflTransGen.single hstamp).tail happend

/-! ### What becomes of an entry -/

/-- A bundle gives the holder of a key pair some entries: none if it is empty. -/
def Gives (b : Bundle) (es : List OutboxEntry) : Prop :=
  (b.isEmpty = true ∧ es = []) ∨ b.Carries k maxBytes es

/-- Every entry is in some writer's hand or in the outbox, under a stamp of its own; and an entry that
a bundle may hold is in as many of the peer's bundles as the watermarks say: in one if it was appended
while the watermark was below its stamp and the watermark has passed the stamp since, else in none. -/
structure Accounted (t : Traffic) (batches : List (List OutboxEntry)) : Prop where
  timely : t.node.router.Timely
  held_pos : ∀ writer e, t.held writer = some e → 0 < e.time
  held_le : ∀ writer e, t.held writer = some e → e.time ≤ t.node.router.clock.stamped
  held_new : ∀ writer e, t.held writer = some e →
    ∀ d ∈ t.node.backend.store.outbox, d.time ≠ e.time
  held_inj : ∀ writer writer' e e', t.held writer = some e → t.held writer' = some e' →
    e.time = e'.time → writer = writer'
  appended : ∀ w e, (w, e) ∈ t.appended → e ∈ t.node.backend.store.outbox ∧ w ≤ t.watermark
  gives : List.Forall₂ (Gives k maxBytes) t.bundles batches
  taken : ∀ e ∈ batches.flatten, e ∈ t.node.backend.store.outbox
  count : ∀ w e, (w, e) ∈ t.appended → (channels = [] ∨ e.channel ∈ channels) →
    cost e ≤ maxBytes - batchOverhead →
    batches.flatten.count e = if w < e.time ∧ e.time ≤ t.watermark then 1 else 0

variable {k maxBytes channels} {t t' : Traffic} {batches : List (List OutboxEntry)}

theorem accounted_begin {n : Node} (hn : n.router.Timely) (since : Time) :
    Accounted k maxBytes channels { node := n, watermark := since } [] :=
  ⟨hn, nofun, nofun, nofun, nofun, nofun, .nil, nofun, nofun⟩

omit [Cryptography] in
/-- A writer holds what it was given last, and the others what they held. -/
theorem of_held_update {held : Nat → Option OutboxEntry} {writer writer' : Nat}
    {x : Option OutboxEntry} {e : OutboxEntry}
    (h : Function.update held writer x writer' = some e) :
    (writer' = writer ∧ x = some e) ∨ (held writer' = some e ∧ writer' ≠ writer) := by
  by_cases hw : writer' = writer
  · rw [hw, Function.update_self] at h
    exact .inl ⟨hw, h⟩
  · rw [Function.update_of_ne hw] at h
    exact .inr ⟨h, hw⟩

/-- A new stamp is later than all that there are. -/
theorem Accounted.stamp (h : Accounted k maxBytes channels t batches)
    (hclock : t.node.router.clock.stamp.2.stamped ≠ Time.last) (writer : Nat) (label : String)
    (data : Bytes) :
    Accounted k maxBytes channels { t with
      node.router.clock := t.node.router.clock.stamp.2
      held := Function.update t.held writer (some ⟨label, data, t.node.router.clock.stamp.1⟩) }
      batches := by
  have hlt : t.node.router.clock.stamped < t.node.router.clock.stamp.1 :=
    Clock.lt_next_of_ne hclock
  have hle := Int64.le_of_lt hlt
  have hcases : ∀ writer' e, Function.update t.held writer
      (some ⟨label, data, t.node.router.clock.stamp.1⟩) writer' = some e →
      (writer' = writer ∧ e = ⟨label, data, t.node.router.clock.stamp.1⟩) ∨
        (t.held writer' = some e ∧ writer' ≠ writer) := by
    intro writer' e he
    exact (of_held_update he).imp_left fun ⟨hw, hx⟩ => ⟨hw, (Option.some.inj hx).symm⟩
  refine ⟨h.timely.of_le rfl hle, ?_, ?_, ?_, ?_, h.appended, h.gives, h.taken, h.count⟩
  · intro writer' e he
    rcases hcases writer' e he with ⟨-, rfl⟩ | ⟨he, -⟩
    · exact Int64.lt_of_le_of_lt h.timely.stamped_nonneg hlt
    · exact h.held_pos writer' e he
  · intro writer' e he
    rcases hcases writer' e he with ⟨-, rfl⟩ | ⟨he, -⟩
    · exact Int64.le_refl _
    · exact Int64.le_trans (h.held_le writer' e he) hle
  · intro writer' e he d hd
    rcases hcases writer' e he with ⟨-, rfl⟩ | ⟨he, -⟩
    · exact Int64.ne_of_lt (Int64.lt_of_le_of_lt (h.timely.within d hd) hlt)
    · exact h.held_new writer' e he d hd
  · intro w w' e e' he he' htime
    rcases hcases w e he with ⟨rfl, rfl⟩ | ⟨hold, -⟩ <;>
      rcases hcases w' e' he' with ⟨rfl, rfl⟩ | ⟨hold', -⟩
    · rfl
    · have hbefore := Int64.lt_of_le_of_lt (h.held_le w' e' hold') hlt
      exact absurd htime.symm (Int64.ne_of_lt hbefore)
    · have hbefore := Int64.lt_of_le_of_lt (h.held_le w e hold) hlt
      exact absurd htime (Int64.ne_of_lt hbefore)
    · exact h.held_inj w w' e e' hold hold' htime

/-- An entry that is appended has been in no bundle before. -/
theorem Accounted.append (h : Accounted k maxBytes channels t batches) {writer : Nat}
    {e : OutboxEntry} {b : Backend} (hheld : t.held writer = some e)
    (happend : t.node.backend.append e = .ok b) :
    Accounted k maxBytes channels { t with
      node := t.node.withBackend b
      held := Function.update t.held writer none
      appended := t.appended ++ [(t.watermark, e)] } batches := by
  obtain rfl := Backend.append_eq_ok happend
  have hnew := h.held_new writer e hheld
  have hmem : ∀ d, d ∈ t.node.backend.store.outbox.append e ↔
      d = e ∨ d ∈ t.node.backend.store.outbox :=
    fun d => (Outbox.append_perm e _).mem_iff.trans List.mem_cons
  have hcases : ∀ writer' d, Function.update t.held writer none writer' = some d →
      t.held writer' = some d ∧ writer' ≠ writer := by
    intro writer' d hd
    refine (of_held_update hd).resolve_left ?_
    rintro ⟨-, hx⟩
    cases hx
  refine ⟨h.timely.append (h.held_pos writer e hheld) (h.held_le writer e hheld) hnew rfl rfl,
    ?_, ?_, ?_, ?_, ?_, h.gives, ?_, ?_⟩
  · exact fun writer' d hd => h.held_pos writer' d (hcases writer' d hd).1
  · exact fun writer' d hd => h.held_le writer' d (hcases writer' d hd).1
  · intro writer' d hd c hc
    obtain ⟨hstill, hw⟩ := hcases writer' d hd
    rcases (hmem c).mp hc with rfl | hc
    · exact fun htime => hw (h.held_inj writer' writer d c hstill hheld htime.symm)
    · exact h.held_new writer' d hstill c hc
  · exact fun w w' d d' hd hd' =>
      h.held_inj w w' d d' (hcases w d hd).1 (hcases w' d' hd').1
  · intro w d hd
    rcases List.mem_append.mp hd with hd | hd
    · obtain ⟨hin, hw⟩ := h.appended w d hd
      exact ⟨(hmem d).mpr (.inr hin), hw⟩
    · obtain ⟨rfl, rfl⟩ := Prod.mk.inj (List.mem_singleton.mp hd)
      exact ⟨(hmem d).mpr (.inl rfl), Int64.le_refl _⟩
  · exact fun d hd => (hmem d).mpr (.inr (h.taken d hd))
  · intro w d hd hchannel hcost
    rcases List.mem_append.mp hd with hd | hd
    · exact h.count w d hd hchannel hcost
    · obtain ⟨rfl, rfl⟩ := Prod.mk.inj (List.mem_singleton.mp hd)
      -- All that is in a bundle is in the outbox, where no entry had this stamp.
      have hnone : d ∉ batches.flatten := fun hin => hnew d (h.taken d hin) rfl
      rw [List.count_eq_zero_of_not_mem hnone, if_neg]
      rintro ⟨hlt, hle⟩
      exact absurd hle (Int64.not_le.mpr hlt)

omit [Cryptography] in
/-- A bundle takes just the entries between the old watermark and the new one. -/
theorem count_taken {o : Outbox} (ho : o.Pairwise fun a b => a.time < b.time) {since time : Time}
    {budget : Nat} {taken : List OutboxEntry}
    (hdue : o.due since channels budget = taken ++ o.due time channels budget) {e : OutboxEntry}
    (he : e ∈ o) (hchannel : channels = [] ∨ e.channel ∈ channels) (hcost : cost e ≤ budget) :
    taken.count e = if since < e.time ∧ e.time ≤ time then 1 else 0 := by
  have hsorted := Outbox.pairwise_due ho since channels budget
  rw [hdue] at hsorted
  obtain ⟨htaken, -, hparts⟩ := List.pairwise_append.mp hsorted
  have hin : ∀ s, e ∈ o.due s channels budget ↔ s < e.time := fun s =>
    Outbox.mem_due.trans ⟨fun h => h.2.1, fun h => ⟨he, h, hchannel, hcost⟩⟩
  split
  · rename_i hbetween
    have hnodup : taken.Nodup := htaken.imp fun hlt heq => Int64.ne_of_lt hlt (congrArg _ heq)
    refine List.count_eq_one_of_mem hnodup ?_
    have hmem := (hin since).mpr hbetween.1
    rw [hdue] at hmem
    refine (List.mem_append.mp hmem).resolve_right fun hlater => ?_
    exact absurd hbetween.2 (Int64.not_le.mpr ((hin time).mp hlater))
  · rename_i hout
    refine List.count_eq_zero_of_not_mem fun hmem => hout ⟨?_, ?_⟩
    · exact (hin since).mp (hdue ▸ List.mem_append_left _ hmem)
    · by_contra hlater
      have hrest := (hin time).mpr (Int64.not_le.mp hlater)
      exact Int64.ne_of_lt (hparts e hmem e hrest) rfl

variable [Cryptography.Lawful]

theorem Accounted.pickup (h : Accounted k maxBytes channels t batches)
    (hmax : maxBytes < UInt64.size) {b : Bundle} {n : Node}
    (hpickup : t.node.pickup k.publicKey t.watermark maxBytes channels = (.ok b, n)) :
    ∃ batches', Accounted k maxBytes channels
      { t with node := n, watermark := b.time, bundles := t.bundles ++ [b] } batches' := by
  rcases Node.pickup_cases (Node.up_of_pickup hpickup) h.timely.sorted k.publicKey t.watermark hmax
    channels with ⟨-, hempty⟩ | ⟨b', taken, hdue, hbundle, ⟨newest, hnewest, htime⟩, -, hcarries⟩
  · rw [hempty] at hpickup
    cases hpickup
    refine ⟨batches ++ [[]], h.timely, h.held_pos, h.held_le, h.held_new, h.held_inj, h.appended,
      List.rel_append h.gives (.cons (.inl ⟨rfl, rfl⟩) .nil), ?_, ?_⟩
    · rw [List.flatten_append, List.flatten_singleton, List.append_nil]
      exact h.taken
    · rw [List.flatten_append, List.flatten_singleton, List.append_nil]
      exact h.count
  · rw [hbundle] at hpickup
    cases hpickup
    have hout : ∀ e ∈ taken, e ∈ t.node.backend.store.outbox ∧ t.watermark < e.time := by
      intro e he
      have hmem := Outbox.mem_due.mp (hdue ▸ List.mem_append_left _ he)
      exact ⟨hmem.1, hmem.2.1⟩
    have hlt : t.watermark < b.time := htime ▸ (hout newest hnewest).2
    refine ⟨batches ++ [taken], h.timely, h.held_pos, h.held_le, h.held_new, h.held_inj, ?_,
      List.rel_append h.gives (.cons (.inr (hcarries k rfl)) .nil), ?_, ?_⟩
    · intro w e he
      obtain ⟨hin, hw⟩ := h.appended w e he
      exact ⟨hin, Int64.le_trans hw (Int64.le_of_lt hlt)⟩
    · rw [List.flatten_append, List.flatten_singleton]
      exact List.forall_mem_append.mpr ⟨h.taken, fun e he => (hout e he).1⟩
    · intro w e he hchannel hcost
      obtain ⟨hin, hw⟩ := h.appended w e he
      rw [List.flatten_append, List.flatten_singleton, List.count_append,
        h.count w e he hchannel hcost,
        count_taken h.timely.sorted hdue hin hchannel hcost]
      -- An entry is on one side of the old watermark, and in the bundle if on the other.
      by_cases hold : e.time ≤ t.watermark
      · have hnot : ¬t.watermark < e.time := Int64.not_lt.mpr hold
        have hnew : e.time ≤ b.time := Int64.le_trans hold (Int64.le_of_lt hlt)
        simp [hold, hnot, hnew]
      · have hafter : t.watermark < e.time := Int64.not_le.mp hold
        have hlate : w < e.time := Int64.lt_of_le_of_lt hw hafter
        simp [hold, hafter, hlate]

theorem accounted_of_step (h : Accounted k maxBytes channels t batches)
    (hmax : maxBytes < UInt64.size) (hstep : Step k maxBytes channels t t')
    (hclock : t'.node.router.clock.stamped ≠ Time.last) :
    ∃ batches', Accounted k maxBytes channels t' batches' := by
  cases hstep with
  | stamp writer label data hidle => exact ⟨batches, h.stamp hclock writer label data⟩
  | append writer hheld happend => exact ⟨batches, h.append hheld happend⟩
  | pickup hpickup => exact h.pickup hmax hpickup
  | other hsame houtbox =>
    refine ⟨batches, h.timely.of_le houtbox (by rw [hsame]; exact Int64.le_refl _), h.held_pos,
      ?_, ?_, h.held_inj, ?_, h.gives, ?_, h.count⟩
    · rw [hsame]
      exact h.held_le
    · rw [houtbox]
      exact h.held_new
    · rw [houtbox]
      exact h.appended
    · rw [houtbox]
      exact h.taken

omit [Cryptography.Lawful] in
/-- The clock is never set back. -/
theorem Step.stamped_le (h : Step k maxBytes channels t t') :
    t.node.router.clock.stamped ≤ t'.node.router.clock.stamped := by
  cases h with
  | stamp => exact Clock.le_next_stamped _ _
  | append => exact Int64.le_refl _
  | pickup hpickup =>
    have hgrows := (t.node.grows_pickup k.publicKey t.watermark maxBytes channels).of_snd hpickup
    exact hgrows.router.stamped
  | other hsame =>
    rw [hsame]
    exact Int64.le_refl _

/-- **Every entry is accounted for in every run** whose clock has not run out. -/
theorem accounted_of_run {n : Node} (hn : n.router.Timely) (hmax : maxBytes < UInt64.size)
    {since : Time} (hrun : Run k maxBytes channels { node := n, watermark := since } t)
    (hclock : t.node.router.clock.stamped ≠ Time.last) :
    ∃ batches, Accounted k maxBytes channels t batches := by
  induction hrun with
  | refl => exact ⟨[], accounted_begin hn since⟩
  | tail _ hstep ih =>
    obtain ⟨batches, hbefore⟩ := ih (Time.ne_last_of_le hstep.stamped_le hclock)
    exact accounted_of_step hbefore hmax hstep hclock

/-- Where the next bundle is empty, no entry that a bundle may hold is behind the watermark. -/
theorem time_le_of_drained (hsorted : t.node.backend.store.outbox.Pairwise fun a b => a.time < b.time)
    (hmax : maxBytes < UInt64.size) (h : Drained k maxBytes channels t) {e : OutboxEntry}
    (he : e ∈ t.node.backend.store.outbox) (hchannel : channels = [] ∨ e.channel ∈ channels)
    (hcost : cost e ≤ maxBytes - batchOverhead) : e.time ≤ t.watermark := by
  obtain ⟨b, n, hpickup⟩ : ∃ b n,
      t.node.pickup k.publicKey t.watermark maxBytes channels = (.ok b, n) := ⟨_, _, Prod.ext h rfl⟩
  by_contra hlater
  have hdue := Outbox.mem_due.mpr ⟨he, Int64.not_le.mp hlater, hchannel, hcost⟩
  rcases Node.pickup_cases (Node.up_of_pickup hpickup) hsorted k.publicKey t.watermark hmax channels
    with ⟨hnone, -⟩ | ⟨b', taken, -, hbundle, -, -, hcarries⟩
  · rw [hnone] at hdue
    cases hdue
  · unfold Drained at h
    rw [hbundle] at h
    obtain rfl := Except.ok.inj h
    have hfull := (hcarries k rfl).isEmpty
    cases hfull

/-! ### Two writers, one overtaken -/

section

omit [Cryptography]

/-- A node with nothing in its outbox, and a peer that has got nothing. -/
def quiet : Traffic := { node := Node.keeping ⟨.chacha, Key.zero⟩ 4096 [], watermark := 0 }

/-- An entry of one byte fits a bundle of four kilobytes. -/
theorem cost_le_of_singleton (channel : String) (x : UInt8) (time : Time) :
    cost ⟨channel, [x], time⟩ ≤ 4096 - batchOverhead := by
  have hprefix : Varint.length 1 ≤ 1 := Varint.length_le_of_lt_pow (k := 0) (by decide)
  have hroom : 2 ≤ 4096 - batchOverhead := by decide
  unfold cost
  rw [List.length_singleton]
  omega

/-- Two writers have taken stamps, and the second has appended its entry. -/
theorem exists_overtaking [Cryptography] :
    ∃ t, Run ⟨.chacha, Key.zero⟩ 4096 [] quiet t ∧ t.held 0 = some ⟨"", [7], 1⟩ ∧
      (∀ writer, writer ≠ 0 → t.held writer = none) ∧
      t.node.backend = { store := { outbox := [⟨"", [8], 2⟩] } } ∧ t.watermark = 0 ∧
      t.node.router.clock.stamped = 2 ∧ t.appended = [(0, ⟨"", [8], 2⟩)] ∧ t.bundles = [] := by
  have hfirst : Step ⟨.chacha, Key.zero⟩ 4096 [] quiet _ := .stamp 0 "" [7] rfl
  have hsecond := (Relation.ReflTransGen.single hfirst).tail (.stamp 1 "" [8] rfl)
  refine ⟨_, hsecond.tail (.append 1 rfl rfl), rfl, ?_, rfl, rfl, rfl, rfl, rfl⟩
  intro writer hwriter
  dsimp only
  rw [Function.update_idem]
  by_cases hsame : writer = 1
  · rw [hsame, Function.update_self]
  · rw [Function.update_of_ne hsame, Function.update_of_ne hwriter]
    rfl

/-- Of two writers the one that took its stamp first appends its entry last, when the peer has already
got the other's. -/
theorem exists_overtaken :
    letI := Cryptography.transparent
    ∃ t b, Run ⟨.chacha, Key.zero⟩ 4096 [] quiet t ∧ t.Idle ∧
      Drained ⟨.chacha, Key.zero⟩ 4096 [] t ∧ t.node.router.clock.stamped = 2 ∧
      t.appended = [(0, ⟨"", [8], 2⟩), (2, ⟨"", [7], 1⟩)] ∧ t.bundles = [b] ∧
      b.envelopes ⟨.chacha, Key.zero⟩ = .ok [[8]] := by
  let _ := Cryptography.transparent
  have := Cryptography.lawful_transparent
  obtain ⟨t, hrun, hfirst, hothers, hbackend, hwatermark, hclock, happended, hbundles⟩ :=
    exists_overtaking
  have htaken : t.node.taken 0 4096 [] = [⟨"", [8], 2⟩] := by
    have hsince : t.node.backend.store.outbox.since 0 [] = [⟨"", [8], 2⟩] := by
      rw [hbackend]
      decide
    have hcost := cost_le_of_singleton "" 8 2
    rw [Node.taken, hsince]
    exact Bundle.gather_of_sum_le (by simpa using hcost)
  have hup : StoreCall.outboxSince.name ∉ t.node.backend.down := by
    rw [hbackend]
    exact List.not_mem_nil
  rcases Node.pickup_of_up hup (Keypair.publicKey ⟨.chacha, Key.zero⟩) 0 4096 [] with
    ⟨hnone, -⟩ | ⟨-, hpickup⟩
  · rw [htaken] at hnone
    cases hnone
  · rw [htaken] at hpickup
    have hpicked := hrun.tail (.pickup (by rw [hwatermark]; exact hpickup))
    have hlate : Backend.append t.node.backend ⟨"", [7], 1⟩ =
        .ok { store := { outbox := [⟨"", [7], 1⟩, ⟨"", [8], 2⟩] } } := by
      rw [hbackend]
      rfl
    have hcost := cost_le_of_singleton "" 8 2
    have hsum : ([⟨"", [8], 2⟩].map cost).sum < UInt64.size :=
      Nat.lt_of_le_of_lt (by simpa using hcost) (by decide : 4096 - batchOverhead < UInt64.size)
    have hopens := Bundle.envelopes_close ⟨.chacha, Key.zero⟩ t.node.drawSecret.1
      (Bundle.newest 0 [⟨"", [8], 2⟩]) hsum
    refine ⟨_, _, hpicked.tail (.append 0 hfirst hlate), ?_, rfl, hclock, ?_, ?_, hopens⟩
    · intro writer
      dsimp only
      by_cases hwriter : writer = 0
      · rw [hwriter, Function.update_self]
      · rw [Function.update_of_ne hwriter]
        exact hothers writer hwriter
    · dsimp only
      rw [happended]
      rfl
    · dsimp only
      rw [hbundles]
      rfl

end

/-! ### In which bundles an entry is -/

/-- **In which bundles an entry is.** Any number of writers put entries into the outbox of a node, each
in two steps, while a peer picks up bundle after bundle, all in any order and whatever the wall clock
shows. Once the peer's next bundle is empty, an entry that was appended and that a bundle may hold is
in exactly one of the peer's bundles if the watermark was below its stamp when it was appended, and in
none otherwise; unless the clock has run to the last time there is. -/
theorem count_bundled {n : Node} (hn : n.router.Timely) (hmax : maxBytes < UInt64.size)
    {since : Time} (hrun : Run k maxBytes channels { node := n, watermark := since } t)
    (hclock : t.node.router.clock.stamped ≠ Time.last)
    (hdrained : Drained k maxBytes channels t) :
    ∃ batches, List.Forall₂ (Gives k maxBytes) t.bundles batches ∧
      ∀ w e, (w, e) ∈ t.appended → (channels = [] ∨ e.channel ∈ channels) →
        cost e ≤ maxBytes - batchOverhead →
        batches.flatten.count e = if w < e.time then 1 else 0 := by
  obtain ⟨batches, h⟩ := accounted_of_run hn hmax hrun hclock
  refine ⟨batches, h.gives, fun w e he hchannel hcost => ?_⟩
  have hle := time_le_of_drained h.timely.sorted hmax hdrained (h.appended w e he).1 hchannel hcost
  rw [h.count w e he hchannel hcost]
  simp [hle]

omit [Cryptography] [Cryptography.Lawful] in
/-- Of two entries the peer gets the one that was stamped last, once. -/
theorem count_bundled_overtaken :
    letI := Cryptography.transparent
    ∃ t batches, Run ⟨.chacha, Key.zero⟩ 4096 [] quiet t ∧
      List.Forall₂ (Gives ⟨.chacha, Key.zero⟩ 4096) t.bundles batches ∧
      t.appended = [(0, ⟨"", [8], 2⟩), (2, ⟨"", [7], 1⟩)] ∧
      batches.flatten.count ⟨"", [8], 2⟩ = 1 ∧ batches.flatten.count ⟨"", [7], 1⟩ = 0 := by
  let _ := Cryptography.transparent
  have := Cryptography.lawful_transparent
  obtain ⟨t, b, hrun, -, hdrained, hclock, happended, -, -⟩ := exists_overtaken
  have hquiet : quiet.node.router.Timely := ⟨Int64.le_refl _, nofun, nofun, .nil⟩
  obtain ⟨batches, hgives, hcount⟩ :=
    count_bundled hquiet (by decide) hrun (by rw [hclock]; decide) hdrained
  refine ⟨t, batches, hrun, hgives, happended, ?_, ?_⟩
  · rw [hcount 0 _ (by simp [happended]) (.inl rfl) (cost_le_of_singleton _ _ _)]
    rfl
  · rw [hcount 2 _ (by simp [happended]) (.inl rfl) (cost_le_of_singleton _ _ _)]
    rfl

omit [Cryptography] [Cryptography.Lawful] in
/-- The other entry fits a bundle, and is in none, though no writer is at work any more and there is
nothing left to pick up. -/
theorem overtaken_not_bundled :
    letI := Cryptography.transparent
    ∃ t w e, Run ⟨.chacha, Key.zero⟩ 4096 [] quiet t ∧ t.Idle ∧
      Drained ⟨.chacha, Key.zero⟩ 4096 [] t ∧ (w, e) ∈ t.appended ∧
      cost e ≤ 4096 - batchOverhead ∧
      ∀ b ∈ t.bundles, ∀ raws, b.envelopes ⟨.chacha, Key.zero⟩ = .ok raws → e.data ∉ raws := by
  let _ := Cryptography.transparent
  obtain ⟨t, b, hrun, hidle, hdrained, -, happended, hbundles, hopens⟩ := exists_overtaken
  refine ⟨t, 2, ⟨"", [7], 1⟩, hrun, hidle, hdrained, by simp [happended],
    cost_le_of_singleton _ _ _, ?_⟩
  intro b' hb' raws hraws
  rw [hbundles, List.mem_singleton] at hb'
  rw [hb', hopens] at hraws
  obtain rfl := Except.ok.inj hraws
  decide

end Traffic

end Courier
