import Mathlib
import Courier.Proofs.Bundle.Batch
import Courier.Proofs.SealedBox.Transparent

/-!
## Pickups drain the outbox

A peer asks for bundle after bundle, each beginning at the time of the one before it. What is
still due to it are the entries later than that time, in its channels, that fit a batch; a bundle
takes its batch off the front of them, and because times are distinct its own time parts what it
took from what is left.

* `due_getLast`: what is due after a bundle.
* `pickup_cases`: all that a pickup can answer.
* `Node.pickup_drains`: pickups in a row hand over exactly what was due.
-/

namespace Courier

open Courier.Bundle (batchOverhead cost gather)

/-! ### Outboxes of distinct times -/

namespace Outbox

/-- The outbox into which some entries were put, one after the other. -/
def ofEntries (es : List OutboxEntry) : Outbox := es.foldl (fun o e => o.append e) []

theorem foldl_append_perm (es : List OutboxEntry) (o : Outbox) :
    (es.foldl (fun o e => o.append e) o).Perm (es ++ o) := by
  induction es generalizing o with
  | nil => exact .refl _
  | cons e rest ih =>
    rw [List.foldl_cons, List.cons_append]
    exact (ih (o.append e)).trans (((append_perm e o).append_left rest).trans List.perm_middle)

theorem ofEntries_perm (es : List OutboxEntry) : (ofEntries es).Perm es := by
  have h := foldl_append_perm es []
  rwa [List.append_nil] at h

theorem pairwise_foldl_append (es : List OutboxEntry) {o : Outbox}
    (h : o.Pairwise fun a b => a.time ≤ b.time) :
    (es.foldl (fun o e => o.append e) o).Pairwise fun a b => a.time ≤ b.time := by
  induction es generalizing o with
  | nil => exact h
  | cons e rest ih => exact ih (pairwise_append e h)

/-- Entries of distinct times stand in strict order. -/
theorem pairwise_lt_ofEntries {es : List OutboxEntry} (h : (es.map OutboxEntry.time).Nodup) :
    (ofEntries es).Pairwise fun a b => a.time < b.time := by
  have hle : (ofEntries es).Pairwise fun a b => a.time ≤ b.time := pairwise_foldl_append es .nil
  have hnodup := ((ofEntries_perm es).map OutboxEntry.time).nodup_iff.mpr h
  have hne : (ofEntries es).Pairwise fun a b => a.time ≠ b.time := List.pairwise_map.mp hnodup
  exact (hle.and hne).imp fun ⟨hab, hab'⟩ => Int64.lt_of_le_of_ne hab hab'

/-- What pickups that begin at a time have to hand over: the later entries, in some channels or
all, that fit a batch. -/
def due (o : Outbox) (after : Time) (channels : List String) (budget : Nat) : List OutboxEntry :=
  (o.since after channels).filter fun e => decide (cost e ≤ budget)

theorem mem_due {o : Outbox} {after : Time} {channels : List String} {budget : Nat}
    {e : OutboxEntry} :
    e ∈ o.due after channels budget ↔ e ∈ o ∧ after < e.time ∧
      (channels = [] ∨ e.channel ∈ channels) ∧ cost e ≤ budget := by
  simp only [due, since, isWanted, List.mem_filter, Bool.and_eq_true, Bool.or_eq_true,
    decide_eq_true_eq, List.isEmpty_iff, List.contains_iff_mem, and_assoc]

theorem lt_of_mem_due {o : Outbox} {after : Time} {channels : List String} {budget : Nat}
    {e : OutboxEntry} (h : e ∈ o.due after channels budget) : after < e.time := (mem_due.mp h).2.1

theorem pairwise_due {o : Outbox} (ho : o.Pairwise fun a b => a.time < b.time) (after : Time)
    (channels : List String) (budget : Nat) :
    (o.due after channels budget).Pairwise fun a b => a.time < b.time :=
  (ho.filter _).filter _

theorem due_of_le (o : Outbox) {after later : Time} (h : after ≤ later) (channels : List String)
    (budget : Nat) :
    o.due later channels budget =
      (o.due after channels budget).filter fun e => decide (later < e.time) := by
  simp only [due, since, List.filter_filter]
  refine List.filter_congr fun e _ => ?_
  by_cases hlt : later < e.time
  · simp [isWanted, hlt, Int64.lt_of_le_of_lt h hlt]
  · simp [isWanted, hlt]

/-- **The time of the last entry taken parts what was taken from what is left.** -/
theorem due_getLast {o : Outbox} (ho : o.Pairwise fun a b => a.time < b.time) {after : Time}
    {channels : List String} {budget : Nat} {taken rest : List OutboxEntry} (hne : taken ≠ [])
    (h : o.due after channels budget = taken ++ rest) :
    o.due (taken.getLast hne).time channels budget = rest := by
  have hlast : after < (taken.getLast hne).time :=
    lt_of_mem_due (h ▸ List.mem_append_left rest (List.getLast_mem hne))
  have hsorted := pairwise_due ho after channels budget
  rw [h] at hsorted
  obtain ⟨htaken, _, hparts⟩ := List.pairwise_append.mp hsorted
  -- No entry that was taken is later than the last of them, and every other one is.
  have hnone : taken.filter (fun e => decide ((taken.getLast hne).time < e.time)) = [] := by
    rw [List.filter_eq_nil_iff]
    intro e he
    have hsplit := List.dropLast_append_getLast hne
    rw [← hsplit] at he htaken
    rcases List.mem_append.mp he with he | he
    · have hlt := (List.pairwise_append.mp htaken).2.2 e he _ (List.mem_singleton_self _)
      simpa using Int64.le_of_lt hlt
    · rw [List.mem_singleton.mp he]
      simp
  have hall : rest.filter (fun e => decide ((taken.getLast hne).time < e.time)) = rest :=
    List.filter_eq_self.mpr fun e he =>
      decide_eq_true (hparts _ (List.getLast_mem hne) e he)
  rw [due_of_le o (Int64.le_of_lt hlast), h, List.filter_append, hnone, hall, List.nil_append]

end Outbox

variable [Cryptography]

/-! ### One pickup -/

namespace Node

omit [Cryptography] in
theorem since_of_up {n : Node} (hup : StoreCall.outboxSince.name ∉ n.backend.down) (since : Time)
    (channels : List String) :
    n.backend.since since channels = .ok (n.backend.store.outbox.since since channels) := by
  rw [Backend.since, Backend.attempt, if_neg (by simpa using hup)]

theorem pickup_of_down {n : Node} (hdown : StoreCall.outboxSince.name ∈ n.backend.down)
    (caller : PublicKey) (since : Time) (maxBytes : Nat) (channels : List String) :
    n.pickup caller since maxBytes channels =
      (.error (.store (.backend "outbox_since failed")), n) := by
  unfold pickup Backend.since Backend.attempt
  rw [if_pos (by simpa using hdown)]
  rfl

/-- Only a store in service is picked up from. -/
theorem up_of_pickup {n n' : Node} {caller : PublicKey} {since : Time} {maxBytes : Nat}
    {channels : List String} {b : Bundle}
    (h : n.pickup caller since maxBytes channels = (.ok b, n')) :
    StoreCall.outboxSince.name ∉ n.backend.down := by
  intro hdown
  rw [pickup_of_down hdown] at h
  cases h

/-- The entries that a pickup takes: as many of the first as go into a batch. -/
def taken (n : Node) (since : Time) (maxBytes : Nat) (channels : List String) :
    List OutboxEntry :=
  gather (maxBytes - batchOverhead) 0 (n.backend.store.outbox.since since channels)

omit [Cryptography] in
theorem sum_cost_taken_le (n : Node) (since : Time) (maxBytes : Nat) (channels : List String) :
    ((n.taken since maxBytes channels).map cost).sum ≤ maxBytes - batchOverhead := by
  have hsum := Bundle.sum_cost_gather_le (Nat.zero_le (maxBytes - batchOverhead))
    (n.backend.store.outbox.since since channels)
  rwa [Nat.zero_add] at hsum

/-- A store in service makes a bundle of what a pickup takes. -/
theorem pickup_of_up {n : Node} (hup : StoreCall.outboxSince.name ∉ n.backend.down)
    (caller : PublicKey) (since : Time) (maxBytes : Nat) (channels : List String) :
    (n.taken since maxBytes channels = [] ∧
      n.pickup caller since maxBytes channels = (.ok (Bundle.empty since), n)) ∨
    (n.taken since maxBytes channels ≠ [] ∧
      n.pickup caller since maxBytes channels =
        (.ok ⟨SealedBox.close caller n.drawSecret.1
            (Bundle.batch (n.taken since maxBytes channels)),
          Bundle.newest since (n.taken since maxBytes channels)⟩, n.drawSecret.2)) := by
  have hpickup : n.pickup caller since maxBytes channels =
      if (n.taken since maxBytes channels).isEmpty then (.ok (Bundle.empty since), n)
      else (.ok ⟨SealedBox.close caller n.drawSecret.1
          (Bundle.batch (n.taken since maxBytes channels)),
        Bundle.newest since (n.taken since maxBytes channels)⟩, n.drawSecret.2) := by
    unfold pickup
    rw [since_of_up hup]
    rfl
  rw [hpickup]
  by_cases hnone : n.taken since maxBytes channels = []
  · exact .inl ⟨hnone, if_pos (by rw [hnone]; rfl)⟩
  · exact .inr ⟨hnone, if_neg (by simpa using hnone)⟩

theorem exists_pickup {n : Node} (hup : StoreCall.outboxSince.name ∉ n.backend.down)
    (caller : PublicKey) (since : Time) (maxBytes : Nat) (channels : List String) :
    ∃ b n', n.pickup caller since maxBytes channels = (.ok b, n') := by
  rcases pickup_of_up hup caller since maxBytes channels with ⟨_, hpickup⟩ | ⟨_, hpickup⟩
  · exact ⟨_, _, hpickup⟩
  · exact ⟨_, _, hpickup⟩

/-- **All that a pickup can answer** while the store is in service. Where nothing is due the
bundle is empty; otherwise it takes some entries off the front of what is due, and its time parts
them from what is left. -/
theorem pickup_cases [Cryptography.Lawful] {n : Node}
    (hup : StoreCall.outboxSince.name ∉ n.backend.down)
    (ho : n.backend.store.outbox.Pairwise fun a b => a.time < b.time) (caller : PublicKey)
    (since : Time) {maxBytes : Nat} (hmax : maxBytes < UInt64.size) (channels : List String) :
    (n.backend.store.outbox.due since channels (maxBytes - batchOverhead) = [] ∧
      n.pickup caller since maxBytes channels = (.ok (Bundle.empty since), n)) ∨
    ∃ b taken,
      n.backend.store.outbox.due since channels (maxBytes - batchOverhead) =
        taken ++ n.backend.store.outbox.due b.time channels (maxBytes - batchOverhead) ∧
      n.pickup caller since maxBytes channels = (.ok b, n.drawSecret.2) ∧
      (∃ e ∈ taken, e.time = b.time) ∧
      b.data = SealedBox.close caller n.drawSecret.1 (Bundle.batch taken) ∧
      ∀ k : Keypair, k.publicKey = caller → b.Carries k maxBytes taken := by
  rcases pickup_of_up hup caller since maxBytes channels with ⟨hnone, hpickup⟩ | ⟨hne, hpickup⟩
  · left
    have hover := Bundle.lt_cost_of_gather_eq_nil hnone
    exact ⟨List.filter_eq_nil_iff.mpr fun e he => by simpa using hover e he, hpickup⟩
  · right
    obtain ⟨rest, hrest⟩ := Bundle.gather_append (maxBytes - batchOverhead) 0
      (n.backend.store.outbox.since since channels)
    have hdue : n.backend.store.outbox.due since channels (maxBytes - batchOverhead) =
        n.taken since maxBytes channels ++ rest := hrest.symm
    have hsorted := Outbox.pairwise_due ho since channels (maxBytes - batchOverhead)
    rw [hdue] at hsorted
    have hordered := (List.pairwise_append.mp hsorted).1
    have hsince : ∀ e ∈ n.taken since maxBytes channels, since < e.time := fun e he =>
      Outbox.lt_of_mem_due (hdue ▸ List.mem_append_left rest he)
    have hsum := n.sum_cost_taken_le since maxBytes channels
    have hafter := Outbox.due_getLast ho hne hdue
    have hnewest := Bundle.newest_of_pairwise hne hsince hordered
    rw [← hnewest] at hafter
    refine ⟨_, n.taken since maxBytes channels, ?_, hpickup,
      ⟨_, List.getLast_mem hne, hnewest.symm⟩, rfl, ?_⟩
    · rw [hdue, hafter]
    · rintro k rfl
      exact Bundle.carries_close k n.drawSecret.1 hmax hne hsum hsince hordered

/-! ### Pickups in a row -/

/-- A caller picks up bundle after bundle, each from the time of the one before it, until one is
empty and has the time that was asked for. -/
inductive Drains (caller : PublicKey) (maxBytes : Nat) (channels : List String) :
    Node → Time → List Bundle → Prop
  | done {n n' : Node} {since : Time}
      (h : n.pickup caller since maxBytes channels = (.ok (Bundle.empty since), n')) :
      Drains caller maxBytes channels n since []
  | more {n n' : Node} {since : Time} {b : Bundle} {bs : List Bundle}
      (h : n.pickup caller since maxBytes channels = (.ok b, n')) (hb : b.isEmpty = false)
      (rest : Drains caller maxBytes channels n' b.time bs) :
      Drains caller maxBytes channels n since (b :: bs)

/-- Pickups hand over what is due, batch by batch. -/
theorem drains_due [Cryptography.Lawful] (k : Keypair) (maxBytes : UInt64) (channels : List String)
    {n : Node} (hup : StoreCall.outboxSince.name ∉ n.backend.down)
    (ho : n.backend.store.outbox.Pairwise fun a b => a.time < b.time) (since : Time) :
    ∃ bundles batches, Drains k.publicKey maxBytes.toNat channels n since bundles ∧
      List.Forall₂ (fun b es => Bundle.Carries b k maxBytes.toNat es) bundles batches ∧
      batches.flatten = n.backend.store.outbox.due since channels
        (maxBytes.toNat - batchOverhead) := by
  -- Every bundle takes at least one entry off what is due.
  induction hl : (n.backend.store.outbox.due since channels
    (maxBytes.toNat - batchOverhead)).length using Nat.strong_induction_on generalizing n since with
  | _ l ih =>
  rcases pickup_cases hup ho k.publicKey since maxBytes.toNat_lt channels with
    ⟨hnone, hpickup⟩ | ⟨b, taken, hdue, hpickup, ⟨e, he, _⟩, _, hcarries⟩
  · exact ⟨[], [], .done hpickup, .nil, hnone.symm⟩
  · have hcarries := hcarries k rfl
    have hshorter : (n.backend.store.outbox.due b.time channels
        (maxBytes.toNat - batchOverhead)).length < l := by
      have hpos := List.length_pos_of_mem he
      rw [← hl, hdue, List.length_append]
      omega
    obtain ⟨bundles, batches, hdrains, hall, hflat⟩ :=
      ih _ hshorter (n := n.drawSecret.2) hup ho b.time rfl
    refine ⟨b :: bundles, taken :: batches, .more hpickup hcarries.isEmpty hdrains,
      .cons hcarries hall, ?_⟩
    rw [List.flatten_cons, hflat, hdue]
    rfl

/-- **Pickups drain exactly.** Whatever was put into the outbox under distinct times, a caller who
picks up bundle after bundle comes to an empty one with the time it asked for; before it, every
bundle opens to a batch of at most `maxBytes` bytes and has the time of its last entry, and the
batches together are, in the order of their times and each once, the entries that are later than
the beginning, stand in a channel asked for, and fit a batch of their own. -/
theorem pickup_drains [Cryptography.Lawful] {n : Node} {entries : List OutboxEntry}
    (hdistinct : (entries.map OutboxEntry.time).Nodup)
    (houtbox : n.backend.store.outbox = Outbox.ofEntries entries)
    (hup : StoreCall.outboxSince.name ∉ n.backend.down) (k : Keypair) (since : Time)
    (maxBytes : UInt64) (channels : List String) :
    ∃ bundles batches, Drains k.publicKey maxBytes.toNat channels n since bundles ∧
      List.Forall₂ (fun b es => Bundle.Carries b k maxBytes.toNat es) bundles batches ∧
      (batches.flatten.Pairwise fun a b => a.time < b.time) ∧
      ∀ e, e ∈ batches.flatten ↔ e ∈ entries ∧ since < e.time ∧
        (channels = [] ∨ e.channel ∈ channels) ∧
        Varint.length e.data.length + e.data.length ≤ maxBytes.toNat - 11 := by
  have ho := Outbox.pairwise_lt_ofEntries hdistinct
  rw [← houtbox] at ho
  obtain ⟨bundles, batches, hdrains, hall, hflat⟩ := drains_due k maxBytes channels hup ho since
  refine ⟨bundles, batches, hdrains, hall, ?_, ?_⟩
  · rw [hflat]
    exact Outbox.pairwise_due ho _ _ _
  · intro e
    rw [hflat, Outbox.mem_due, houtbox, (Outbox.ofEntries_perm entries).mem_iff]
    rfl

omit [Cryptography] in
/-- A node that knows no one, with one transport and an outbox that it has just stamped. -/
def keeping (routing : Keypair) (byteLimit : Nat) (o : Outbox) : Node where
  settings := { identity := { contentKeyPath := "content.key", routingKeyPath := "routing.key" } }
  transports := .ofList [(defaultScheme, ⟨defaultScheme, byteLimit⟩)]
  chunkSize := byteLimit
  router :=
    { settings := {}
      identity := { content := routing, routing := routing }
      backend := { store := { outbox := o } }
      clock := { wall := fun _ => 0, stamped := Bundle.newest 0 o }
      queue := .ofDepth 1 }
  entropy := { secret := fun _ => Key.zero }

omit [Cryptography] in
/-- With room for one short letter at a time, two short letters arrive and the long one is passed
over. -/
theorem pickup_drains_two_of_three :
    letI := Cryptography.transparent
    ∃ bundles batches,
      Drains (Keypair.publicKey ⟨.chacha, Key.zero⟩) (UInt64.toNat 13) []
        (keeping ⟨.chacha, Key.zero⟩ 4096
          (Outbox.ofEntries [⟨"", [7], 5⟩, ⟨"news", [8, 9, 8, 9], 3⟩, ⟨"news", [8], 4⟩]))
        0 bundles ∧
      List.Forall₂ (fun b es => Bundle.Carries b ⟨.chacha, Key.zero⟩ (UInt64.toNat 13) es)
        bundles batches ∧
      (batches.flatten.Pairwise fun a b => a.time < b.time) ∧
      ∀ e, e ∈ batches.flatten ↔
        e ∈ [⟨"", [7], 5⟩, ⟨"news", [8, 9, 8, 9], 3⟩, ⟨"news", [8], 4⟩] ∧ 0 < e.time ∧
        (([] : List String) = [] ∨ e.channel ∈ []) ∧
        Varint.length e.data.length + e.data.length ≤ UInt64.toNat 13 - 11 :=
  letI := Cryptography.transparent
  haveI := Cryptography.lawful_transparent
  pickup_drains (by decide) rfl (by decide) ⟨.chacha, Key.zero⟩ 0 13 []

end Node

end Courier
