import Mathlib
import Courier.Proofs.Stream.Parts

/-!
## Streams at a receiver, whatever comes

Anyone can send a receiver anything: records that cannot be read, headers that contradict each
other, chunks of streams that do not exist. A ledger notes which parts the receiver has kept of each
stream that it holds, and what it has fired. At every moment what is there of a stream is what the
parts say that were kept of it, the bounds hold, and no stream is both held and finished.

* `Pending.Holds`: what is there of a stream; `Pending.Holds.put` for one more part.
* `Pending.isComplete_iff`: complete means that every index is there.
* `Ledger.Sound`, `Ledger.Sound.step`: what every event preserves.
* `Ledger.Spaced`, `Ledger.Spaced.step`: what holds as long as streams are dropped and forgotten at
  the usual age.
* `Ledger.sound_run`: all of it for whole runs.
-/

namespace Courier.Stream

/-! ### What was kept of a stream -/

/-- What the first header among some parts announces. -/
def announced (parts : List Part) : Option Announcement := parts.findSome? Part.announcement?

/-- The payload of the first chunk of an index among some parts. -/
def firstPayload (parts : List Part) (index : UInt32) : Option Bytes :=
  parts.findSome? (Part.payload? index)

theorem announced_append (parts : List Part) (part : Part) :
    announced (parts ++ [part]) = (announced parts).or part.announcement? := by
  rw [announced, List.findSome?_append, List.findSome?_singleton, announced]

theorem firstPayload_append (parts : List Part) (part : Part) (index : UInt32) :
    firstPayload (parts ++ [part]) index =
      (firstPayload parts index).or (part.payload? index) := by
  rw [firstPayload, List.findSome?_append, List.findSome?_singleton, firstPayload]

namespace Pending

/-- Whether an index is below the total, as far as that is known. -/
def spans (p : Pending) (index : UInt32) : Bool :=
  match p.announcement with
  | some a => decide (index < a.total)
  | none => true

/-- What is there of a stream is what the parts say that were kept of it: the first header counts,
and the first chunk of each index. -/
structure Holds (p : Pending) (parts : List Part) : Prop where
  announcement : p.announcement = announced parts
  payloads : ∀ index, p.payloads.find? index =
    (firstPayload parts index).filter fun _ => p.spans index
  orphans : p.announcement = none → p.payloads.size ≤ maxOrphans

theorem holds_nil (started : Nat) : Holds { started := started } [] :=
  ⟨rfl, fun _ => rfl, fun _ => Nat.zero_le _⟩

variable {p : Pending} {parts : List Part}

theorem Holds.find?_of_spans (hp : p.Holds parts) {index : UInt32} (h : p.spans index = true) :
    p.payloads.find? index = firstPayload parts index := by
  rw [hp.payloads]
  cases firstPayload parts index with
  | none => rfl
  | some payload => exact Option.filter_some_pos h

/-- The first header sets the bound for the chunks that are there. -/
theorem Holds.announce (hp : p.Holds parts) (h : StreamHeader) (mailClass : MailClass) :
    (p.announce h mailClass).Holds (parts ++ [.header h mailClass]) := by
  have hann : (p.announce h mailClass).announcement =
      announced (parts ++ [.header h mailClass]) := by
    rw [announcement_announce, hp.announcement, announced_append]
    rfl
  have hfirst : ∀ index, firstPayload (parts ++ [.header h mailClass]) index =
      firstPayload parts index := by
    intro index
    rw [firstPayload_append]
    exact Option.or_none
  cases hbefore : p.announcement with
  | some a =>
    -- A second header changes nothing, and is not the first among the parts either.
    have hsame : p.announce h mailClass = p := by
      unfold Pending.announce
      rw [hbefore]
    rw [hsame] at hann ⊢
    refine ⟨hann, fun index => ?_, hp.orphans⟩
    rw [hfirst, hp.payloads]
  | none =>
    have hnew : p.announce h mailClass = { p with
        announcement := some ⟨h.total, h.channel, mailClass⟩
        payloads := p.payloads.filter fun index _ => index < h.total } := by
      unfold Pending.announce
      rw [hbefore]
    -- So far every chunk was kept, and those that are dropped now are those past the total.
    have hspans : ∀ index, p.spans index = true := by
      intro index
      rw [spans, hbefore]
    refine ⟨hann, fun index => ?_, fun hnone => ?_⟩
    · rw [hfirst, ← hp.find?_of_spans (hspans index), hnew]
      exact Table.find?_filter _ _ _
    · rw [hnew] at hnone
      cases hnone

/-- The first chunk of an index counts. -/
theorem Holds.add (hp : p.Holds parts) {c : Chunk} (haccepts : p.accepts c.index = true) :
    (p.add c).Holds (parts ++ [.chunk c]) := by
  have hann : (p.add c).announcement = announced (parts ++ [.chunk c]) := by
    rw [announcement_add, hp.announcement, announced_append]
    exact Option.or_none.symm
  have hsame : ∀ index, (p.add c).spans index = p.spans index := by
    intro index
    rw [spans, announcement_add, spans]
  have hspans : p.spans c.index = true := by
    unfold accepts at haccepts
    unfold spans
    cases hbefore : p.announcement with
    | some a =>
      rw [hbefore] at haccepts
      exact haccepts
    | none => rfl
  refine ⟨hann, fun index => ?_, fun hnone => ?_⟩
  · rw [hsame, firstPayload_append, Part.payload?, payloads_add]
    by_cases hindex : c.index = index
    · subst hindex
      rw [if_pos rfl, hspans, ← hp.find?_of_spans hspans]
      cases hfound : p.payloads.find? c.index with
      | some payload =>
        have hknown : p.payloads.contains c.index = true := by
          rw [Table.contains, hfound]
          rfl
        rw [if_pos hknown, hfound]
        rfl
      | none =>
        have hnew : ¬p.payloads.contains c.index = true := by
          rw [Table.contains, hfound]
          exact Bool.false_ne_true
        rw [if_neg hnew, Table.find?_insert, if_pos rfl]
        rfl
    · rw [if_neg hindex, Option.or_none, ← hp.payloads]
      split
      · rfl
      · rw [Table.find?_insert, if_neg hindex]
  · rw [announcement_add] at hnone
    have hbefore := hp.orphans hnone
    rw [payloads_add]
    split
    · exact hbefore
    · rename_i hnew
      rw [accepts, hnone] at haccepts
      have hroom := (Bool.or_eq_true_iff.mp haccepts).resolve_left hnew
      rw [Table.size_insert, if_neg hnew]
      exact Nat.succ_le_of_lt (of_decide_eq_true hroom)

/-- One more part that is kept. -/
theorem Holds.put (hp : p.Holds parts) {part : Part} (hkeeps : p.keeps part = true) :
    (p.put part).Holds (parts ++ [part]) := by
  cases part with
  | header h mailClass => exact hp.announce h mailClass
  | chunk c => exact hp.add hkeeps

/-! ### Complete streams -/

/-- The indices below a total, in order. -/
def indices (total : UInt32) : List UInt32 := (List.range total.toNat).map UInt32.ofNat

theorem mem_indices {total index : UInt32} : index ∈ indices total ↔ index < total := by
  rw [indices, List.mem_map, UInt32.lt_iff_toNat_lt]
  constructor
  · rintro ⟨i, hi, rfl⟩
    rw [List.mem_range] at hi
    rwa [UInt32.toNat_ofNat_of_lt' (Nat.lt_trans hi total.toNat_lt)]
  · intro hlt
    exact ⟨index.toNat, List.mem_range.mpr hlt, UInt32.ofNat_toNat⟩

theorem pairwise_indices (total : UInt32) : (indices total).Pairwise (· < ·) := by
  refine List.pairwise_map.mpr (List.pairwise_lt_range.imp_of_mem fun {i j} _ hj hij => ?_)
  exact ofNat_lt_ofNat hij (Nat.lt_trans (List.mem_range.mp hj) total.toNat_lt)

theorem length_indices (total : UInt32) : (indices total).length = total.toNat := by
  rw [indices, List.length_map, List.length_range]

variable {a : Announcement}

theorem Holds.lt_total (hp : p.Holds parts) (ha : p.announcement = some a) {index : UInt32}
    (h : index ∈ p.payloads.keys) : index < a.total := by
  obtain ⟨payload, hfound⟩ := Table.mem_keys_iff.mp h
  rw [hp.payloads, Option.filter_eq_some_iff, spans, ha] at hfound
  exact of_decide_eq_true hfound.2

/-- **Complete means that every index is there**, if those that are there are below the total. -/
theorem isComplete_iff (ha : p.announcement = some a)
    (hbound : ∀ index ∈ p.payloads.keys, index < a.total) :
    p.isComplete = true ↔ ∀ index < a.total, index ∈ p.payloads.keys := by
  have hsub : p.payloads.keys ⊆ indices a.total := fun index h => mem_indices.mpr (hbound index h)
  have hnodup : (indices a.total).Nodup := (pairwise_indices a.total).imp Std.ne_of_lt
  rw [isComplete, ha]
  dsimp only
  rw [beq_iff_eq, ← Table.length_keys, ← length_indices]
  constructor
  · -- As many different indices as there are below the total, and all of them below it.
    intro hlength index hindex
    have hperm := (List.subperm_of_subset (Table.nodup_keys _) hsub).perm_of_length_le hlength.ge
    exact hperm.mem_iff.mpr (mem_indices.mpr hindex)
  · intro hall
    have hperm : p.payloads.keys.Perm (indices a.total) := by
      rw [List.perm_ext_iff_of_nodup (Table.nodup_keys _) hnodup]
      exact fun index => ⟨fun h => hsub h, fun h => hall index (mem_indices.mp h)⟩
    exact hperm.length_eq

/-- What is fired is the first payload of every index, in the order of the indices. -/
theorem Holds.delivery?_eq (hp : p.Holds parts) (ha : p.announcement = some a)
    (hcomplete : p.isComplete = true) :
    (∀ index < a.total, (firstPayload parts index).isSome) ∧
      p.delivery? = some ⟨a.mailClass, a.channel,
        (indices a.total).flatMap fun index => (firstPayload parts index).getD []⟩ := by
  have hbound : ∀ index ∈ p.payloads.keys, index < a.total := fun index h => hp.lt_total ha h
  have hall := (isComplete_iff ha hbound).mp hcomplete
  have hfound : ∀ index < a.total, p.payloads.find? index = firstPayload parts index := by
    intro index hindex
    refine hp.find?_of_spans ?_
    rw [spans, ha]
    exact decide_eq_true hindex
  have hsome : ∀ index < a.total, (firstPayload parts index).isSome := by
    intro index hindex
    obtain ⟨payload, hpayload⟩ := Table.mem_keys_iff.mp (hall index hindex)
    rw [← hfound index hindex, hpayload]
    rfl
  refine ⟨hsome, ?_⟩
  have hentries : p.payloads.entries =
      (indices a.total).map fun index => (index, (firstPayload parts index).getD []) := by
    refine Table.entries_ext p.payloads.sorted
      (List.pairwise_map.mpr (pairwise_indices a.total)) fun e => ?_
    obtain ⟨index, payload⟩ := e
    rw [← Table.find?_eq_some_iff, List.mem_map]
    constructor
    · intro h
      have hlt := hbound index (Table.mem_keys_iff.mpr ⟨payload, h⟩)
      refine ⟨index, mem_indices.mpr hlt, ?_⟩
      rw [← hfound index hlt, h, Option.getD_some]
    · rintro ⟨index', hmem, heq⟩
      obtain ⟨rfl, rfl⟩ := Prod.mk.inj heq
      have hlt := mem_indices.mp hmem
      obtain ⟨payload, hpayload⟩ := Option.isSome_iff_exists.mp (hsome index' hlt)
      rw [hfound index' hlt, hpayload, Option.getD_some]
  have hvalues : p.payloads.values =
      (indices a.total).map fun index => (firstPayload parts index).getD [] := by
    rw [Table.values, hentries, List.map_map]
    rfl
  rw [delivery?, ha, Option.map_some, hvalues, List.flatMap_def]

end Pending

/-! ### Ledgers -/

/-- A content that was fired: for which stream, when, from which parts, and what was offered. -/
structure Firing where
  stream : UInt32
  time : Nat
  parts : List Part
  delivery : Delivery

/-- What was offered is the whole content: under the class and the channel of the first header, the
first payload of every index in order. -/
def Firing.IsWhole (f : Firing) : Prop :=
  ∃ a, announced f.parts = some a ∧
    (∀ index < a.total, (firstPayload f.parts index).isSome) ∧
    f.delivery = ⟨a.mailClass, a.channel,
      (Pending.indices a.total).flatMap fun index => (firstPayload f.parts index).getD []⟩

/-- A receiver with the parts that it has kept of each stream it holds, and all that it has fired. -/
structure Ledger where
  streams : Reassembler := {}
  queue : DeliveryQueue
  kept : UInt32 → List Part := fun _ => []
  fired : List Firing := []

namespace Ledger

/-- What happens at a receiver. -/
inductive Event
  /-- Bytes come that were opened with a key of some class, under some flags. -/
  | record (flags : Flags) (plaintext : Bytes) (mailClass : MailClass)
  /-- What is complete is fired. -/
  | deliver
  /-- Streams of some age are dropped, and finished ones forgotten. -/
  | evict (age : Nat)
  /-- Time passes. -/
  | pass (elapsed : Nat)

/-- The parts kept of the streams that are still held. -/
def keptOf (l : Ledger) (streams : Reassembler) (id : UInt32) : List Part :=
  if streams.pending.contains id then l.kept id else []

/-- What an event does. -/
def step (l : Ledger) : Event → Ledger
  | .record flags plaintext mailClass =>
    { l with
      streams := l.streams.take flags plaintext mailClass
      kept := match Part.read? flags plaintext mailClass with
        | none => l.kept
        | some part =>
          if l.streams.keeps part then
            Function.update l.kept part.stream (l.kept part.stream ++ [part])
          else l.kept }
  | .deliver =>
    let (_, streams, queue) := l.streams.deliver l.queue
    { streams := streams
      queue := queue
      kept := l.keptOf streams
      fired := l.fired ++
        l.streams.offers.map fun o => ⟨o.1, l.streams.now, l.kept o.1, o.2⟩ }
  | .evict age =>
    let (_, streams) := l.streams.evict age
    { l with streams := streams, kept := l.keptOf streams }
  | .pass elapsed => { l with streams := l.streams.atTime (l.streams.now + elapsed) }

/-- What some events do, one after the other. -/
def run (l : Ledger) (events : List Event) : Ledger := events.foldl step l

theorem run_append (l : Ledger) (events : List Event) (e : Event) :
    l.run (events ++ [e]) = (l.run events).step e := by
  rw [run, List.foldl_append]
  rfl

/-- What holds of a receiver at every moment. -/
structure Sound (l : Ledger) : Prop where
  size : l.streams.pending.size ≤ maxPending
  holds : ∀ id p, l.streams.pending.find? id = some p → p.Holds (l.kept id)
  vacant : ∀ id, l.streams.pending.find? id = none → l.kept id = []
  own : ∀ id, ∀ part ∈ l.kept id, part.stream = id
  apart : ∀ id p, l.streams.pending.find? id = some p → l.streams.finished.find? id = none
  whole : ∀ f ∈ l.fired, f.IsWhole ∧ ∀ part ∈ f.parts, part.stream = f.stream

variable {l : Ledger}

theorem sound_start (queue : DeliveryQueue) : Sound { queue := queue } where
  size := Nat.zero_le _
  holds := fun id p h => by cases h
  vacant := fun _ _ => rfl
  own := fun _ _ h => by cases h
  apart := fun id p h => by cases h
  whole := List.forall_mem_nil _

/-! ### Records -/

/-- What is there of a stream, held or not, is what was kept of it. -/
theorem Sound.holds_stream (hl : l.Sound) (id : UInt32) :
    (l.streams.stream id).Holds (l.kept id) := by
  unfold Reassembler.stream
  cases hfind : l.streams.pending.find? id with
  | some p => exact hl.holds id p hfind
  | none =>
    rw [hl.vacant id hfind]
    exact Pending.holds_nil _

theorem Sound.put (hl : l.Sound) {part : Part} (hkeeps : l.streams.keeps part = true) :
    Sound { l with
      streams := l.streams.put part
      kept := Function.update l.kept part.stream (l.kept part.stream ++ [part]) } := by
  obtain ⟨hadmits, hpart⟩ := Bool.and_eq_true_iff.mp hkeeps
  obtain ⟨-, hroom⟩ := Bool.and_eq_true_iff.mp hadmits
  have hfind := l.streams.find?_put part
  -- Nothing changes but the stream of the part: the cases ask whether it is that one.
  refine ⟨?_, ?_, ?_, ?_, ?_, hl.whole⟩
  · show (l.streams.put part).pending.size ≤ maxPending
    rw [Reassembler.put, if_pos hkeeps, Table.size_insert]
    split
    · exact hl.size
    · rename_i hnone
      exact Nat.succ_le_of_lt (of_decide_eq_true ((Bool.or_eq_true_iff.mp hroom).resolve_left hnone))
  · intro id p hp
    dsimp only at hp ⊢
    rw [hfind] at hp
    by_cases hid : part.stream = id
    · subst hid
      rw [if_pos ⟨hkeeps, rfl⟩] at hp
      obtain rfl := Option.some.inj hp
      rw [Function.update_self]
      exact (hl.holds_stream part.stream).put hpart
    · rw [if_neg fun h => hid h.2] at hp
      rw [Function.update_of_ne (Ne.symm hid)]
      exact hl.holds id p hp
  · intro id hnone
    dsimp only at hnone ⊢
    rw [hfind] at hnone
    by_cases hid : part.stream = id
    · rw [if_pos ⟨hkeeps, hid⟩] at hnone
      cases hnone
    · rw [if_neg fun h => hid h.2] at hnone
      rw [Function.update_of_ne (Ne.symm hid)]
      exact hl.vacant id hnone
  · intro id x hx
    dsimp only at hx
    by_cases hid : id = part.stream
    · subst hid
      rw [Function.update_self] at hx
      rcases List.mem_append.mp hx with hx | hx
      · exact hl.own part.stream x hx
      · rw [List.mem_singleton.mp hx]
    · rw [Function.update_of_ne hid] at hx
      exact hl.own id x hx
  · exact Reassembler.Apart.put hl.apart part

theorem Sound.record (hl : l.Sound) (flags : Flags) (plaintext : Bytes) (mailClass : MailClass) :
    (l.step (.record flags plaintext mailClass)).Sound := by
  unfold step
  dsimp only
  rw [Reassembler.take_eq]
  cases Part.read? flags plaintext mailClass with
  | none => exact hl
  | some part =>
    dsimp only
    split
    · rename_i hkeeps
      exact hl.put hkeeps
    · rename_i hignored
      rw [Reassembler.put_of_not_keeps (Bool.eq_false_iff.mpr hignored)]
      exact hl

/-! ### Firing, dropping and waiting -/

/-- What lets go of streams, and finishes only streams that it lets go of, keeps the rest as it
was. -/
theorem Sound.release (hl : l.Sound) {streams : Reassembler}
    (hsize : streams.pending.size ≤ l.streams.pending.size)
    (hpending : ∀ id p, streams.pending.find? id = some p → l.streams.pending.find? id = some p)
    (hfinished : ∀ id p, streams.pending.find? id = some p → streams.finished.find? id = none)
    {queue : DeliveryQueue} {fired : List Firing}
    (hwhole : ∀ f ∈ fired, f.IsWhole ∧ ∀ part ∈ f.parts, part.stream = f.stream) :
    Sound ⟨streams, queue, l.keptOf streams, fired⟩ := by
  have hheld : ∀ id p, streams.pending.find? id = some p → l.keptOf streams id = l.kept id := by
    intro id p hp
    rw [keptOf, Table.contains, hp]
    rfl
  refine ⟨Nat.le_trans hsize hl.size, ?_, ?_, ?_, hfinished, hwhole⟩
  · intro id p hp
    show p.Holds (l.keptOf streams id)
    rw [hheld id p hp]
    exact hl.holds id p (hpending id p hp)
  · intro id hnone
    show l.keptOf streams id = []
    rw [keptOf, Table.contains, hnone]
    rfl
  · intro id part hpart
    dsimp only at hpart
    unfold keptOf at hpart
    split at hpart
    · exact hl.own id part hpart
    · cases hpart

/-- What is fired is whole. -/
theorem Sound.isWhole (hl : l.Sound) {o : UInt32 × Delivery} (ho : o ∈ l.streams.offers)
    (time : Nat) : Firing.IsWhole ⟨o.1, time, l.kept o.1, o.2⟩ := by
  obtain ⟨p, hfind, hcomplete, hd⟩ := Reassembler.mem_offers.mp ho
  have hp := hl.holds o.1 p hfind
  obtain ⟨a, ha, -⟩ := Option.map_eq_some_iff.mp hd
  obtain ⟨hall, hwhole⟩ := hp.delivery?_eq ha hcomplete
  rw [hd] at hwhole
  exact ⟨a, hp.announcement.symm.trans ha, hall, Option.some.inj hwhole⟩

theorem Sound.deliver (hl : l.Sound) : (l.step .deliver).Sound := by
  refine hl.release (Table.size_filter_le _ _)
    (fun id p hp => (Reassembler.find?_of_deliver (q := l.queue) hp).1)
    (Reassembler.Apart.deliver hl.apart l.queue) fun f hf => ?_
  rcases List.mem_append.mp hf with hf | hf
  · exact hl.whole f hf
  · obtain ⟨o, ho, rfl⟩ := List.mem_map.mp hf
    exact ⟨hl.isWhole ho _, hl.own o.1⟩

theorem Sound.evict (hl : l.Sound) (age : Nat) : (l.step (.evict age)).Sound := by
  refine hl.release (Table.size_filter_le _ _)
    (fun id p hp => Reassembler.find?_of_evict hp) (Reassembler.Apart.evict hl.apart age) hl.whole

/-- **What every event preserves.** -/
theorem Sound.step (hl : l.Sound) (e : Event) : (l.step e).Sound := by
  cases e with
  | record flags plaintext mailClass => exact hl.record flags plaintext mailClass
  | deliver => exact hl.deliver
  | evict age => exact hl.evict age
  | pass elapsed => exact ⟨hl.size, hl.holds, hl.vacant, hl.own, hl.apart, hl.whole⟩

/-! ### Firing a stream again -/

/-- A stream that was fired is remembered as finished until it may be fired again, and no two firings
of it are closer than that. -/
structure Spaced (l : Ledger) : Prop where
  resting : ∀ f ∈ l.fired,
    (∃ since, l.streams.finished.find? f.stream = some since ∧ f.time ≤ since) ∨
      f.time + timeout ≤ l.streams.now
  spaced : l.fired.Pairwise fun f g => f.stream = g.stream → f.time + timeout ≤ g.time

theorem spaced_start (queue : DeliveryQueue) : Spaced { queue := queue } :=
  ⟨List.forall_mem_nil _, .nil⟩

/-- Streams that are complete at one moment are different ones. -/
theorem pairwise_offers (r : Reassembler) : r.offers.Pairwise fun o o' => o.1 ≠ o'.1 := by
  -- They come in the order of their numbers, from a table.
  have hcomplete := r.pending.sorted.filter fun e => e.2.isComplete
  refine hcomplete.filterMap _ fun e e' hlt o ho o' ho' => ?_
  obtain ⟨d, -, rfl⟩ := Option.map_eq_some_iff.mp ho
  obtain ⟨d', -, rfl⟩ := Option.map_eq_some_iff.mp ho'
  exact Std.ne_of_lt hlt

theorem Spaced.record (hs : l.Spaced) (flags : Flags) (plaintext : Bytes)
    (mailClass : MailClass) : (l.step (.record flags plaintext mailClass)).Spaced := by
  refine ⟨?_, hs.spaced⟩
  show ∀ f ∈ l.fired, (∃ since, (l.streams.take flags plaintext mailClass).finished.find? f.stream =
    some since ∧ f.time ≤ since) ∨
      f.time + timeout ≤ (l.streams.take flags plaintext mailClass).now
  rw [Reassembler.take_eq]
  cases Part.read? flags plaintext mailClass with
  | none => exact hs.resting
  | some part =>
    dsimp only
    rw [Reassembler.finished_put, Reassembler.now_put]
    exact hs.resting

/-- What is complete is not finished, so its last firing is long past. -/
theorem Spaced.deliver (hs : l.Spaced) (hl : l.Sound) : (l.step .deliver).Spaced := by
  have hpast : ∀ f ∈ l.fired, ∀ o ∈ l.streams.offers, f.stream = o.1 →
      f.time + timeout ≤ l.streams.now := by
    intro f hf o ho hsame
    obtain ⟨p, hfind, -, -⟩ := Reassembler.mem_offers.mp ho
    rcases hs.resting f hf with ⟨since, hsince, -⟩ | hpast
    · rw [hsame, hl.apart o.1 p hfind] at hsince
      cases hsince
    · exact hpast
  have hfinished : ∀ id, (l.step .deliver).streams.finished.find? id =
      if l.streams.complete.any fun e => e.1 == id then some l.streams.now
      else l.streams.finished.find? id :=
    Reassembler.find?_foldl_insert l.streams.complete l.streams.now l.streams.finished
  constructor
  · intro f hf
    rw [hfinished]
    rcases List.mem_append.mp hf with hf | hf
    · rcases hs.resting f hf with ⟨since, hsince, hle⟩ | hpast
      · split
        · rename_i hany
          obtain ⟨e, he, hid⟩ := List.any_eq_true.mp hany
          -- A complete stream is not among those that are finished.
          obtain ⟨he, -⟩ := List.mem_filter.mp he
          have hnone := hl.apart e.1 e.2 ((Table.find?_eq_some_iff _ _ _).mpr he)
          rw [eq_of_beq hid, hsince] at hnone
          cases hnone
        · exact .inl ⟨since, hsince, hle⟩
      · exact .inr hpast
    · obtain ⟨o, ho, rfl⟩ := List.mem_map.mp hf
      obtain ⟨p, hfind, hcomplete, -⟩ := Reassembler.mem_offers.mp ho
      have hany : (l.streams.complete.any fun e => e.1 == o.1) = true :=
        List.any_eq_true.mpr ⟨(o.1, p),
          List.mem_filter.mpr ⟨(Table.find?_eq_some_iff _ _ _).mp hfind, hcomplete⟩, beq_self_eq_true _⟩
      exact .inl ⟨l.streams.now, by rw [if_pos hany], Nat.le_refl _⟩
  · refine List.pairwise_append.mpr ⟨hs.spaced, ?_, ?_⟩
    · exact List.pairwise_map.mpr ((pairwise_offers l.streams).imp fun hne hsame => absurd hsame hne)
    · intro f hf g hg hsame
      obtain ⟨o, ho, rfl⟩ := List.mem_map.mp hg
      exact hpast f hf o ho hsame

/-- Only what was finished long ago is forgotten. -/
theorem Spaced.evict (hs : l.Spaced) : (l.step (.evict timeout)).Spaced := by
  refine ⟨fun f hf => ?_, hs.spaced⟩
  show (∃ since, (l.streams.finished.filter fun _ since =>
    decide (l.streams.now - since < timeout)).find? f.stream = some since ∧ f.time ≤ since) ∨
      f.time + timeout ≤ l.streams.now
  rw [Table.find?_filter]
  rcases hs.resting f hf with ⟨since, hsince, hle⟩ | hpast
  · by_cases hfresh : l.streams.now - since < timeout
    · refine .inl ⟨since, ?_, hle⟩
      rw [hsince]
      exact Option.filter_some_pos (decide_eq_true hfresh)
    · have htimeout : 0 < timeout := by decide
      exact .inr (by omega)
  · exact .inr hpast

theorem Spaced.pass (hs : l.Spaced) (elapsed : Nat) : (l.step (.pass elapsed)).Spaced := by
  refine ⟨fun f hf => ?_, hs.spaced⟩
  exact (hs.resting f hf).imp_right fun hpast => Nat.le_trans hpast (Nat.le_add_right _ _)

/-- What every event preserves, as long as streams are dropped and forgotten at the usual age. -/
theorem Spaced.step (hs : l.Spaced) (hl : l.Sound) {e : Event}
    (husual : ∀ age, e = .evict age → age = timeout) : (l.step e).Spaced := by
  cases e with
  | record flags plaintext mailClass => exact hs.record flags plaintext mailClass
  | deliver => exact hs.deliver hl
  | evict age =>
    obtain rfl := husual age rfl
    exact hs.evict
  | pass elapsed => exact hs.pass elapsed

/-! ### Runs -/

theorem sound_run (queue : DeliveryQueue) (events : List Event) :
    (run { queue := queue } events).Sound := by
  induction events using List.reverseRecOn with
  | nil => exact sound_start queue
  | append_singleton events e ih =>
    rw [run_append]
    exact ih.step e

theorem spaced_run (queue : DeliveryQueue) {events : List Event}
    (husual : ∀ age, .evict age ∈ events → age = timeout) :
    (run { queue := queue } events).Spaced := by
  induction events using List.reverseRecOn with
  | nil => exact spaced_start queue
  | append_singleton events e ih =>
    rw [run_append]
    refine (ih fun age h => husual age (List.mem_append_left _ h)).step (sound_run queue events) ?_
    rintro age rfl
    exact husual age (List.mem_concat_self)

/-- The queue of the reader was offered what was fired, and nothing else. -/
theorem queue_fired (queue : DeliveryQueue) (events : List Event) :
    (run { queue := queue } events).queue =
      (run { queue := queue } events).fired.foldl (fun q f => (q.offer f.delivery).2) queue := by
  induction events using List.reverseRecOn with
  | nil => rfl
  | append_singleton events e ih =>
    rw [run_append]
    generalize run { queue := queue } events = l at ih ⊢
    cases e with
    | record flags plaintext mailClass => exact ih
    | deliver =>
      show (l.streams.deliver l.queue).2.2 = _
      unfold step
      dsimp only
      rw [Reassembler.queue_deliver, List.foldl_append, List.foldl_map, ← ih]
    | evict age => exact ih
    | pass elapsed => exact ih

/-- **The streams of a receiver, whatever comes.** However headers, chunks and other bytes come, and
whenever streams are fired and dropped: no more streams are held than there is room for, a stream
without a header has no more chunks than are kept of such, the chunks of one with a header are below
its total, so that it is complete exactly when all are there, and no stream is both held and
finished. What was fired is whole, with the class and the channel of the first header. And if
streams are dropped and forgotten at the usual age, no stream is fired again before that time. -/
theorem streams_whatever_comes (queue : DeliveryQueue) (events : List Event) :
    let l := run { queue := queue } events
    l.streams.pending.size ≤ maxPending ∧
      (∀ id p, l.streams.pending.find? id = some p →
        (p.announcement = none → p.payloads.size ≤ maxOrphans) ∧
        (∀ a, p.announcement = some a →
          (∀ index ∈ p.payloads.keys, index < a.total) ∧
          (p.isComplete = true ↔ ∀ index < a.total, index ∈ p.payloads.keys)) ∧
        l.streams.finished.contains id = false) ∧
      l.queue = l.fired.foldl (fun q f => (q.offer f.delivery).2) queue ∧
      (∀ f ∈ l.fired, f.IsWhole ∧ ∀ part ∈ f.parts, part.stream = f.stream) ∧
      ((∀ age, .evict age ∈ events → age = timeout) →
        l.fired.Pairwise fun f g => f.stream = g.stream → f.time + timeout ≤ g.time) := by
  have hl := sound_run queue events
  refine ⟨hl.size, fun id p hfind => ?_, queue_fired queue events, hl.whole,
    fun husual => (spaced_run queue husual).spaced⟩
  have hp := hl.holds id p hfind
  refine ⟨hp.orphans, fun a ha => ?_, Table.contains_eq_false_iff.mpr (hl.apart id p hfind)⟩
  have hbound : ∀ index ∈ p.payloads.keys, index < a.total := fun index h => hp.lt_total ha h
  exact ⟨hbound, Pending.isComplete_iff ha hbound⟩

/-- A stream of one chunk, its header last, and the same again when the first is forgotten. -/
def twice : List Event :=
  let parts : List Event :=
    [.record ⟨false, true, false⟩ (Chunk.encode ⟨1, 0, [7]⟩) .content,
      .record ⟨false, false, true⟩ (StreamHeader.encode ⟨1, 1, ""⟩) .content]
  parts ++ [.deliver, .pass timeout, .evict timeout] ++ parts ++ [.deliver]

/-- A stream that comes again is fired again as soon as that is possible. -/
theorem streams_whatever_comes_twice :
    (run { queue := .ofDepth 1 } twice).fired.map (fun f => (f.stream, f.time)) =
      [(1, 0), (1, timeout)] ∧
      (run { queue := .ofDepth 1 } twice).fired.Pairwise
        fun f g => f.stream = g.stream → f.time + timeout ≤ g.time := by
  have husual : ∀ age, .evict age ∈ twice → age = timeout := by
    intro age hage
    simpa [twice] using hage
  obtain ⟨-, -, -, -, hspaced⟩ := streams_whatever_comes (.ofDepth 1) twice
  exact ⟨by decide +kernel, hspaced husual⟩

end Ledger

end Courier.Stream
