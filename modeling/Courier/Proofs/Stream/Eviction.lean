import Mathlib
import Courier.Proofs.Stream.Ledger

/-!
## Dropping streams by their age

Eviction asks when the first part of a stream came, and nothing else: a stream that is complete by
then, but was not fired yet, goes with the others. So a complete stream is fired by the next firing
exactly if it outlasts every eviction until then. The reassembly loop fires what is complete before
it drops anything, and so drops nothing complete.

* `Pending.Holds.put_of_isComplete`: a complete stream stays as it is.
* `Ledger.spares`: whether a stream outlasts some events, by its age alone.
* `Ledger.Sound.find?_run`, `Ledger.find?_run_of_not_spares`: what that means for what is held.
* `Ledger.queue_deliver`: what the next firing offers to the reader.
* `Ledger.due_complete`: what it offers of a complete stream.
-/

namespace Courier.Stream

/-! ### Complete streams -/

theorem Pending.exists_announcement {p : Pending} (hcomplete : p.isComplete = true) :
    ∃ a, p.announcement = some a := by
  unfold isComplete at hcomplete
  split at hcomplete
  · cases hcomplete
  · rename_i a ha
    exact ⟨a, ha⟩

/-- **A complete stream stays as it is**: it has its header, and a chunk for every index. -/
theorem Pending.Holds.put_of_isComplete {p : Pending} {parts : List Part} (hp : p.Holds parts)
    (hcomplete : p.isComplete = true) {part : Part} (hkeeps : p.keeps part = true) :
    p.put part = p := by
  obtain ⟨a, ha⟩ := exists_announcement hcomplete
  cases part with
  | header h mailClass =>
    show p.announce h mailClass = p
    rw [Pending.announce, ha]
  | chunk c =>
    have hindex : c.index < a.total := by
      have haccepts : p.accepts c.index = true := hkeeps
      rw [accepts, ha] at haccepts
      exact of_decide_eq_true haccepts
    have hall := (isComplete_iff ha fun index h => hp.lt_total ha h).mp hcomplete
    obtain ⟨payload, hpayload⟩ := Table.mem_keys_iff.mp (hall c.index hindex)
    show p.add c = p
    rw [Pending.add, Table.contains, hpayload]
    rfl

namespace Ledger

variable {l : Ledger} {id : UInt32} {p : Pending}

/-! ### One event -/

namespace Event

/-- The time that an event takes. -/
def elapsed : Event → Nat
  | pass elapsed => elapsed
  | _ => 0

/-- Whether an event at some time leaves a stream of some start its place. -/
def spares (started now : Nat) : Event → Bool
  | evict age => decide (now - started < age)
  | _ => true

/-- Whether an event brings a part of a stream. -/
def brings (id : UInt32) : Event → Bool
  | record flags plaintext mailClass =>
    (Part.read? flags plaintext mailClass).any fun part => part.stream == id
  | _ => false

end Event

theorem now_step (l : Ledger) (e : Event) :
    (l.step e).streams.now = l.streams.now + e.elapsed := by
  cases e with
  | record flags plaintext mailClass =>
    show (l.streams.take flags plaintext mailClass).now = _
    rw [Reassembler.take_eq]
    split
    · rfl
    · exact Reassembler.now_put _ _
  | deliver => rfl
  | evict age => rfl
  | pass elapsed => rfl

/-- Eviction goes by the age of a stream and by nothing else. -/
theorem find?_evict (l : Ledger) (age : Nat) (id : UInt32) :
    (l.step (.evict age)).streams.pending.find? id =
      (l.streams.pending.find? id).filter fun p => decide (l.streams.now - p.started < age) :=
  Table.find?_filter _ _ _

/-- What is held of a stream after a record: what was held, unless the record brings a part of it
that is kept. -/
theorem find?_record (l : Ledger) (flags : Flags) (plaintext : Bytes) (mailClass : MailClass)
    (id : UInt32) :
    (l.step (.record flags plaintext mailClass)).streams.pending.find? id =
        l.streams.pending.find? id ∨
      ∃ part, Part.read? flags plaintext mailClass = some part ∧ part.stream = id ∧
        (l.streams.stream id).keeps part = true ∧
        (l.step (.record flags plaintext mailClass)).streams.pending.find? id =
          some ((l.streams.stream id).put part) := by
  show (l.streams.take flags plaintext mailClass).pending.find? id = _ ∨ ∃ part, _ ∧ _ ∧ _ ∧
    (l.streams.take flags plaintext mailClass).pending.find? id = _
  rw [Reassembler.take_eq]
  cases hread : Part.read? flags plaintext mailClass with
  | none => exact .inl rfl
  | some part =>
    dsimp only
    rw [Reassembler.find?_put]
    split
    · rename_i hkept
      obtain ⟨hkeeps, rfl⟩ := hkept
      exact .inr ⟨part, rfl, rfl, (Bool.and_eq_true_iff.mp hkeeps).2, rfl⟩
    · exact .inl rfl

/-- A complete stream stays as it is until it is fired or its age counts against it. -/
theorem Sound.find?_step (hl : l.Sound) (hheld : l.streams.pending.find? id = some p)
    (hcomplete : p.isComplete = true) {e : Event} (he : e ≠ .deliver) :
    (l.step e).streams.pending.find? id =
      if e.spares p.started l.streams.now then some p else none := by
  cases e with
  | record flags plaintext mailClass =>
    show (l.step (.record flags plaintext mailClass)).streams.pending.find? id = some p
    rcases l.find?_record flags plaintext mailClass id with hsame | ⟨part, -, -, hkeeps, hnew⟩
    · rw [hsame, hheld]
    · have hstream : l.streams.stream id = p := by
        rw [Reassembler.stream, hheld, Option.getD_some]
      rw [hstream] at hkeeps hnew
      rw [hnew, (hl.holds id p hheld).put_of_isComplete hcomplete hkeeps]
  | deliver => exact absurd rfl he
  | evict age =>
    rw [find?_evict, hheld]
    rfl
  | pass elapsed => exact hheld

/-- What is not held is not held before a part of it comes. -/
theorem find?_step_eq_none (hnone : l.streams.pending.find? id = none) {e : Event}
    (he : e.brings id = false) : (l.step e).streams.pending.find? id = none := by
  cases e with
  | record flags plaintext mailClass =>
    rcases l.find?_record flags plaintext mailClass id with hsame | ⟨part, hread, hid, -, -⟩
    · rw [hsame, hnone]
    · rw [Event.brings, hread, Option.any_some, beq_iff_eq.mpr hid] at he
      cases he
  | deliver =>
    show (l.streams.deliver l.queue).2.1.pending.find? id = none
    rw [Reassembler.find?_pending_deliver, hnone]
    rfl
  | evict age =>
    rw [find?_evict, hnone]
    rfl
  | pass elapsed => exact hnone

/-! ### Until the next firing -/

/-- Whether a stream of some start outlasts some events, the first of which happens at `now`: no
eviction among them finds that it has the age. -/
def spares (started : Nat) : (now : Nat) → List Event → Bool
  | _, [] => true
  | now, e :: events => e.spares started now && spares started (now + e.elapsed) events

/-- A complete stream that outlasts some events is held after them, as it was. -/
theorem Sound.find?_run (hl : l.Sound) (hheld : l.streams.pending.find? id = some p)
    (hcomplete : p.isComplete = true) {later : List Event} (hlater : .deliver ∉ later)
    (hspares : spares p.started l.streams.now later = true) :
    (l.run later).streams.pending.find? id = some p := by
  induction later generalizing l with
  | nil => exact hheld
  | cons e later ih =>
    obtain ⟨hfirst, hrest⟩ := Bool.and_eq_true_iff.mp hspares
    have hstep := hl.find?_step hheld hcomplete (List.ne_of_not_mem_cons hlater).symm
    rw [if_pos hfirst] at hstep
    rw [← now_step] at hrest
    exact ih (hl.step e) hstep (List.not_mem_of_not_mem_cons hlater) hrest

theorem find?_run_eq_none (hnone : l.streams.pending.find? id = none) {later : List Event}
    (hbrings : ∀ e ∈ later, e.brings id = false) :
    (l.run later).streams.pending.find? id = none := by
  induction later generalizing l with
  | nil => exact hnone
  | cons e later ih =>
    rw [List.forall_mem_cons] at hbrings
    exact ih (find?_step_eq_none hnone hbrings.1) hbrings.2

/-- A complete stream that does not outlast some events is gone after them, unless it comes
again. -/
theorem Sound.find?_run_of_not_spares (hl : l.Sound)
    (hheld : l.streams.pending.find? id = some p) (hcomplete : p.isComplete = true)
    {later : List Event} (hlater : .deliver ∉ later)
    (hspares : spares p.started l.streams.now later = false)
    (hbrings : ∀ e ∈ later, e.brings id = false) :
    (l.run later).streams.pending.find? id = none := by
  induction later generalizing l with
  | nil => cases hspares
  | cons e later ih =>
    have hstep := hl.find?_step hheld hcomplete (List.ne_of_not_mem_cons hlater).symm
    rw [List.forall_mem_cons] at hbrings
    -- Once the stream is dropped it stays away, since no part of it comes.
    cases hfirst : e.spares p.started l.streams.now with
    | true =>
      rw [hfirst, if_pos rfl] at hstep
      rw [spares, hfirst, Bool.true_and, ← now_step] at hspares
      exact ih (hl.step e) hstep (List.not_mem_of_not_mem_cons hlater) hspares hbrings.2
    | false =>
      rw [hfirst, if_neg Bool.false_ne_true] at hstep
      exact find?_run_eq_none hstep hbrings.2

/-! ### The next firing -/

/-- What the next firing fires. -/
def due (l : Ledger) : List Firing := (l.step .deliver).fired.drop l.fired.length

/-- What the next firing fires of a stream. -/
def dueOf (l : Ledger) (id : UInt32) : List Delivery :=
  (l.due.filter fun f => f.stream == id).map Firing.delivery

theorem due_eq (l : Ledger) :
    l.due = l.streams.offers.map fun o => ⟨o.1, l.streams.now, l.kept o.1, o.2⟩ :=
  List.drop_left

/-- What is fired is offered to the queue of the reader, and nothing else is. -/
theorem queue_deliver (l : Ledger) :
    (l.step .deliver).queue = l.due.foldl (fun q f => (q.offer f.delivery).2) l.queue := by
  rw [due_eq, List.foldl_map]
  exact Reassembler.queue_deliver _ _

/-- A firing fires the streams that are complete, each once. -/
theorem dueOf_eq (l : Ledger) (id : UInt32) :
    l.dueOf id =
      ((l.streams.pending.find? id).filter Pending.isComplete).toList.filterMap
        Pending.delivery? := by
  rw [dueOf, due_eq, List.filter_map, List.map_map]
  show (l.streams.offers.filter fun o => o.1 == id).map Prod.snd = _
  rw [Reassembler.offers_filter_key, List.map_filterMap]
  refine List.filterMap_congr fun p _ => ?_
  rw [Option.map_map]
  exact Option.map_id'

/-- A firing leaves nothing complete behind. -/
theorem isComplete_of_held_deliver
    (hheld : (l.step .deliver).streams.pending.find? id = some p) : p.isComplete = false :=
  (Reassembler.find?_of_deliver (q := l.queue) hheld).2

/-- **When a finished stream is lost.** Whatever came before: an eviction drops a stream that is
held if the first part of it came so long ago, whether it is complete or not, and otherwise leaves it
as it is. So a complete stream is fired by the next firing, once, if it outlasts every eviction until
then, and if not, nothing is fired of it unless it comes again. What a firing fires is what it offers
to the queue of the reader. After a firing no complete stream is held, so an eviction that comes then,
as in the reassembly loop, drops no finished stream. -/
theorem due_complete (queue : DeliveryQueue) (events : List Event) {id : UInt32} {p : Pending}
    (hheld : (run { queue := queue } events).streams.pending.find? id = some p) :
    let l := run { queue := queue } events
    (∀ age, (l.step (.evict age)).streams.pending.find? id =
        if l.streams.now - p.started < age then some p else none) ∧
      (p.isComplete = true → ∃ d, p.delivery? = some d ∧
        ∀ later, .deliver ∉ later →
          (spares p.started l.streams.now later = true → (l.run later).dueOf id = [d]) ∧
          (spares p.started l.streams.now later = false →
            (∀ e ∈ later, e.brings id = false) → (l.run later).dueOf id = [])) ∧
      (∀ later, ((l.run later).step .deliver).queue =
        (l.run later).due.foldl (fun q f => (q.offer f.delivery).2) (l.run later).queue) ∧
      ∀ id' p', (l.step .deliver).streams.pending.find? id' = some p' → p'.isComplete = false := by
  have hl := sound_run queue events
  generalize run { queue := queue } events = l at hheld hl
  refine ⟨fun age => ?_, fun hcomplete => ?_, fun later => queue_deliver _,
    fun id' p' h => isComplete_of_held_deliver h⟩
  · rw [find?_evict, hheld, Option.filter_some]
    exact if_congr decide_eq_true_iff rfl rfl
  · obtain ⟨a, ha⟩ := Pending.exists_announcement hcomplete
    obtain ⟨d, hd⟩ : ∃ d, p.delivery? = some d := by
      rw [Pending.delivery?, ha]
      exact ⟨_, rfl⟩
    refine ⟨d, hd, fun later hlater => ⟨fun hspares => ?_, fun hspares hbrings => ?_⟩⟩
    · rw [dueOf_eq, hl.find?_run hheld hcomplete hlater hspares,
        Option.filter_some_pos hcomplete, Option.toList_some, List.filterMap_cons, hd]
      rfl
    · rw [dueOf_eq, hl.find?_run_of_not_spares hheld hcomplete hlater hspares hbrings]
      rfl

/-- A stream of one chunk that comes when the time of the stream is up. -/
def late : List Event :=
  [.record ⟨false, false, true⟩ (StreamHeader.encode ⟨1, 1, ""⟩) .content, .pass timeout,
    .record ⟨false, true, false⟩ (Chunk.encode ⟨1, 0, [7]⟩) .content]

/-- What is there of that stream. -/
def lateStream : Pending where
  announcement := some ⟨1, none, .content⟩
  payloads := Table.empty.insert 0 [7]
  started := 0

/-- Whoever waits a little longer gets the late stream. -/
theorem due_complete_late :
    let l := (run { queue := .ofDepth 1 } late).run [.evict (timeout + 1)]
    lateStream.delivery? = some ⟨.content, none, [7]⟩ ∧ l.dueOf 1 = [⟨.content, none, [7]⟩] ∧
      (l.step .deliver).queue = l.due.foldl (fun q f => (q.offer f.delivery).2) l.queue := by
  intro l
  have hheld : (run { queue := .ofDepth 1 } late).streams.pending.find? 1 = some lateStream := by
    decide +kernel
  obtain ⟨-, hdue, hqueue, -⟩ := due_complete (.ofDepth 1) late hheld
  obtain ⟨d, hd, hlater⟩ := hdue (by decide +kernel)
  have hcontent : lateStream.delivery? = some ⟨.content, none, [7]⟩ := by decide +kernel
  obtain rfl := Option.some.inj (hd.symm.trans hcontent)
  exact ⟨hd, (hlater [.evict (timeout + 1)] (by simp)).1 (by decide +kernel), hqueue _⟩

/-- The late stream is complete and about to be fired, and an eviction at the usual age drops it. -/
theorem evict_drops_complete :
    let l := run { queue := .ofDepth 1 } late
    l.streams.pending.find? 1 = some lateStream ∧ lateStream.isComplete = true ∧
      l.dueOf 1 = [⟨.content, none, [7]⟩] ∧
      (l.step (.evict timeout)).streams.pending.find? 1 = none ∧
      (l.step (.evict timeout)).dueOf 1 = [] := by
  decide +kernel

end Ledger

end Courier.Stream
