import Mathlib
import Courier.Proofs.Stream.Reception

/-!
## Streams arrive in any order

Pieces of many streams come mixed, in any order and any of them more than once, while deliveries
are made at any moments. At every moment each stream is in one of two states. Either it was not
delivered yet, and what is there of it is what was brought of it; or all of it was brought, it was
offered once, and nothing is left of it. Every event keeps each stream in one of the two, as long
as there is room for all of them, and a delivery takes every complete stream from the first to the
second.

* `Gathering`, `Delivered`: the two states of a stream.
* `Intact.step`: what one event preserves.
* `Intact.run`: what a run preserves.
* `offered_once`: after a last delivery each stream was offered exactly once, as it was sent.
-/

namespace Courier.Stream

/-- What a header that was opened with a key of some class has a receiver note down. -/
def Sending.announced (s : Sending) (mailClass : MailClass) : Announcement :=
  ⟨s.header.total, s.header.channel, mailClass⟩

/-! ### The two states of a stream -/

/-- A stream that was not delivered yet: what is there of it is what was brought of it. -/
structure Gathering (s : Sending) (events : List Event) (r : Reception) : Prop where
  finished : r.streams.finished.contains s.stream = false
  announcement : (r.streams.stream s.stream).announcement =
    (firstClass? events (.ofHeader s.header)).map s.announced
  payloads : (r.streams.stream s.stream).payloads = s.arrived (brought events)
  offers : r.offersOf s.stream = []

/-- A stream that was delivered: all of it was brought, and it was offered once. -/
structure Delivered (s : Sending) (events : List Event) (r : Reception) (mailClass : MailClass) :
    Prop where
  finished : r.streams.finished.contains s.stream = true
  pending : r.streams.pending.find? s.stream = none
  brought : ∀ piece ∈ s.pieces, brought events piece = true
  first : firstClass? events (.ofHeader s.header) = some mailClass
  offers : r.offersOf s.stream = [(s.stream, s.delivery mailClass)]

variable {s : Sending} {events : List Event} {r r' : Reception}

/-- What is there of a stream is complete as soon as all of it was brought. -/
theorem Gathering.isComplete_iff (hg : Gathering s events r) :
    (r.streams.stream s.stream).isComplete = true ↔
      ∀ piece ∈ s.pieces, brought events piece = true := by
  have hpieces : (∀ piece ∈ s.pieces, brought events piece = true) ↔
      brought events (.ofHeader s.header) = true ∧
        ∀ c ∈ s.chunks, brought events (.ofChunk c) = true := by
    rw [s.pieces_eq, List.forall_mem_cons, List.forall_mem_map]
  rw [hpieces, Pending.isComplete, hg.announcement, hg.payloads]
  cases hfirst : firstClass? events (.ofHeader s.header) with
  | none => simp [brought, hfirst]
  | some mailClass =>
    have hheader : brought events (.ofHeader s.header) = true := by
      rw [brought, hfirst]
      rfl
    simp only [Option.map_some, Sending.announced, beq_iff_eq, Sending.size_arrived_eq_iff,
      hheader, true_and]

/-- A stream stays as it is when an event brings nothing of it and changes nothing about it. -/
theorem Gathering.elsewhere (hg : Gathering s events r) {e : Event}
    (hnone : ∀ piece ∈ s.pieces, e.classOf? piece = none)
    (hfin : r'.streams.finished.contains s.stream = r.streams.finished.contains s.stream)
    (hpending : r'.streams.pending.find? s.stream = r.streams.pending.find? s.stream)
    (hoffers : r'.offersOf s.stream = r.offersOf s.stream) :
    Gathering s (events ++ [e]) r' := by
  obtain ⟨hann, hpay⟩ := Reassembler.stream_congr hpending
  refine ⟨hfin.trans hg.finished, ?_, ?_, hoffers.trans hg.offers⟩
  · rw [hann, hg.announcement, firstClass?_of_none (hnone _ s.header_mem)]
  · rw [hpay, hg.payloads]
    exact Sending.arrived_congr fun c hc => (brought_of_none (hnone _ (Sending.chunk_mem hc))).symm

/-- Nothing that comes later changes what was brought of a delivered stream. -/
theorem Delivered.later {mailClass : MailClass} (hd : Delivered s events r mailClass) {e : Event}
    (hfin : r'.streams.finished.contains s.stream = true)
    (hpending : r'.streams.pending.find? s.stream = none)
    (hoffers : r'.offersOf s.stream = r.offersOf s.stream) :
    Delivered s (events ++ [e]) r' mailClass := by
  refine ⟨hfin, hpending, ?_, ?_, hoffers.trans hd.offers⟩
  · intro piece hpiece
    rw [brought_append, hd.brought piece hpiece, Bool.true_or]
  · rw [firstClass?_append, hd.first, Option.some_or]

/-! ### A piece of the stream -/

theorem step_ofHeader (r : Reception) (s : Sending) (mailClass : MailClass) :
    r.step (.part (.ofHeader s.header) mailClass) =
      { r with streams := r.streams.takeHeader s.header mailClass } := by
  rw [Reception.step, Reassembler.handle_ofHeader _ s.total_ne_zero]

theorem step_ofChunk (r : Reception) (c : Chunk) (mailClass : MailClass) :
    r.step (.part (.ofChunk c) mailClass) = { r with streams := r.streams.takeChunk c } := by
  rw [Reception.step, Reassembler.handle_ofChunk]

/-- The first header counts, and takes no chunk of its stream away. -/
theorem Gathering.header (hg : Gathering s events r) (hadmits : r.streams.admits s.stream = true)
    (mailClass : MailClass) :
    Gathering s (events ++ [.part (.ofHeader s.header) mailClass])
      (r.step (.part (.ofHeader s.header) mailClass)) := by
  have hstream : (r.streams.takeHeader s.header mailClass).stream s.stream =
      (r.streams.stream s.stream).announce s.header mailClass :=
    Reassembler.stream_takeHeader (h := s.header) hadmits mailClass
  have hkeep : (s.arrived (brought events)).filter (fun index _ => index < s.header.total) =
      s.arrived (brought events) := by
    refine Table.filter_eq_self fun e he => ?_
    obtain ⟨c, hc, rfl⟩ := List.mem_map.mp he
    exact decide_eq_true (Sending.index_lt_total (List.mem_filter.mp hc).1)
  rw [step_ofHeader]
  refine ⟨?_, ?_, ?_, hg.offers⟩
  · show (r.streams.takeHeader s.header mailClass).finished.contains s.stream = false
    rw [Reassembler.finished_takeHeader]
    exact hg.finished
  · show ((r.streams.takeHeader s.header mailClass).stream s.stream).announcement = _
    rw [hstream, Pending.announcement_announce, hg.announcement, firstClass?_append,
      firstClass?_singleton, Event.classOf?, if_pos rfl, Option.map_or]
    rfl
  · show ((r.streams.takeHeader s.header mailClass).stream s.stream).payloads = _
    rw [hstream, Pending.payloads_announce mailClass (by rw [hg.payloads, hkeep]), hg.payloads]
    refine Sending.arrived_congr fun c _ => ?_
    rw [brought_part, decide_eq_false (Piece.ofHeader_ne_ofChunk _ _), Bool.or_false]

/-- A chunk is kept if the stream is announced, if it was brought before, or if there is room for
chunks of a stream that is not announced. -/
theorem Gathering.chunk (hg : Gathering s events r) {c : Chunk} (hc : c ∈ s.chunks)
    (hadmits : r.streams.admits s.stream = true)
    (hroom : firstClass? events (.ofHeader s.header) = none → brought events (.ofChunk c) = false →
      (s.chunks.countP fun d => brought events (.ofChunk d)) < maxOrphans)
    (mailClass : MailClass) :
    Gathering s (events ++ [.part (.ofChunk c) mailClass])
      (r.step (.part (.ofChunk c) mailClass)) := by
  have hid := Sending.stream_of_mem hc
  have haccepts : (r.streams.stream s.stream).accepts c.index = true := by
    rw [Pending.accepts, hg.announcement, hg.payloads]
    cases hfirst : firstClass? events (.ofHeader s.header) with
    | some first => exact decide_eq_true (Sending.index_lt_total hc)
    | none =>
      show (_ || decide _) = true
      rw [Sending.contains_arrived hc]
      cases hbrought : brought events (.ofChunk c) with
      | true => rfl
      | false =>
        rw [Sending.size_arrived]
        exact decide_eq_true (hroom hfirst hbrought)
  have hstream : (r.streams.takeChunk c).stream s.stream = (r.streams.stream s.stream).add c := by
    rw [← hid] at hadmits haccepts ⊢
    exact Reassembler.stream_takeChunk hadmits haccepts
  rw [step_ofChunk]
  refine ⟨?_, ?_, ?_, hg.offers⟩
  · show (r.streams.takeChunk c).finished.contains s.stream = false
    rw [Reassembler.finished_takeChunk]
    exact hg.finished
  · show ((r.streams.takeChunk c).stream s.stream).announcement = _
    rw [hstream, Pending.announcement_add, hg.announcement, firstClass?_of_none]
    rw [Event.classOf?, if_neg (Piece.ofHeader_ne_ofChunk _ _).symm]
  · show ((r.streams.takeChunk c).stream s.stream).payloads = _
    have hone : s.arrived (brought (events ++ [.part (.ofChunk c) mailClass])) =
        s.arrived fun piece => brought events piece || decide (.ofChunk c = piece) :=
      Sending.arrived_congr fun d _ => brought_part _ _ _ _
    rw [hstream, Pending.payloads_add, hg.payloads, Sending.contains_arrived hc, hone]
    split
    · rename_i hbrought
      refine Sending.arrived_congr fun d _ => ?_
      by_cases hd : Piece.ofChunk c = Piece.ofChunk d
      · rw [← hd, hbrought, Bool.true_or]
      · rw [decide_eq_false hd, Bool.or_false]
    · exact Sending.insert_arrived hc

/-! ### A delivery -/

theorem offersOf_deliver (r : Reception) (id : UInt32) :
    (r.step .deliver).offersOf id =
      r.offersOf id ++ ((r.streams.pending.find? id).filter Pending.isComplete).toList.filterMap
        fun p => p.delivery?.map fun d => (id, d) := by
  show (r.offered ++ r.streams.offers).filter (fun o => o.1 == id) = _
  rw [List.filter_append, Reassembler.offers_filter_key]
  rfl

/-- A delivery leaves a delivered stream alone. -/
theorem Delivered.deliver {mailClass : MailClass} (hd : Delivered s events r mailClass) :
    Delivered s (events ++ [.deliver]) (r.step .deliver) mailClass := by
  refine hd.later ?_ ?_ ?_
  · show (r.streams.deliver r.queue).2.1.finished.contains s.stream = true
    rw [Reassembler.contains_finished_deliver, hd.finished, Bool.true_or]
  · show (r.streams.deliver r.queue).2.1.pending.find? s.stream = none
    rw [Reassembler.find?_pending_deliver, hd.pending, Option.filter_none]
  · rw [offersOf_deliver, hd.pending, Option.filter_none]
    exact List.append_nil _

/-- A delivery leaves a stream alone of which something is missing. -/
theorem Gathering.deliver_of_missing (hg : Gathering s events r)
    (hmissing : (r.streams.stream s.stream).isComplete = false) :
    Gathering s (events ++ [.deliver]) (r.step .deliver) := by
  have hkeep : (r.streams.pending.find? s.stream).filter (fun p => !p.isComplete) =
      r.streams.pending.find? s.stream ∧
      (r.streams.pending.find? s.stream).filter Pending.isComplete = none := by
    cases hfind : r.streams.pending.find? s.stream with
    | none => exact ⟨rfl, rfl⟩
    | some p =>
      rw [Reassembler.stream, hfind, Option.getD_some] at hmissing
      simp [Option.filter, hmissing]
  refine hg.elsewhere (fun _ _ => rfl) ?_ ?_ ?_
  · show (r.streams.deliver r.queue).2.1.finished.contains s.stream = _
    rw [Reassembler.contains_finished_deliver, hkeep.2]
    exact Bool.or_false _
  · show (r.streams.deliver r.queue).2.1.pending.find? s.stream = _
    rw [Reassembler.find?_pending_deliver, hkeep.1]
  · rw [offersOf_deliver, hkeep.2]
    exact List.append_nil _

/-- A delivery offers a stream of which nothing is missing, as it was sent. -/
theorem Gathering.deliver_of_complete (hg : Gathering s events r)
    (hcomplete : (r.streams.stream s.stream).isComplete = true) :
    ∃ mailClass, Delivered s (events ++ [.deliver]) (r.step .deliver) mailClass := by
  have hall := hg.isComplete_iff.mp hcomplete
  have hheader := hall _ s.header_mem
  rw [brought, Option.isSome_iff_exists] at hheader
  obtain ⟨mailClass, hfirst⟩ := hheader
  have hann := hg.announcement
  rw [hfirst, Option.map_some] at hann
  -- A stream of which there is something is found under its number.
  obtain ⟨p, hfind⟩ : ∃ p, r.streams.pending.find? s.stream = some p := by
    rw [← Option.ne_none_iff_exists']
    intro hnone
    rw [Reassembler.stream, hnone] at hann
    cases hann
  have hp : r.streams.stream s.stream = p := by
    rw [Reassembler.stream, hfind, Option.getD_some]
  rw [hp] at hcomplete hann
  have hpay := hg.payloads
  rw [hp] at hpay
  have hdelivery : p.delivery? = some (s.delivery mailClass) := by
    rw [Pending.delivery?, hann, hpay,
      Sending.flatten_arrived fun c hc => hall _ (Sending.chunk_mem hc)]
    rfl
  refine ⟨mailClass, ?_, ?_, ?_, ?_, ?_⟩
  · show (r.streams.deliver r.queue).2.1.finished.contains s.stream = true
    rw [Reassembler.contains_finished_deliver, hfind, Option.filter_some_pos hcomplete]
    exact Bool.or_true _
  · show (r.streams.deliver r.queue).2.1.pending.find? s.stream = none
    rw [Reassembler.find?_pending_deliver, hfind]
    simp [Option.filter, hcomplete]
  · intro piece hpiece
    rw [brought_append, hall piece hpiece, Bool.true_or]
  · rw [firstClass?_append, hfirst, Option.some_or]
  · rw [offersOf_deliver, hg.offers, hfind, Option.filter_some_pos hcomplete, List.nil_append,
      Option.toList_some, List.filterMap_cons, hdelivery]
    rfl

/-! ### Every stream of a family -/

/-- Every stream of a family is in one of the two states, and besides them there are only streams
that were there at the start. -/
structure Intact (family : List Sending) (start : Reassembler) (events : List Event)
    (r : Reception) : Prop where
  progress : ∀ s ∈ family, Gathering s events r ∨ ∃ mailClass, Delivered s events r mailClass
  keys : r.streams.pending.keys ⊆ start.pending.keys ++ family.map Sending.stream

variable {family : List Sending} {start : Reassembler}

theorem gathering_start (hpending : start.pending.contains s.stream = false)
    (hfinished : start.finished.contains s.stream = false) (queue : DeliveryQueue) :
    Gathering s [] ⟨start, queue, []⟩ := by
  have hstream : start.stream s.stream = { started := start.now } := by
    rw [Reassembler.stream, Table.contains_eq_false_iff.mp hpending, Option.getD_none]
  refine ⟨hfinished, congrArg Pending.announcement hstream,
    (congrArg Pending.payloads hstream).trans ?_, rfl⟩
  exact Table.ext_find? fun index => Option.ext fun payload => by
    rw [Sending.find?_arrived]
    constructor
    · intro h
      cases h
    · rintro ⟨_, _, h, _, _⟩
      cases h

theorem intact_start
    (hnew : ∀ s ∈ family, start.pending.contains s.stream = false ∧
      start.finished.contains s.stream = false) (queue : DeliveryQueue) :
    Intact family start [] ⟨start, queue, []⟩ := by
  refine ⟨fun s hs => .inl ?_, List.subset_append_left _ _⟩
  obtain ⟨hpending, hfinished⟩ := hnew s hs
  exact gathering_start hpending hfinished queue

/-- There is always room for a stream of the family. -/
theorem Intact.admits (hi : Intact family start events r)
    (hcap : start.pending.size + family.length ≤ maxPending) (hs : s ∈ family)
    (hfin : r.streams.finished.contains s.stream = false) :
    r.streams.admits s.stream = true := by
  rw [Reassembler.admits, hfin, Bool.not_false, Bool.true_and]
  cases hheld : r.streams.pending.contains s.stream with
  | true => rfl
  | false =>
    have hnew := Table.not_mem_keys_iff.mpr (Table.contains_eq_false_iff.mp hheld)
    have hmem : s.stream ∈ start.pending.keys ++ family.map Sending.stream :=
      List.mem_append_right _ (List.mem_map_of_mem hs)
    have hlt := Table.size_lt_of_subset hi.keys hmem hnew
    rw [List.length_append, List.length_map, Table.length_keys] at hlt
    exact decide_eq_true (by omega)

/-- The chunks of a stream that were brought before its first header. -/
def orphans (s : Sending) (events : List Event) : Nat :=
  s.chunks.countP fun c =>
    brought (events.takeWhile fun e => (e.classOf? (.ofHeader s.header)).isNone) (.ofChunk c)

/-- There are no more orphans than chunks. -/
theorem orphans_lt_length_pieces (s : Sending) (events : List Event) :
    orphans s events < s.pieces.length := by
  rw [s.pieces_eq, List.length_cons, List.length_map]
  exact Nat.lt_succ_of_le List.countP_le_length

/-- A new chunk of a stream that is not announced is among its orphans. -/
theorem countP_lt_orphans {rest : List Event} {c : Chunk} (hc : c ∈ s.chunks)
    {mailClass : MailClass} (hfirst : firstClass? events (.ofHeader s.header) = none)
    (hnew : brought events (.ofChunk c) = false) :
    (s.chunks.countP fun d => brought events (.ofChunk d)) <
      orphans s (events ++ Event.part (.ofChunk c) mailClass :: rest) := by
  have hprefix : ((events ++ [Event.part (.ofChunk c) mailClass]) ++ rest).takeWhile
      (fun e => (e.classOf? (.ofHeader s.header)).isNone) =
        (events ++ [Event.part (.ofChunk c) mailClass]) ++
          rest.takeWhile fun e => (e.classOf? (.ofHeader s.header)).isNone := by
    refine List.takeWhile_append_of_pos fun e he => ?_
    rcases List.mem_append.mp he with he | he
    · rw [Option.isNone_iff_eq_none]
      exact List.findSome?_eq_none_iff.mp hfirst e he
    · rw [List.mem_singleton.mp he, Event.classOf?,
        if_neg (Piece.ofHeader_ne_ofChunk _ _).symm]
      rfl
  have hnodup : (c :: s.chunks.filter fun d => brought events (.ofChunk d)).Nodup := by
    refine List.nodup_cons.mpr ⟨fun hmem => ?_, (s.nodup_indices.of_map _).filter _⟩
    have hbrought := (List.mem_filter.mp hmem).2
    rw [hnew] at hbrought
    cases hbrought
  have hsub : c :: s.chunks.filter (fun d => brought events (.ofChunk d)) ⊆
      s.chunks.filter fun d =>
        brought ((events ++ [Event.part (.ofChunk c) mailClass]) ++
          rest.takeWhile fun e => (e.classOf? (.ofHeader s.header)).isNone) (.ofChunk d) := by
    refine List.cons_subset.mpr ⟨?_, fun d hd => ?_⟩
    · refine List.mem_filter.mpr ⟨hc, ?_⟩
      rw [brought_append, brought_part, decide_eq_true rfl, Bool.or_true, Bool.true_or]
    · obtain ⟨hmem, hbrought⟩ := List.mem_filter.mp hd
      refine List.mem_filter.mpr ⟨hmem, ?_⟩
      rw [brought_append, brought_append, hbrought, Bool.true_or, Bool.true_or]
  have hlen := (List.subperm_of_subset hnodup hsub).length_le
  rw [List.length_cons, ← List.countP_eq_length_filter, ← List.countP_eq_length_filter] at hlen
  rw [orphans, ← List.singleton_append, ← List.append_assoc, hprefix]
  exact hlen

/-- An event that leaves other streams alone keeps each of them in its state. -/
theorem Intact.elsewhere (hi : Intact family start events r) {e : Event} {t : Sending}
    (ht : t ∈ family) (hnone : ∀ piece ∈ t.pieces, e.classOf? piece = none)
    (hfin : r'.streams.finished = r.streams.finished)
    (hpending : r'.streams.pending.find? t.stream = r.streams.pending.find? t.stream)
    (hoffered : r'.offered = r.offered) :
    Gathering t (events ++ [e]) r' ∨ ∃ mailClass, Delivered t (events ++ [e]) r' mailClass := by
  have hoffers : r'.offersOf t.stream = r.offersOf t.stream := by
    rw [Reception.offersOf, hoffered]
    rfl
  rcases hi.progress t ht with hg | ⟨mailClass, hd⟩
  · exact .inl (hg.elsewhere hnone (by rw [hfin]) hpending hoffers)
  · exact .inr ⟨mailClass, hd.later (by rw [hfin]; exact hd.finished)
      (hpending.trans hd.pending) hoffers⟩

/-- What a piece of one stream does to a family. -/
theorem Intact.part (hi : Intact family start events r) (hids : (family.map Sending.stream).Nodup)
    (hs : s ∈ family) {piece : Piece} (hpiece : piece ∈ s.pieces) (mailClass : MailClass)
    (hfin : r'.streams.finished = r.streams.finished) (hoffered : r'.offered = r.offered)
    (hothers : ∀ id, s.stream ≠ id →
      r'.streams.pending.find? id = r.streams.pending.find? id)
    (hkeys : ∀ id ∈ r'.streams.pending.keys, id = s.stream ∨ id ∈ r.streams.pending.keys)
    (hown : Gathering s (events ++ [.part piece mailClass]) r' ∨
      ∃ first, Delivered s (events ++ [.part piece mailClass]) r' first) :
    Intact family start (events ++ [.part piece mailClass]) r' := by
  refine ⟨fun t ht => ?_, fun id hid => ?_⟩
  · by_cases heq : s.stream = t.stream
    · rwa [← List.inj_on_of_nodup_map hids hs ht heq]
    · refine hi.elsewhere ht (fun p hp => ?_) hfin (hothers _ heq) hoffered
      refine if_neg fun hpp => heq ?_
      exact Sending.stream_eq_of_mem hpiece (hpp ▸ hp)
  · rcases hkeys id hid with rfl | hmem
    · exact List.mem_append_right _ (List.mem_map_of_mem hs)
    · exact hi.keys hmem

/-- **What one event preserves.** -/
theorem Intact.step (hi : Intact family start events r)
    (hids : (family.map Sending.stream).Nodup)
    (hcap : start.pending.size + family.length ≤ maxPending) {e : Event} {rest : List Event}
    (honly : ∀ piece mailClass, e = .part piece mailClass → ∃ s ∈ family, piece ∈ s.pieces)
    (horphans : ∀ s ∈ family, orphans s (events ++ e :: rest) ≤ maxOrphans) :
    Intact family start (events ++ [e]) (r.step e) := by
  cases e with
  | part piece mailClass =>
    obtain ⟨s, hs, hpiece⟩ := honly piece mailClass rfl
    rcases Sending.mem_pieces hpiece with rfl | ⟨c, hc, rfl⟩
    · refine hi.part hids hs hpiece mailClass ?_ ?_ ?_ ?_ ?_
      · rw [step_ofHeader]
        exact Reassembler.finished_takeHeader _ _ _
      · rw [step_ofHeader]
      · intro id hne
        rw [step_ofHeader]
        exact Reassembler.find?_takeHeader_of_ne _ (h := s.header) hne _
      · intro id hid
        rw [step_ofHeader] at hid
        exact Reassembler.mem_keys_takeHeader hid
      · rcases hi.progress s hs with hg | ⟨first, hd⟩
        · exact .inl (hg.header (hi.admits hcap hs hg.finished) mailClass)
        · right
          refine ⟨first, hd.later ?_ ?_ ?_⟩ <;>
            rw [step_ofHeader, Reassembler.takeHeader_of_finished (h := s.header) hd.finished]
          · exact hd.finished
          · exact hd.pending
    · have hid := Sending.stream_of_mem hc
      refine hi.part hids hs hpiece mailClass ?_ ?_ ?_ ?_ ?_
      · rw [step_ofChunk]
        exact Reassembler.finished_takeChunk _ _
      · rw [step_ofChunk]
      · intro id hne
        rw [step_ofChunk]
        exact Reassembler.find?_takeChunk_of_ne _ (hid ▸ hne)
      · intro id hmem
        rw [step_ofChunk] at hmem
        rw [← hid]
        exact Reassembler.mem_keys_takeChunk hmem
      · rcases hi.progress s hs with hg | ⟨first, hd⟩
        · left
          refine hg.chunk hc (hi.admits hcap hs hg.finished) (fun hfirst hnew => ?_) mailClass
          exact Nat.lt_of_lt_of_le (countP_lt_orphans hc hfirst hnew) (horphans s hs)
        · right
          refine ⟨first, hd.later ?_ ?_ ?_⟩ <;>
            rw [step_ofChunk, Reassembler.takeChunk_of_finished (by rw [hid]; exact hd.finished)]
          · exact hd.finished
          · exact hd.pending
  | deliver =>
    refine ⟨fun s hs => ?_, ?_⟩
    · rcases hi.progress s hs with hg | ⟨first, hd⟩
      · cases hcomplete : (r.streams.stream s.stream).isComplete with
        | true => exact .inr (hg.deliver_of_complete hcomplete)
        | false => exact .inl (hg.deliver_of_missing hcomplete)
      · exact .inr ⟨first, hd.deliver⟩
    · exact fun id hid => hi.keys (Table.keys_filter_subset _ _ hid)
  | wait now =>
    exact ⟨fun s hs => hi.elsewhere hs (fun _ _ => rfl) rfl rfl rfl, hi.keys⟩

/-- **What a run preserves.** -/
theorem Intact.run (hids : (family.map Sending.stream).Nodup)
    (hnew : ∀ s ∈ family, start.pending.contains s.stream = false ∧
      start.finished.contains s.stream = false)
    (hcap : start.pending.size + family.length ≤ maxPending) (queue : DeliveryQueue)
    {rest : List Event}
    (honly : ∀ piece mailClass, Event.part piece mailClass ∈ events →
      ∃ s ∈ family, piece ∈ s.pieces)
    (horphans : ∀ s ∈ family, orphans s (events ++ rest) ≤ maxOrphans) :
    Intact family start events (Reception.run ⟨start, queue, []⟩ events) := by
  induction events using List.reverseRecOn generalizing rest with
  | nil => exact intact_start hnew queue
  | append_singleton events e ih =>
    rw [List.append_assoc] at horphans
    have hi := ih (fun p c h => honly p c (List.mem_append_left _ h)) horphans
    rw [Reception.run_append]
    refine hi.step hids hcap (fun p c he => honly p c ?_) horphans
    rw [he]
    exact List.mem_append_right _ (List.mem_singleton_self _)

/-! ### The whole of a family -/

/-- **Streams arrive in any order.** The pieces of any number of contents that were split into
streams of different numbers come in any order, mixed and repeated at will, and deliveries are
made at any moments, at a receiver that neither holds nor has finished any of these streams and
has room for all of them, and for the chunks of each that come before its header. Once every piece
was brought, one more delivery leaves none of the streams behind: each was offered exactly once,
with the class of its first header, with its channel, and with its content. No stream was offered
before all its pieces were brought. -/
theorem offered_once (hids : (family.map Sending.stream).Nodup)
    (hnew : ∀ s ∈ family, start.pending.contains s.stream = false ∧
      start.finished.contains s.stream = false)
    (hcap : start.pending.size + family.length ≤ maxPending) (queue : DeliveryQueue)
    (honly : ∀ piece mailClass, Event.part piece mailClass ∈ events →
      ∃ s ∈ family, piece ∈ s.pieces)
    (hall : ∀ s ∈ family, ∀ piece ∈ s.pieces, brought events piece = true)
    (horphans : ∀ s ∈ family, orphans s events ≤ maxOrphans) :
    let final := Reception.run ⟨start, queue, []⟩ (events ++ [.deliver])
    (∀ s ∈ family, ∃ mailClass, firstClass? events (.ofHeader s.header) = some mailClass ∧
      final.offersOf s.stream = [(s.stream, ⟨mailClass, s.header.channel, s.content⟩)] ∧
      final.streams.pending.contains s.stream = false) ∧
    (∀ s ∈ family, ∀ before rest, events = before ++ rest →
      (∃ piece ∈ s.pieces, brought before piece = false) →
        (Reception.run ⟨start, queue, []⟩ before).offersOf s.stream = []) ∧
    final.queue = final.offered.foldl (fun q o => (q.offer o.2).2) queue := by
  refine ⟨fun s hs => ?_, fun s hs before rest hsplit hmissing => ?_,
    Reception.queue_run _ _ _⟩
  · have hkept : ∀ s ∈ family, orphans s (events ++ []) ≤ maxOrphans := by
      rwa [List.append_nil]
    have hi := Intact.run hids hnew hcap queue honly hkept
    rw [Reception.run_append]
    have hdelivered : ∃ mailClass, Delivered s (events ++ [.deliver])
        ((Reception.run ⟨start, queue, []⟩ events).step .deliver) mailClass := by
      rcases hi.progress s hs with hg | ⟨mailClass, hd⟩
      · exact hg.deliver_of_complete (hg.isComplete_iff.mpr (hall s hs))
      · exact ⟨mailClass, hd.deliver⟩
    obtain ⟨mailClass, hd⟩ := hdelivered
    have hfirst := hd.first
    rw [firstClass?_of_none rfl] at hfirst
    exact ⟨mailClass, hfirst, hd.offers, Table.contains_eq_false_iff.mpr hd.pending⟩
  · subst hsplit
    have hi := Intact.run hids hnew hcap queue
      (fun p c h => honly p c (List.mem_append_left _ h)) horphans
    rcases hi.progress s hs with hg | ⟨mailClass, hd⟩
    · exact hg.offers
    · obtain ⟨piece, hpiece, hfalse⟩ := hmissing
      rw [hd.brought piece hpiece] at hfalse
      cases hfalse

/-- A content of three bytes in two chunks. -/
def Sending.ofThreeBytes : Sending where
  content := [1, 2, 3]
  size := 10
  channel := some "ops"
  stream := 7
  pieces := [.ofHeader ⟨7, 2, "ops"⟩, .ofChunk ⟨7, 0, [1, 2]⟩, .ofChunk ⟨7, 1, [3]⟩]
  split_eq := by
    simp [split, Chunk.headerLength, Bytes.pieces, Bytes.chunks, chunksFrom, UInt32.size]

/-- The last chunk comes first and again, and the header comes last. -/
def backwards : List Event :=
  [.part (.ofChunk ⟨7, 1, [3]⟩) .channel, .deliver, .part (.ofChunk ⟨7, 0, [1, 2]⟩) .channel,
    .part (.ofChunk ⟨7, 1, [3]⟩) .channel, .part (.ofHeader ⟨7, 2, "ops"⟩) .channel]

theorem offered_once_backwards :
    (Reception.run ⟨{}, .ofDepth 1, []⟩ (backwards ++ [.deliver])).offersOf 7 =
      [(7, ⟨.channel, some "ops", [1, 2, 3]⟩)] := by
  have hids : ([Sending.ofThreeBytes].map Sending.stream).Nodup := List.nodup_singleton _
  have hnew : ∀ s ∈ [Sending.ofThreeBytes], ({} : Reassembler).pending.contains s.stream = false ∧
      ({} : Reassembler).finished.contains s.stream = false := fun _ _ => ⟨rfl, rfl⟩
  have honly : ∀ piece mailClass, Event.part piece mailClass ∈ backwards →
      ∃ s ∈ [Sending.ofThreeBytes], piece ∈ s.pieces := by
    intro piece mailClass h
    refine ⟨_, List.mem_singleton_self _, ?_⟩
    simp [backwards] at h
    simp [Sending.ofThreeBytes]
    tauto
  have hbrought : ∀ s ∈ [Sending.ofThreeBytes], ∀ piece ∈ s.pieces,
      brought backwards piece = true := by
    intro s hs piece hpiece
    rw [List.mem_singleton.mp hs] at hpiece
    rw [brought_iff]
    refine ⟨.channel, ?_⟩
    simp [Sending.ofThreeBytes] at hpiece
    simp [backwards]
    tauto
  have horphans : ∀ s ∈ [Sending.ofThreeBytes], orphans s backwards ≤ maxOrphans := by
    intro s hs
    refine Nat.le_trans (Nat.le_of_lt (orphans_lt_length_pieces s _)) ?_
    rw [List.mem_singleton.mp hs]
    decide
  have hall := offered_once hids hnew (by decide) (.ofDepth 1) honly hbrought horphans
  obtain ⟨mailClass, hfirst, hoffers, _⟩ := hall.1 _ (List.mem_singleton_self _)
  have hheader : Sending.ofThreeBytes.header = ⟨7, 2, "ops"⟩ := by
    simp [Sending.header, Sending.payloads, Sending.ofThreeBytes, Chunk.headerLength, Bytes.pieces,
      Bytes.chunks]
  rw [hheader] at hfirst hoffers
  have hclass : mailClass = .channel := by
    simp [backwards, firstClass?, List.findSome?_cons, Event.classOf?, Piece.ofHeader,
      Piece.ofChunk] at hfirst
    exact hfirst.symm
  rw [hclass] at hoffers
  exact hoffers

end Courier.Stream
