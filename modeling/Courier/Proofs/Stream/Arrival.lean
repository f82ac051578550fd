import Mathlib
import Courier.Proofs.Stream.Sending

/-!
## Events at a receiver of streams

A receiver is brought pieces one after the other, delivers what is complete now and then, and time
passes. What has arrived of a stream depends only on which of its pieces were brought, not on their
order or number, save that the class of the first header counts.

* `brought`, `firstClass?`: which pieces some events bring, and with which class first.
* `Sending.arrived`: the payloads of the chunks that were brought, under their indices.
* `Sending.insert_arrived`: one more chunk.
-/

namespace Courier.Stream

/-! ### Events -/

/-- What happens at a receiver of streams. -/
inductive Event
  /-- A piece comes, opened with a key of some class. -/
  | part (piece : Piece) (mailClass : MailClass)
  /-- What is complete is delivered. -/
  | deliver
  /-- The time becomes another. -/
  | wait (now : Nat)

/-- The class with which an event brings a piece, if it does. -/
def Event.classOf? (piece : Piece) : Event → Option MailClass
  | part p mailClass => if p = piece then some mailClass else none
  | deliver => none
  | wait _ => none

/-- The class with which some events bring a piece first, if they do. -/
def firstClass? (events : List Event) (piece : Piece) : Option MailClass :=
  events.findSome? (Event.classOf? piece)

/-- Whether some events bring a piece. -/
def brought (events : List Event) (piece : Piece) : Bool := (firstClass? events piece).isSome

theorem firstClass?_append (events later : List Event) (piece : Piece) :
    firstClass? (events ++ later) piece =
      (firstClass? events piece).or (firstClass? later piece) := List.findSome?_append

theorem firstClass?_singleton (e : Event) (piece : Piece) :
    firstClass? [e] piece = e.classOf? piece := by
  rw [firstClass?, List.findSome?_singleton]

theorem brought_append (events later : List Event) (piece : Piece) :
    brought (events ++ later) piece = (brought events piece || brought later piece) := by
  rw [brought, firstClass?_append, Option.isSome_or]
  rfl

theorem mem_of_firstClass? {events : List Event} {piece : Piece} {mailClass : MailClass}
    (h : firstClass? events piece = some mailClass) : Event.part piece mailClass ∈ events := by
  obtain ⟨e, he, hclass⟩ := List.exists_of_findSome?_eq_some h
  cases e with
  | part p c =>
    rw [Event.classOf?] at hclass
    split at hclass
    · rename_i hp
      rw [← hp, ← Option.some.inj hclass]
      exact he
    · cases hclass
  | deliver => cases hclass
  | wait now => cases hclass

theorem brought_iff {events : List Event} {piece : Piece} :
    brought events piece = true ↔ ∃ mailClass, Event.part piece mailClass ∈ events := by
  constructor
  · intro h
    obtain ⟨mailClass, hclass⟩ := Option.isSome_iff_exists.mp h
    exact ⟨mailClass, mem_of_firstClass? hclass⟩
  · rintro ⟨mailClass, he⟩
    rw [brought, firstClass?, List.findSome?_isSome_iff]
    exact ⟨_, he, by rw [Event.classOf?, if_pos rfl]; rfl⟩

/-- A piece that one more event does not bring was brought before it or not at all. -/
theorem firstClass?_of_none {events : List Event} {e : Event} {piece : Piece}
    (h : e.classOf? piece = none) :
    firstClass? (events ++ [e]) piece = firstClass? events piece := by
  rw [firstClass?_append, firstClass?_singleton, h, Option.or_none]

theorem brought_part (events : List Event) (p : Piece) (mailClass : MailClass) (piece : Piece) :
    brought (events ++ [.part p mailClass]) piece =
      (brought events piece || decide (p = piece)) := by
  rw [brought_append, brought, brought, firstClass?_singleton, Event.classOf?]
  by_cases hp : p = piece
  · rw [if_pos hp, decide_eq_true hp]
    rfl
  · rw [if_neg hp, decide_eq_false hp]
    rfl

theorem brought_of_none {events : List Event} {e : Event} {piece : Piece}
    (h : e.classOf? piece = none) : brought (events ++ [e]) piece = brought events piece := by
  rw [brought, firstClass?_of_none h, brought]

/-! ### Pieces of different streams -/

theorem Piece.ofHeader_ne_ofChunk (h : StreamHeader) (c : Chunk) :
    Piece.ofHeader h ≠ Piece.ofChunk c := by
  intro heq
  have hflags := congrArg (fun p => p.flags.chunked) heq
  cases hflags

theorem Piece.ofChunk_inj {c d : Chunk} (h : Piece.ofChunk c = Piece.ofChunk d) : c = d := by
  have hplain : c.encode = d.encode := congrArg Piece.plaintext h
  have hdecode := congrArg Chunk.decode hplain
  rw [Chunk.decode_encode, Chunk.decode_encode] at hdecode
  exact Except.ok.inj hdecode

namespace Sending

theorem header_mem (s : Sending) : Piece.ofHeader s.header ∈ s.pieces := by
  rw [s.pieces_eq]
  exact List.mem_cons_self

theorem chunk_mem {s : Sending} {c : Chunk} (h : c ∈ s.chunks) : Piece.ofChunk c ∈ s.pieces := by
  rw [s.pieces_eq]
  exact List.mem_cons_of_mem _ (List.mem_map_of_mem h)

theorem mem_pieces {s : Sending} {piece : Piece} (h : piece ∈ s.pieces) :
    piece = Piece.ofHeader s.header ∨ ∃ c ∈ s.chunks, piece = Piece.ofChunk c := by
  rw [s.pieces_eq] at h
  rcases List.mem_cons.mp h with h | h
  · exact .inl h
  · obtain ⟨c, hc, rfl⟩ := List.mem_map.mp h
    exact .inr ⟨c, hc, rfl⟩

/-- A piece tells which stream it belongs to. -/
theorem stream_eq_of_mem {s t : Sending} {piece : Piece} (hs : piece ∈ s.pieces)
    (ht : piece ∈ t.pieces) : s.stream = t.stream := by
  rcases mem_pieces hs with rfl | ⟨c, hc, rfl⟩
  · rcases mem_pieces ht with heq | ⟨d, _, heq⟩
    · have hplain : s.header.encode = t.header.encode := congrArg Piece.plaintext heq
      have hdecode := congrArg StreamHeader.decode hplain
      rw [StreamHeader.decode_encode s.total_ne_zero,
        StreamHeader.decode_encode t.total_ne_zero] at hdecode
      exact congrArg StreamHeader.stream (Except.ok.inj hdecode)
    · exact absurd heq (Piece.ofHeader_ne_ofChunk _ _)
  · rcases mem_pieces ht with heq | ⟨d, hd, heq⟩
    · exact absurd heq.symm (Piece.ofHeader_ne_ofChunk _ _)
    · rw [← stream_of_mem hc, ← stream_of_mem hd, Piece.ofChunk_inj heq]

/-! ### What has arrived of a stream -/

/-- The payloads of those chunks that a test lets pass, under their indices. -/
def arrived (s : Sending) (test : Piece → Bool) : Table UInt32 Bytes where
  entries := (s.chunks.filter fun c => test (.ofChunk c)).map fun c => (c.index, c.payload)
  sorted := List.pairwise_map.mpr (s.pairwise_chunks.filter _)

theorem size_arrived (s : Sending) (test : Piece → Bool) :
    (s.arrived test).size = s.chunks.countP fun c => test (.ofChunk c) := by
  rw [Table.size, arrived, List.length_map, List.countP_eq_length_filter]

theorem arrived_congr {s : Sending} {test test' : Piece → Bool}
    (h : ∀ c ∈ s.chunks, test (.ofChunk c) = test' (.ofChunk c)) :
    s.arrived test = s.arrived test' := by
  unfold arrived
  congr 2
  exact List.filter_congr h

theorem find?_arrived {s : Sending} {test : Piece → Bool} {index : UInt32} {payload : Bytes} :
    (s.arrived test).find? index = some payload ↔
      ∃ c ∈ s.chunks, test (.ofChunk c) = true ∧ c.index = index ∧ c.payload = payload := by
  rw [Table.find?_eq_some_iff, arrived, List.mem_map]
  constructor
  · rintro ⟨c, hc, heq⟩
    obtain ⟨hmem, htest⟩ := List.mem_filter.mp hc
    obtain ⟨hindex, hpayload⟩ := Prod.mk.injEq _ _ _ _ ▸ heq
    exact ⟨c, hmem, htest, hindex, hpayload⟩
  · rintro ⟨c, hmem, htest, rfl, rfl⟩
    exact ⟨c, List.mem_filter.mpr ⟨hmem, htest⟩, rfl⟩

theorem find?_arrived_index {s : Sending} {test : Piece → Bool} {c : Chunk} (hc : c ∈ s.chunks) :
    (s.arrived test).find? c.index = if test (.ofChunk c) then some c.payload else none := by
  split
  · rename_i htest
    exact find?_arrived.mpr ⟨c, hc, htest, rfl, rfl⟩
  · rename_i htest
    rw [Option.eq_none_iff_forall_ne_some]
    intro payload hfound
    obtain ⟨d, hd, hdtest, hindex, _⟩ := find?_arrived.mp hfound
    rw [eq_of_index_eq hd hc hindex] at hdtest
    exact htest hdtest

theorem contains_arrived {s : Sending} {test : Piece → Bool} {c : Chunk} (hc : c ∈ s.chunks) :
    (s.arrived test).contains c.index = test (.ofChunk c) := by
  rw [Table.contains, find?_arrived_index hc]
  cases test (.ofChunk c) <;> rfl

theorem insert_arrived {s : Sending} {test : Piece → Bool} {c : Chunk} (hc : c ∈ s.chunks) :
    (s.arrived test).insert c.index c.payload =
      s.arrived fun piece => test piece || decide (.ofChunk c = piece) := by
  refine Table.ext_find? fun index => Option.ext fun payload => ?_
  rw [Table.find?_insert, find?_arrived]
  by_cases hindex : c.index = index
  · rw [if_pos hindex]
    constructor
    · intro h
      exact ⟨c, hc, by simp, hindex, Option.some.inj h⟩
    · rintro ⟨d, hd, _, hdindex, rfl⟩
      rw [eq_of_index_eq hc hd (hindex.trans hdindex.symm)]
  · rw [if_neg hindex, find?_arrived]
    constructor
    · rintro ⟨d, hd, htest, hdindex, hpayload⟩
      exact ⟨d, hd, by rw [htest]; rfl, hdindex, hpayload⟩
    · rintro ⟨d, hd, htest, hdindex, hpayload⟩
      refine ⟨d, hd, ?_, hdindex, hpayload⟩
      have hne : Piece.ofChunk c ≠ Piece.ofChunk d := by
        intro heq
        rw [Piece.ofChunk_inj heq] at hindex
        exact hindex hdindex
      rwa [decide_eq_false hne, Bool.or_false] at htest

theorem flatten_arrived {s : Sending} {test : Piece → Bool}
    (h : ∀ c ∈ s.chunks, test (.ofChunk c) = true) :
    (s.arrived test).values.flatten = s.content := by
  have hvalues : (s.arrived test).values =
      (s.chunks.filter fun c => test (.ofChunk c)).map Chunk.payload := List.map_map
  rw [hvalues, List.filter_eq_self.mpr h, s.flatten_payloads]

/-- As many chunks as the header announces are all of them. -/
theorem size_arrived_eq_iff {s : Sending} {test : Piece → Bool} :
    (s.arrived test).size = s.header.total.toNat ↔ ∀ c ∈ s.chunks, test (.ofChunk c) = true := by
  rw [size_arrived, toNat_total, List.countP_eq_length]

end Sending

end Courier.Stream
