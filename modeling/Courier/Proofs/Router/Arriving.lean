import Mathlib
import Courier.Proofs.RecentCache
import Courier.Proofs.Router.Relaying
import Courier.Proofs.Stream.AnyOrder
import Courier.Proofs.Stream.Ledger

/-!
## A content arrives

What one send has queued reaches a router envelope by envelope, and any of them again at any later
time. A repeat that is still known is passed over; one that was forgotten brings a piece that is there
already. So once all have come, the next delivery offers the content, and besides it only what would
have been offered anyway.

* `Router.Finds`: a router finds a piece in an envelope.
* `Router.routeEach_of_message`: a content in one envelope.
* `Router.Conveys`: envelopes bring the pieces of a stream, its header first.
* `Router.Gathers`, `Router.gathers_routeEach`: the router while they come.
* `Router.offers_routeEach`: a content in a stream.
-/

namespace Courier

/-! ### One stream among others -/

namespace Stream

variable {s : Sending}

namespace Reassembler

/-- Nothing is known of a stream, and there is room for it. -/
structure Awaits (r : Reassembler) (stream : UInt32) : Prop where
  pending : r.pending.contains stream = false
  finished : r.finished.contains stream = false
  room : r.pending.size < maxPending

theorem nodup_offers (r : Reassembler) : r.offers.Nodup :=
  (Ledger.pairwise_offers r).imp fun hne heq => hne (congrArg Prod.fst heq)

/-- Where one stream was gathered and no other touched, the streams have one more offer to make. -/
theorem offers_perm_of_gathering {events : List Event} {streams streams' : Reassembler}
    {queue : DeliveryQueue} (hg : Gathering s events ⟨streams', queue, []⟩)
    (hall : ∀ piece ∈ s.pieces, brought events piece = true) {mailClass : MailClass}
    (hclass : ∀ piece c, Event.part piece c ∈ events → c = mailClass)
    (hnew : streams.pending.contains s.stream = false)
    (hothers : ∀ id, s.stream ≠ id → streams'.pending.find? id = streams.pending.find? id) :
    streams'.offers.Perm ((s.stream, s.delivery mailClass) :: streams.offers) := by
  obtain ⟨c, hd⟩ := hg.deliver_of_complete (hg.isComplete_iff.mpr hall)
  have hfirst := hd.first
  rw [firstClass?_of_none rfl] at hfirst
  obtain rfl := hclass _ _ (mem_of_firstClass? hfirst)
  have hown : streams'.offers.filter (fun o => o.1 == s.stream) =
      [(s.stream, s.delivery c)] := hd.offers
  have habsent : ∀ o ∈ streams.offers, o.1 ≠ s.stream := by
    intro o ho heq
    obtain ⟨p, hfind, -, -⟩ := mem_offers.mp ho
    rw [heq, Table.contains_eq_false_iff.mp hnew] at hfind
    cases hfind
  have hnodup : ((s.stream, s.delivery c) :: streams.offers).Nodup :=
    List.nodup_cons.mpr ⟨fun hmem => habsent _ hmem rfl, streams.nodup_offers⟩
  -- Both sides make no offer twice, so it is enough to compare which they make.
  rw [List.perm_ext_iff_of_nodup streams'.nodup_offers hnodup]
  intro o
  by_cases hid : o.1 = s.stream
  · have hfilter : o ∈ streams'.offers ↔ o ∈ [(s.stream, s.delivery c)] := by
      rw [← hown, List.mem_filter, beq_iff_eq]
      exact ⟨fun ho => ⟨ho, hid⟩, And.left⟩
    rw [hfilter, List.mem_singleton, List.mem_cons]
    exact ⟨.inl, fun h => h.resolve_right fun ho => habsent o ho hid⟩
  · have hne : o ≠ (s.stream, s.delivery c) := fun heq => hid (congrArg Prod.fst heq)
    rw [List.mem_cons, mem_offers, mem_offers, hothers o.1 (Ne.symm hid)]
    exact ⟨.inr, fun h => h.resolve_left hne⟩

theorem admits_takeHeader {r : Reassembler} {h : StreamHeader} (hadmits : r.admits h.stream = true)
    (mailClass : MailClass) : (r.takeHeader h mailClass).admits h.stream = true := by
  have hheld : (r.takeHeader h mailClass).pending.contains h.stream = true := by
    rw [takeHeader, if_pos hadmits, Table.contains, Table.find?_insert, if_pos rfl]
    rfl
  have hfinished := (Bool.and_eq_true_iff.mp hadmits).1
  rw [admits, finished_takeHeader, hfinished, hheld]
  rfl

theorem admits_takeChunk {r : Reassembler} {c : Chunk} (hadmits : r.admits c.stream = true) :
    (r.takeChunk c).admits c.stream = true := by
  by_cases haccepts : (r.stream c.stream).accepts c.index = true
  · have hheld : (r.takeChunk c).pending.contains c.stream = true := by
      rw [takeChunk, if_pos (by rw [hadmits, haccepts]; rfl), Table.contains, Table.find?_insert,
        if_pos rfl]
      rfl
    have hfinished := (Bool.and_eq_true_iff.mp hadmits).1
    rw [admits, finished_takeChunk, hfinished, hheld]
    rfl
  · rw [takeChunk, if_neg (by simp [haccepts])]
    exact hadmits

end Reassembler

/-- One more piece of a stream whose header has come, or comes now. -/
theorem Gathering.take {events : List Event} {streams : Reassembler} {queue : DeliveryQueue}
    {piece : Piece} (hg : Gathering s events ⟨streams, queue, []⟩) (hpiece : piece ∈ s.pieces)
    (hadmits : streams.admits s.stream = true)
    (hheader : piece = .ofHeader s.header ∨ brought events (.ofHeader s.header) = true)
    (mailClass : MailClass) :
    Gathering s (events ++ [.part piece mailClass])
      ⟨streams.take piece.flags piece.plaintext mailClass, queue, []⟩ ∧
    (streams.take piece.flags piece.plaintext mailClass).admits s.stream = true ∧
    ∀ id, s.stream ≠ id →
      (streams.take piece.flags piece.plaintext mailClass).pending.find? id =
        streams.pending.find? id := by
  rcases Sending.mem_pieces hpiece with rfl | ⟨c, hc, rfl⟩
  · rw [Reassembler.take_of_ok (streams.handle_ofHeader s.total_ne_zero mailClass)]
    refine ⟨?_, Reassembler.admits_takeHeader (h := s.header) hadmits mailClass, fun id hne => ?_⟩
    · have hgathered := hg.header hadmits mailClass
      rwa [step_ofHeader] at hgathered
    · exact Reassembler.find?_takeHeader_of_ne _ (h := s.header) hne mailClass
  · have hid := Sending.stream_of_mem hc
    have hannounced : brought events (.ofHeader s.header) = true :=
      hheader.resolve_left fun heq => Piece.ofHeader_ne_ofChunk _ _ heq.symm
    rw [Reassembler.take_of_ok (streams.handle_ofChunk c mailClass)]
    refine ⟨?_, ?_, fun id hne => Reassembler.find?_takeChunk_of_ne _ (hid ▸ hne)⟩
    · -- The header has come, so there are no orphans.
      have hgathered := hg.chunk hc hadmits (fun hnone => by
        rw [brought, hnone] at hannounced
        cases hannounced) mailClass
      rwa [step_ofChunk] at hgathered
    · rw [← hid] at hadmits ⊢
      exact Reassembler.admits_takeChunk hadmits

end Stream

namespace Router

variable [Cryptography] {r r' : Router} {raw : Bytes} {raws : List Bytes} {channel : Option String}
  {mailClass : MailClass} {piece piece' : Stream.Piece} {s : Stream.Sending}

/-! ### Routing one after the other -/

theorem snd_routeEach_append (r : Router) (raws : List Bytes) (raw : Bytes) :
    (r.routeEach (raws ++ [raw])).2 = ((r.routeEach raws).2.route raw).2 := by
  induction raws generalizing r with
  | nil => rfl
  | cons first rest ih => exact ih (r.route first).2

theorem relays_routeEach (r : Router) (raws : List Bytes) :
    Relays (fun _ => True) r (r.routeEach raws).2 := by
  induction raws generalizing r with
  | nil => exact .refl r
  | cons raw rest ih => exact (relays_route trivial r).trans (ih (r.route raw).2)

/-- What a router knows after an envelope, it knew before, or it is that of the envelope. -/
theorem of_contains_route {fp : Fingerprint} (h : (r.route raw).2.recent.contains fp = true) :
    r.recent.contains fp = true ∨ ∃ e, Envelope.read? raw = some (e, fp) := by
  cases hread : Envelope.read? raw with
  | none =>
    obtain ⟨error, hroute⟩ := route_of_unreadable hread r
    rw [hroute] at h
    exact .inl h
  | some found =>
    rw [route_of_read hread] at h
    split at h
    · exact .inl h
    · rw [recent_routeNew] at h
      rcases RecentCache.of_contains_insert h with rfl | hold
      · exact .inr ⟨found.1, rfl⟩
      · exact .inl hold

theorem of_contains_routeEach {fp : Fingerprint}
    (h : (r.routeEach raws).2.recent.contains fp = true) :
    r.recent.contains fp = true ∨ ∃ raw ∈ raws, ∃ e, Envelope.read? raw = some (e, fp) := by
  induction raws using List.reverseRecOn with
  | nil => exact .inl h
  | append_singleton before raw ih =>
    rw [snd_routeEach_append] at h
    rcases of_contains_route h with hold | hlast
    · refine (ih hold).imp_right ?_
      rintro ⟨raw', hraw', hread⟩
      exact ⟨raw', List.mem_append_left _ hraw', hread⟩
    · exact .inr ⟨raw, List.mem_concat_self, hlast⟩

/-! ### What is in an envelope -/

/-- A router finds a piece in an envelope under some tag, with a key of some class. -/
def Finds (r : Router) (mailClass : MailClass) (channel : Option String) (piece : Stream.Piece)
    (raw : Bytes) : Prop :=
  ∃ e fp, Envelope.read? raw = some (e, fp) ∧ e.channel = channel ∧
    e.flags = { piece.flags with channel := channel.isSome } ∧
    r.open? e = .ok (some (mailClass, piece.plaintext))

/-- Only one piece of a stream is found in an envelope. -/
theorem Finds.unique (hpiece : piece ∈ s.pieces) (hpiece' : piece' ∈ s.pieces)
    (h : r.Finds mailClass channel piece raw) (h' : r.Finds mailClass channel piece' raw) :
    piece = piece' := by
  obtain ⟨e, fp, hread, -, hflags, hopen⟩ := h
  obtain ⟨e', fp', hread', -, hflags', hopen'⟩ := h'
  obtain ⟨rfl, -⟩ := Prod.mk.inj (Option.some.inj (hread.symm.trans hread'))
  have hplain : piece.plaintext = piece'.plaintext :=
    congrArg Prod.snd (Option.some.inj (Except.ok.inj (hopen.symm.trans hopen')))
  have hmark : piece.flags.chunked = piece'.flags.chunked := by
    have hsame := congrArg Flags.chunked (hflags.symm.trans hflags')
    exact hsame
  -- The flags tell the header from a chunk, and the plaintext one chunk from another.
  rcases Stream.Sending.mem_pieces hpiece with rfl | ⟨c, -, rfl⟩ <;>
    rcases Stream.Sending.mem_pieces hpiece' with rfl | ⟨d, -, rfl⟩
  · rfl
  · cases hmark
  · cases hmark
  · exact congrArg (Stream.Piece.mk _) hplain

/-- What is found in a new envelope is taken in. -/
theorem Finds.takes {e : Envelope} {fp : Fingerprint} (h : r.Finds mailClass channel piece raw)
    (hrelays : Relays (fun _ => True) r r') (hread : Envelope.read? raw = some (e, fp))
    (hnew : r'.recent.contains fp = false) :
    e.channel = channel ∧ e.flags = { piece.flags with channel := channel.isSome } ∧
      r'.Takes (r'.route raw).2 e mailClass piece.plaintext := by
  obtain ⟨e', fp', hread', hchannel, hflags, hopen⟩ := h
  obtain ⟨rfl, -⟩ := Prod.mk.inj (Option.some.inj (hread.symm.trans hread'))
  rw [← hrelays.open?_eq] at hopen
  exact ⟨hchannel, hflags, takes_route (opens?_eq_some_iff.mpr ⟨⟨fp, hread, hnew⟩, hopen⟩)⟩

/-! ### A content in one envelope -/

/-- A message is offered when it comes first, and its repeats are passed over. -/
theorem routeEach_of_message {content : Bytes}
    (h : r.Finds mailClass channel ⟨Flags.none, content⟩ raw)
    (hnew : ∀ e fp, Envelope.read? raw = some (e, fp) → r.recent.contains fp = false)
    (hsame : ∀ x ∈ raws, x = raw) :
    (r.routeEach (raw :: raws)).2.queue = (r.queue.offer ⟨mailClass, channel, content⟩).2 ∧
      (r.routeEach (raw :: raws)).2.streams = r.streams := by
  obtain ⟨e, fp, hread, -⟩ := id h
  obtain ⟨hchannel, hflags, htakes⟩ := h.takes (.refl r) hread (hnew e fp hread)
  have hmessage : e.flags.isPart = false := by
    rw [hflags]
    rfl
  have hreads : ∀ x ∈ raws, ∃ e, Envelope.read? x = some (e, fp) := by
    intro x hx
    rw [hsame x hx]
    exact ⟨e, hread⟩
  rw [routeEach_of_same hread hreads]
  refine ⟨?_, ?_⟩
  · rw [htakes.queue, hmessage, if_neg Bool.false_ne_true, hchannel]
  · rw [htakes.streams, Stream.Reassembler.take_of_not_isPart hmessage]

/-! ### A content in a stream -/

/-- Envelopes bring a router the pieces of a stream, the header first. They are new to it, and each has
a fingerprint of its own. -/
structure Conveys (r : Router) (mailClass : MailClass) (channel : Option String)
    (s : Stream.Sending) (raws : List Bytes) : Prop where
  finds : ∀ raw ∈ raws, ∃ piece ∈ s.pieces, r.Finds mailClass channel piece raw
  header : ∀ raw, raws.head? = some raw →
    r.Finds mailClass channel (.ofHeader s.header) raw
  new : ∀ raw ∈ raws, ∀ e fp, Envelope.read? raw = some (e, fp) → r.recent.contains fp = false
  distinct : ∀ raw ∈ raws, ∀ raw' ∈ raws, ∀ e e' fp, Envelope.read? raw = some (e, fp) →
    Envelope.read? raw' = some (e', fp) → raw = raw'

theorem Conveys.front {later : List Bytes} (h : r.Conveys mailClass channel s (raws ++ later)) :
    r.Conveys mailClass channel s raws := by
  refine ⟨fun raw hraw => h.finds raw (List.mem_append_left _ hraw), fun raw hhead => ?_,
    fun raw hraw => h.new raw (List.mem_append_left _ hraw),
    fun raw hraw raw' hraw' =>
      h.distinct raw (List.mem_append_left _ hraw) raw' (List.mem_append_left _ hraw')⟩
  exact h.header raw (by rw [List.head?_append, hhead]; rfl)

/-- A router has been brought pieces of a stream by some envelopes: it has gathered them, and done
nothing else to its streams and its reader. -/
structure Gathers (r : Router) (mailClass : MailClass) (channel : Option String)
    (s : Stream.Sending) (raws : List Bytes) (r' : Router) : Prop where
  queue : r'.queue = r.queue
  others : ∀ id, s.stream ≠ id → r'.streams.pending.find? id = r.streams.pending.find? id
  admits : r'.streams.admits s.stream = true
  gathers : ∃ events, Stream.Gathering s events ⟨r'.streams, r.queue, []⟩ ∧
    (∀ piece c, Stream.Event.part piece c ∈ events → c = mailClass) ∧
    ∀ raw ∈ raws, ∀ piece ∈ s.pieces, r.Finds mailClass channel piece raw →
      Stream.brought events piece = true

theorem gathers_nil (h : r.streams.Awaits s.stream) : r.Gathers mailClass channel s [] r := by
  refine ⟨rfl, fun _ _ => rfl, ?_, [], ?_, nofun, nofun⟩
  · rw [Stream.Reassembler.admits, h.finished, decide_eq_true h.room, Bool.or_true]
    rfl
  · exact Stream.gathering_start h.pending h.finished r.queue

/-- An envelope that is still known changes nothing, and has brought its piece before. -/
theorem Gathers.again (h : r.Gathers mailClass channel s raws r') (hraw : raw ∈ raws) :
    r.Gathers mailClass channel s (raws ++ [raw]) r' := by
  obtain ⟨events, hg, hclass, hbrought⟩ := h.gathers
  refine ⟨h.queue, h.others, h.admits, events, hg, hclass, fun x hx => ?_⟩
  rcases List.mem_append.mp hx with hx | hx
  · exact hbrought x hx
  · rw [List.mem_singleton.mp hx]
    exact hbrought raw hraw

/-- An envelope that is not known, or not any more, brings its piece. -/
theorem Gathers.more {r'' : Router} (h : r.Gathers mailClass channel s raws r')
    (hpiece : piece ∈ s.pieces) (hfinds : r.Finds mailClass channel piece raw)
    (hheader : piece = .ofHeader s.header ∨
      ∃ first ∈ raws, r.Finds mailClass channel (.ofHeader s.header) first)
    (hqueue : r''.queue = r'.queue)
    (hstreams : r''.streams = r'.streams.take piece.flags piece.plaintext mailClass) :
    r.Gathers mailClass channel s (raws ++ [raw]) r'' := by
  obtain ⟨events, hg, hclass, hbrought⟩ := h.gathers
  have hannounced : piece = .ofHeader s.header ∨
      Stream.brought events (.ofHeader s.header) = true := by
    refine hheader.imp_right ?_
    rintro ⟨first, hfirst, hfindsHeader⟩
    exact hbrought first hfirst _ s.header_mem hfindsHeader
  obtain ⟨hgathered, hadmits, hothers⟩ := hg.take hpiece h.admits hannounced mailClass
  rw [← hstreams] at hgathered hadmits hothers
  refine ⟨hqueue.trans h.queue, fun id hne => (hothers id hne).trans (h.others id hne), hadmits,
    _, hgathered, ?_, ?_⟩
  · intro p c hpart
    rcases List.mem_append.mp hpart with hpart | hpart
    · exact hclass p c hpart
    · cases List.mem_singleton.mp hpart
      rfl
  · intro x hx p hp hfinds'
    rw [Stream.brought_part]
    rcases List.mem_append.mp hx with hx | hx
    · rw [hbrought x hx p hp hfinds', Bool.true_or]
    · rw [List.mem_singleton.mp hx] at hfinds'
      rw [hfinds.unique hpiece hp hfinds', decide_eq_true rfl, Bool.or_true]

/-- **What routing the envelopes of a stream preserves**, in whatever order and with whatever repeats
they come after the header. -/
theorem gathers_routeEach (h : r.Conveys mailClass channel s raws)
    (hawaits : r.streams.Awaits s.stream) :
    r.Gathers mailClass channel s raws (r.routeEach raws).2 := by
  induction raws using List.reverseRecOn with
  | nil => exact gathers_nil hawaits
  | append_singleton before raw ih =>
    have hbefore := ih h.front
    have hrelays := r.relays_routeEach before
    rw [snd_routeEach_append]
    have hlast : raw ∈ before ++ [raw] := List.mem_concat_self
    obtain ⟨piece, hpiece, hfinds⟩ := h.finds raw hlast
    obtain ⟨e, fp, hread, -⟩ := id hfinds
    -- By the end of a long stream its first envelopes are forgotten, so a repeat may be taken in.
    cases hknown : (r.routeEach before).2.recent.contains fp with
    | true =>
      rw [route_of_known hread hknown]
      refine hbefore.again ?_
      rcases of_contains_routeEach hknown with hold | ⟨raw', hraw', e', hread'⟩
      · rw [h.new raw hlast e fp hread] at hold
        cases hold
      · rwa [h.distinct raw hlast raw' (List.mem_append_left _ hraw') e e' fp hread hread']
    | false =>
      obtain ⟨-, hflags, htakes⟩ := hfinds.takes hrelays hread hknown
      have hpart : e.flags.isPart = true := by
        rw [hflags]
        rcases Stream.Sending.mem_pieces hpiece with rfl | ⟨c, -, rfl⟩ <;> rfl
      refine hbefore.more hpiece hfinds ?_ ?_ ?_
      · cases before with
        | nil => exact .inl (hfinds.unique hpiece s.header_mem (h.header raw rfl))
        | cons first rest => exact .inr ⟨first, List.mem_cons_self, h.header first rfl⟩
      · rw [htakes.queue, if_pos hpart]
      · rw [htakes.streams, hflags]
        rfl

/-- **A content in a stream**: once all its envelopes have come, the next delivery offers it, besides
what would have been offered anyway. -/
theorem offers_routeEach (h : r.Conveys mailClass channel s raws)
    (hall : ∀ piece ∈ s.pieces, ∃ raw ∈ raws, r.Finds mailClass channel piece raw)
    (hawaits : r.streams.Awaits s.stream) :
    (r.routeEach raws).2.queue = r.queue ∧
      (r.routeEach raws).2.streams.offers.Perm
        ((s.stream, s.delivery mailClass) :: r.streams.offers) := by
  have hgathers := gathers_routeEach h hawaits
  obtain ⟨events, hg, hclass, hbrought⟩ := hgathers.gathers
  refine ⟨hgathers.queue, ?_⟩
  refine Stream.Reassembler.offers_perm_of_gathering hg (fun piece hpiece => ?_) hclass
    hawaits.pending hgathers.others
  obtain ⟨raw, hraw, hfinds⟩ := hall piece hpiece
  exact hbrought raw hraw piece hpiece hfinds

end Router

end Courier
