import Mathlib
import Courier.Proofs.Node.Fitting
import Courier.Proofs.RecentCache
import Courier.Proofs.Router.Opening
import Courier.Proofs.Router.Posting

/-!
## Echoes of a node's own envelopes

A node remembers the fingerprint of each envelope that it queues, so that a copy which comes back is
passed over. It remembers them where it remembers all envelopes, on two pages: a send of more
envelopes than these hold forgets its first ones before it is done.

* `Emits`: a node seals pieces, and remembers and queues the envelopes; one lemma for a piece, one
  for a whole send.
* `Emits.route_of_le`: the last 51 envelopes of a send are passed over when they come back.
* `Emits.route_eq_duplicate_iff`: of many new ones, those on the last two pages.
* `echo_duplicate_iff`: both, for every way to send.
-/

namespace Courier

open Courier.RecentCache (insertAll pageCapacity pageOf)

/-- What a router takes for the fingerprint of an entry. -/
def OutboxEntry.fingerprint? (e : OutboxEntry) : Option Fingerprint :=
  (Envelope.read? e.data).map Prod.snd

theorem OutboxEntry.fingerprint?_of_read {e : OutboxEntry} {d : Envelope} {fp : Fingerprint}
    (h : Envelope.read? e.data = some (d, fp)) : e.fingerprint? = some fp := by
  rw [fingerprint?, h]
  rfl

namespace Node

variable [Cryptography]

/-! ### Sealing, remembering and queueing -/

/-- A node seals pieces with its next secrets, and remembers and queues the envelopes in a row. -/
structure Emits (n : Node) (recipient : PublicKey) (channel : Option String)
    (pieces : List Stream.Piece) (n' : Node) (sent : List OutboxEntry) : Prop where
  posts : n.router.Posts n'.router sent
  length : sent.length = pieces.length
  remembers : ∃ fps, sent.map OutboxEntry.fingerprint? = fps.map some ∧
    n'.router.recent = n.router.recent.insertAll fps
  closes : ∀ i e, sent[i]? = some e → ∃ piece, pieces[i]? = some piece ∧
    Envelope.close piece.plaintext recipient (n.entropy.secret (n.entropy.drawn + i)) piece.flags
      channel = .ok e.data

variable {n n' n'' : Node} {recipient : PublicKey} {channel : Option String}
  {piece : Stream.Piece} {pieces : List Stream.Piece} {sent : List OutboxEntry}

theorem Emits.nil (n : Node) : n.Emits recipient channel [] n [] :=
  ⟨.of_eq rfl rfl, rfl, ⟨[], rfl, rfl⟩, fun i e he => by simp at he⟩

/-- One piece and the others after it. -/
theorem Emits.cons {e : OutboxEntry} (h : n.Emits recipient channel [piece] n' [e])
    (hentropy : n'.entropy = n.drawSecret.2.entropy)
    (hrest : n'.Emits recipient channel pieces n'' sent) :
    n.Emits recipient channel (piece :: pieces) n'' (e :: sent) := by
  obtain ⟨fps, hfps, hrecent⟩ := h.remembers
  obtain ⟨fps', hfps', hrecent'⟩ := hrest.remembers
  refine ⟨h.posts.trans hrest.posts, by rw [List.length_cons, List.length_cons, hrest.length],
    ⟨fps ++ fps', ?_, ?_⟩, ?_⟩
  · rw [List.map_append, ← hfps, ← hfps']
    rfl
  · rw [RecentCache.insertAll_append, ← hrecent]
    exact hrecent'
  · intro i d hd
    cases i with
    | zero => exact h.closes 0 d hd
    | succ i =>
      -- The secret of the first piece has been drawn by then.
      have hdrawn : n'.entropy.drawn + i = n.entropy.drawn + (i + 1) := by
        rw [hentropy]
        show n.entropy.drawn + 1 + i = _
        omega
      have hsecret : n'.entropy.secret = n.entropy.secret := by
        rw [hentropy]
        rfl
      have hclose := hrest.closes i d hd
      rwa [hdrawn, hsecret] at hclose

/-- All that sending a piece does. -/
theorem emits_emitPiece (h : n.emitPiece recipient channel piece = (.ok (), n')) :
    n'.entropy = n.drawSecret.2.entropy ∧
      ∃ e, n.Emits recipient channel [piece] n' [e] := by
  unfold emitPiece at h
  dsimp only at h
  split at h
  · cases h
  · rename_i data hclose
    split at h
    · cases h
    · rename_i r hremember
      split at h
      · cases h
      · rename_i r' hpost
        cases h
        obtain ⟨e, fp, hread, rfl⟩ := Router.remember_eq_ok hremember
        have hremembered : n.router.Posts { n.router with recent := n.router.recent.insert fp } [] :=
          .of_eq rfl rfl
        refine ⟨rfl, ⟨channel.getD "", data, n.router.clock.stamp.1⟩,
          hremembered.trans (Router.posts_post hpost), rfl, ⟨[fp], ?_, ?_⟩, ?_⟩
        · show [(Envelope.read? data).map Prod.snd] = [some fp]
          rw [hread]
          rfl
        · exact (Router.keeps_post hpost).recent
        · intro i d hd
          cases i with
          | zero =>
            obtain rfl := Option.some.inj hd
            exact ⟨piece, rfl, hclose⟩
          | succ i => simp at hd

/-- All that sending pieces does, one after the other. -/
theorem emits_emitAll (h : n.emitAll recipient channel pieces = (.ok (), n')) :
    ∃ sent, n.Emits recipient channel pieces n' sent := by
  induction pieces generalizing n with
  | nil =>
    cases h
    exact ⟨[], .nil n'⟩
  | cons piece rest ih =>
    unfold emitAll at h
    split at h
    · cases h
    · rename_i m hemit
      obtain ⟨hentropy, e, hpiece⟩ := emits_emitPiece hemit
      obtain ⟨sent, hrest⟩ := ih h
      exact ⟨e :: sent, hpiece.cons hentropy hrest⟩

/-- All that sending a content does. A number for the stream is drawn first, needed or not. -/
theorem emits_pieces {content : Bytes} {count : Nat}
    (h : n.emit recipient channel content = (.ok count, n')) :
    ∃ room ps sent, contentRoom n.chunkSize channel = .ok room ∧
      Node.pieces content room channel n.entropy.draw32.1 = .ok ps ∧ count = ps.length ∧
      Emits { n with entropy := n.entropy.draw32.2 } recipient channel ps n' sent := by
  unfold emit at h
  split at h
  · cases h
  · rename_i room hroom
    dsimp only at h
    split at h
    · cases h
    · rename_i ps hpieces
      split at h
      · cases h
      · rename_i hemit
        cases h
        obtain ⟨sent, hsent⟩ := emits_emitAll hemit
        exact ⟨room, ps, sent, hroom, hpieces, rfl, hsent⟩

theorem emits_emit {content : Bytes} {count : Nat}
    (h : n.emit recipient channel content = (.ok count, n')) :
    ∃ pieces sent, count = pieces.length ∧
      Emits { n with entropy := n.entropy.draw32.2 } recipient channel pieces n' sent := by
  obtain ⟨room, ps, sent, -, -, hcount, hemits⟩ := emits_pieces h
  exact ⟨ps, sent, hcount, hemits⟩

/-! ### Echoes -/

theorem Emits.exists_read (h : n.Emits recipient channel pieces n' sent) {i : Nat}
    {e : OutboxEntry} (he : sent[i]? = some e) :
    ∃ fps d fp, sent.map OutboxEntry.fingerprint? = fps.map some ∧
      n'.router.recent = n.router.recent.insertAll fps ∧
      fps[i]? = some fp ∧ Envelope.read? e.data = some (d, fp) := by
  obtain ⟨fps, hfps, hrecent⟩ := h.remembers
  have hi : (sent.map OutboxEntry.fingerprint?)[i]? = some e.fingerprint? := by
    rw [List.getElem?_map, he]
    rfl
  rw [hfps, List.getElem?_map, Option.map_eq_some_iff] at hi
  obtain ⟨fp, hfp, heq⟩ := hi
  obtain ⟨⟨d, fp'⟩, hread, rfl⟩ := Option.map_eq_some_iff.mp heq.symm
  exact ⟨fps, d, fp', hfps, hrecent, hfp, hread⟩

/-- **The last envelopes of a send are passed over when they come back**, one more than a page of
fingerprints holds, and the router stays as it is. -/
theorem Emits.route_of_le (h : n.Emits recipient channel pieces n' sent) {i : Nat}
    {e : OutboxEntry} (he : sent[i]? = some e) (hlast : sent.length ≤ i + 1 + pageCapacity) :
    n'.router.route e.data = (.ok .duplicate, n'.router) := by
  obtain ⟨fps, d, fp, hfps, hrecent, hfp, hread⟩ := h.exists_read he
  have hlength := congrArg List.length hfps
  rw [List.length_map, List.length_map] at hlength
  refine Router.route_of_known hread ?_
  rw [hrecent]
  exact RecentCache.contains_insertAll_of_le _ hfp (by omega)

/-- **Of a send of new envelopes, those on the last two pages are passed over**, and no others. -/
theorem Emits.route_eq_duplicate_iff (h : n.Emits recipient channel pieces n' sent)
    (hnew : ∀ e ∈ sent, ∀ fp ∈ e.fingerprint?, n.router.recent.contains fp = false)
    (hdistinct : (sent.map OutboxEntry.fingerprint?).Nodup) {i : Nat} {e : OutboxEntry}
    (he : sent[i]? = some e) :
    n'.router.route e.data = (.ok .duplicate, n'.router) ↔
      pageOf (n.router.recent.fill + sent.length - 1) ≤ pageOf (n.router.recent.fill + i) + 1 := by
  obtain ⟨fps, d, fp, hfps, hrecent, hfp, hread⟩ := h.exists_read he
  have hlength := congrArg List.length hfps
  rw [List.length_map, List.length_map] at hlength
  have hnodup : fps.Nodup := by
    rw [hfps] at hdistinct
    exact hdistinct.of_map some
  have hunknown : ∀ x ∈ fps, n.router.recent.contains x = false := by
    intro x hx
    have hmem : some x ∈ sent.map OutboxEntry.fingerprint? := hfps ▸ List.mem_map_of_mem hx
    obtain ⟨d, hd, hdx⟩ := List.mem_map.mp hmem
    exact hnew d hd x hdx
  rw [Router.route_eq_duplicate_iff hread, hrecent, hlength]
  exact RecentCache.contains_insertAll_iff hunknown hnodup hfp

/-! ### A send of many envelopes -/

section Success

variable [Cryptography.Lawful]

theorem Emits.fingerprint?_eq (h : n.Emits recipient channel pieces n' sent) {i : Nat}
    {e : OutboxEntry} (he : sent[i]? = some e) :
    e.fingerprint? = some ((Cryptography.initiate recipient
      (n.entropy.secret (n.entropy.drawn + i))).1.take fingerprintLength) := by
  obtain ⟨piece, -, hclose⟩ := h.closes i e he
  exact OutboxEntry.fingerprint?_of_read (Envelope.read?_close hclose)

/-- Handshakes that start differently make envelopes that differ. -/
theorem Emits.nodup_fingerprints (h : n.Emits recipient channel pieces n' sent)
    (hdistinct : ∀ i < pieces.length, ∀ j < pieces.length,
      (Cryptography.initiate recipient (n.entropy.secret (n.entropy.drawn + i))).1.take
          fingerprintLength =
        (Cryptography.initiate recipient (n.entropy.secret (n.entropy.drawn + j))).1.take
          fingerprintLength → i = j) :
    (sent.map OutboxEntry.fingerprint?).Nodup := by
  rw [List.nodup_iff_getElem?_ne_getElem?]
  intro i j hij hj heq
  rw [List.length_map] at hj
  have hi : i < sent.length := Nat.lt_trans hij hj
  rw [List.getElem?_map, List.getElem?_map, List.getElem?_eq_getElem hi,
    List.getElem?_eq_getElem hj] at heq
  have hsame := Option.some.inj heq
  rw [h.fingerprint?_eq (List.getElem?_eq_getElem hi),
    h.fingerprint?_eq (List.getElem?_eq_getElem hj)] at hsame
  rw [h.length] at hi hj
  have := hdistinct i hi j hj (Option.some.inj hsame)
  omega

/-- A piece of any kind is queued, if the store takes entries and an envelope can bear the channel. -/
theorem exists_emitPiece (hup : StoreCall.appendOutbox.name ∉ n.backend.down)
    (recipient : PublicKey) (hchannel : ∀ name ∈ channel, Envelope.Bearable name)
    (hflags : (piece.flags.chunked && piece.flags.streamHeader) = false) :
    ∃ n', n.emitPiece recipient channel piece = (.ok (), n') := by
  obtain ⟨data, hclose⟩ :=
    Envelope.exists_close hflags hchannel piece.plaintext recipient n.drawSecret.1
  obtain ⟨r, hremember, hbackend⟩ : ∃ r, n.drawSecret.2.router.remember data = .ok r ∧
      r.backend = n.backend := ⟨_, Router.remember_of_read _ (Envelope.read?_close hclose), rfl⟩
  have hpost := r.post_of_up (hbackend ▸ hup) (channel.getD "") data
  unfold emitPiece
  dsimp only
  rw [hclose]
  dsimp only
  rw [hremember]
  dsimp only
  rw [hpost]
  exact ⟨_, rfl⟩

theorem exists_emitAll (hup : StoreCall.appendOutbox.name ∉ n.backend.down)
    (recipient : PublicKey) (hchannel : ∀ name ∈ channel, Envelope.Bearable name)
    (hflags : ∀ p ∈ pieces, (p.flags.chunked && p.flags.streamHeader) = false) :
    ∃ n', n.emitAll recipient channel pieces = (.ok (), n') := by
  induction pieces generalizing n with
  | nil => exact ⟨n, rfl⟩
  | cons piece rest ih =>
    obtain ⟨m, hemit⟩ :=
      exists_emitPiece hup recipient hchannel (hflags piece List.mem_cons_self)
    have hdown := (n.grows_emitPiece recipient channel piece).router.down
    rw [hemit] at hdown
    obtain ⟨n', hrest⟩ := ih (n := m) (by rwa [backend, hdown])
      fun p hp => hflags p (List.mem_cons_of_mem _ hp)
    refine ⟨n', ?_⟩
    unfold emitAll
    rw [hemit]
    exact hrest

/-- A long content for a key is queued as a header and its chunks. -/
theorem exists_sendTo (hup : StoreCall.appendOutbox.name ∉ n.backend.down)
    (recipient : PublicKey) {content : Bytes} (hroom : Chunk.headerLength < n.chunkSize)
    (hlong : n.chunkSize < content.length)
    (hcount : (Bytes.pieces (n.chunkSize - Chunk.headerLength) content).length < UInt32.size) :
    ∃ n', n.sendTo recipient content =
      (.ok ((Bytes.pieces (n.chunkSize - Chunk.headerLength) content).length + 1), n') := by
  obtain ⟨ps, hsplit⟩ : ∃ ps, Stream.split content n.chunkSize none n.entropy.draw32.1 = .ok ps := by
    unfold Stream.split
    rw [if_neg (Nat.not_le.mpr hroom)]
    dsimp only
    rw [if_neg (Nat.not_le.mpr hcount)]
    exact ⟨_, rfl⟩
  let s : Stream.Sending := ⟨content, n.chunkSize, none, n.entropy.draw32.1, ps, hsplit⟩
  have hflags : ∀ p ∈ ps, (p.flags.chunked && p.flags.streamHeader) = false :=
    fun p hp => s.flags_of_mem hp
  have hlength : ps.length =
      (Bytes.pieces (n.chunkSize - Chunk.headerLength) content).length + 1 := by
    rw [show ps = Stream.Piece.ofHeader s.header :: s.chunks.map Stream.Piece.ofChunk from
      s.pieces_eq, List.length_cons, List.length_map, s.length_chunks]
    rfl
  have hchannel : ∀ name ∈ (none : Option String), Envelope.Bearable name := nofun
  obtain ⟨n', hemit⟩ :=
    exists_emitAll (n := { n with entropy := n.entropy.draw32.2 }) hup recipient hchannel hflags
  refine ⟨n', ?_⟩
  unfold sendTo emit contentRoom pieces
  dsimp only
  rw [if_neg (Nat.not_le.mpr hlong), hsplit]
  dsimp only
  rw [hemit, hlength]

end Success

/-- A node just made, with frames of up to 1034 bytes, whose secrets are the numbers in a row. -/
def numbered : Node :=
  { made 1034 with entropy := { secret := fun i => Key.ofPadded (Bytes.ofNat 16 i) } }

omit [Cryptography] in
theorem exists_sendTo_numbered :
    letI := Cryptography.transparent
    ∃ n', numbered.sendTo ⟨.chacha, Key.ofPadded [1]⟩ (List.replicate 200 7) = (.ok 101, n') := by
  let _ := Cryptography.transparent
  have := Cryptography.lawful_transparent
  have hchunks : (Bytes.pieces (numbered.chunkSize - Chunk.headerLength)
      (List.replicate 200 (7 : UInt8))).length = 100 := by
    rw [Bytes.length_pieces (by decide), List.length_replicate]
    rfl
  have hlong : numbered.chunkSize < (List.replicate 200 (7 : UInt8)).length := by
    rw [List.length_replicate]
    decide
  obtain ⟨n', hsent⟩ := exists_sendTo (n := numbered) List.not_mem_nil ⟨.chacha, Key.ofPadded [1]⟩
    (by decide) hlong (by rw [hchunks]; decide)
  rw [hchunks] at hsent
  exact ⟨n', hsent⟩

omit [Cryptography] in
/-- Its secrets differ in the part that a handshake starts with. -/
theorem nodup_numbered {n' : Node} :
    letI := Cryptography.transparent
    numbered.sendTo ⟨.chacha, Key.ofPadded [1]⟩ (List.replicate 200 7) = (.ok 101, n') →
      (n'.backend.store.outbox.map OutboxEntry.fingerprint?).Nodup := by
  let _ := Cryptography.transparent
  have := Cryptography.lawful_transparent
  intro hsent
  obtain ⟨pieces, sent, hcount, hemits⟩ := emits_emit hsent
  have hstart : ∀ k, (Cryptography.initiate ⟨.chacha, Key.ofPadded [1]⟩
      (numbered.entropy.secret (1 + k))).1.take fingerprintLength = Bytes.ofNat 16 (1 + k) :=
    fun _ => rfl
  rw [backend, ← hemits.posts.eq_of_nil rfl]
  refine hemits.nodup_fingerprints fun i hi j hj heq => ?_
  have hnumber := congrArg Bytes.toNat ((hstart i).symm.trans (heq.trans (hstart j)))
  rw [Bytes.toNat_ofNat (by omega), Bytes.toNat_ofNat (by omega)] at hnumber
  omega

/-! ### What comes back after a send -/

/-- A content was sent to a key or posted to a channel, and so many envelopes were queued. -/
inductive Sent (n : Node) (count : Nat) (n' : Node) : Prop
  | privately (recipient : PublicKey) (content : Bytes)
    (h : n.sendTo recipient content = (.ok count, n'))
  | inChannel (name : String) (content : Bytes)
    (h : n.sendChannel name content = (.ok count, n'))

theorem Sent.exists_emits {count : Nat} (h : n.Sent count n') :
    ∃ recipient channel pieces sent, count = pieces.length ∧
      Emits { n with entropy := n.entropy.draw32.2 } recipient channel pieces n' sent := by
  cases h with
  | privately recipient content h => exact ⟨recipient, none, emits_emit h⟩
  | inChannel name content h =>
    unfold sendChannel at h
    split at h
    · cases h
    · cases h
    · exact ⟨_, _, emits_emit h⟩

/-- **Echoes of what a node has just sent.** Whatever was sent and to whom, the last envelopes of it
are passed over when they come back, one more than a page of fingerprints holds, and the router stays
as it is. If all are new and distinct, those on the last two pages are passed over and no others. -/
theorem echo_duplicate_iff {count : Nat} (h : n.Sent count n') :
    ∃ sent, n.router.Posts n'.router sent ∧ sent.length = count ∧
      (∀ i e, sent[i]? = some e → count ≤ i + 1 + pageCapacity →
        n'.router.route e.data = (.ok .duplicate, n'.router)) ∧
      ((∀ e ∈ sent, ∀ fp ∈ e.fingerprint?, n.router.recent.contains fp = false) →
        (sent.map OutboxEntry.fingerprint?).Nodup → ∀ i e, sent[i]? = some e →
          (n'.router.route e.data = (.ok .duplicate, n'.router) ↔
            pageOf (n.router.recent.fill + count - 1) ≤
              pageOf (n.router.recent.fill + i) + 1)) := by
  obtain ⟨recipient, channel, pieces, sent, rfl, hemits⟩ := h.exists_emits
  refine ⟨sent, hemits.posts, hemits.length, ?_, ?_⟩
  · intro i e he hlast
    exact hemits.route_of_le he (hemits.length ▸ hlast)
  · intro hnew hdistinct i e he
    rw [← hemits.length]
    exact hemits.route_eq_duplicate_iff hnew hdistinct he

omit [Cryptography] in
/-- Of 101 envelopes the first fifty are forgotten before the last is queued. -/
theorem echo_duplicate_iff_hundred_and_one :
    letI := Cryptography.transparent
    ∃ n', numbered.Sent 101 n' ∧ n'.backend.store.outbox.length = 101 ∧
      ∀ i e, n'.backend.store.outbox[i]? = some e →
        (n'.router.route e.data = (.ok .duplicate, n'.router) ↔ 50 ≤ i) := by
  let _ := Cryptography.transparent
  obtain ⟨n', hsendTo⟩ := exists_sendTo_numbered
  have hsent : numbered.Sent 101 n' := .privately _ _ hsendTo
  obtain ⟨sent, hposts, hlength, -, hechoes⟩ := echo_duplicate_iff hsent
  obtain rfl : sent = n'.backend.store.outbox := hposts.eq_of_nil rfl
  refine ⟨n', hsent, hlength, fun i e he => ?_⟩
  rw [hechoes (fun _ _ _ _ => rfl) (nodup_numbered hsendTo) i e he]
  show pageOf (0 + 101 - 1) ≤ pageOf (0 + i) + 1 ↔ 50 ≤ i
  simp only [pageOf, pageCapacity]
  omega

omit [Cryptography] in
/-- The first of 101 envelopes is not passed over when it comes back. -/
theorem route_first_of_hundred_and_one :
    letI := Cryptography.transparent
    ∃ n' e, numbered.sendTo ⟨.chacha, Key.ofPadded [1]⟩ (List.replicate 200 7) = (.ok 101, n') ∧
      e ∈ n'.backend.store.outbox ∧ (n'.router.route e.data).1 ≠ .ok .duplicate := by
  let _ := Cryptography.transparent
  obtain ⟨n', hsent⟩ := exists_sendTo_numbered
  obtain ⟨pieces, sent, hcount, hemits⟩ := emits_emit hsent
  obtain rfl : sent = n'.backend.store.outbox := hemits.posts.eq_of_nil rfl
  have hlength : n'.backend.store.outbox.length = 101 := hemits.length.trans hcount.symm
  obtain ⟨e, he⟩ : ∃ e, n'.backend.store.outbox[0]? = some e :=
    ⟨_, List.getElem?_eq_getElem (by omega)⟩
  refine ⟨n', e, hsent, List.mem_of_getElem? he, fun hdup => ?_⟩
  have hiff := hemits.route_eq_duplicate_iff (fun _ _ _ _ => rfl) (nodup_numbered hsent) he
  have hpages := hiff.mp (Router.route_of_duplicate hdup)
  rw [hlength] at hpages
  exact absurd hpages (by decide)

end Node

end Courier
