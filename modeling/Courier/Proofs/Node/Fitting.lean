import Mathlib
import Courier.Proofs.Bundle.Pickup
import Courier.Proofs.Node.Growth
import Courier.Proofs.SealedBox.Length
import Courier.Proofs.Stream.Sending

/-!
## What a node sends and what a bundle holds

A node sizes its envelopes by what a transport carries less a fixed reserve, and its bundles by what
the transport carries less what sealing adds. Sealing adds a tag for every message, to the envelope
and again to the bundle it travels in, so the reserve lasts up to a certain limit of the transport.
Up to there every envelope fits a bundle; beyond, the longest ones do not, and no pickup ever hands
them over.

* `length_plaintext_le`: every piece of a content keeps within the room for it.
* `Node.Queues`: what a node puts into its outbox.
* `queues_emit`: every envelope is at most one byte longer than a box around a full chunk.
* `pickup_full_chunk`: beyond the limit, a full chunk is never handed over.
* `queues_fitting_iff`: the limits up to which everything sent fits a bundle.
-/

namespace Courier

open Courier.Bundle (batchOverhead cost)
open Courier.SealedBox (sealedLength segmentCount)

/-! ### Pieces -/

theorem StreamHeader.length_encode (h : StreamHeader) :
    h.encode.length = Chunk.headerLength + h.name.utf8ByteSize := by
  rw [encode, List.length_append, List.length_append, Bytes.length_ofNat, Bytes.length_ofNat,
    Bytes.length_ofString, Chunk.headerLength]
  omega

theorem Chunk.length_encode (c : Chunk) :
    c.encode.length = Chunk.headerLength + c.payload.length := by
  rw [encode, List.length_append, List.length_append, Bytes.length_ofNat, Bytes.length_ofNat,
    Chunk.headerLength]
  omega

/-- No record of a stream is longer than its pieces may be, if the name of the channel leaves room
for itself in the header. -/
theorem Stream.Sending.length_plaintext_le (s : Stream.Sending)
    (hname : Chunk.headerLength + (s.channel.getD "").utf8ByteSize ≤ s.size) :
    ∀ p ∈ s.pieces, p.plaintext.length ≤ s.size := by
  have hsize := s.split_spec.1
  intro p hp
  rw [s.pieces_eq] at hp
  rcases List.mem_cons.mp hp with rfl | hp
  · rw [Piece.ofHeader, StreamHeader.length_encode]
    exact hname
  · obtain ⟨c, hc, rfl⟩ := List.mem_map.mp hp
    have hpayload : c.payload ∈ s.payloads := by
      rw [← map_payload_chunksFrom s.stream 0 s.payloads]
      exact List.mem_map_of_mem hc
    have hle := Bytes.length_le_of_mem_pieces (by omega) hpayload
    rw [Piece.ofChunk, Chunk.length_encode]
    omega

namespace Node

/-- What is left of a chunk beside the name of a channel, which takes at most as much again. -/
theorem room_of_contentRoom {chunkSize room : Nat} {channel : Option String}
    (h : contentRoom chunkSize channel = .ok room) (hname : channel ≠ some "") :
    room + Envelope.nameLength channel = chunkSize ∧
      (Chunk.headerLength < room →
        Chunk.headerLength + (channel.getD "").utf8ByteSize ≤ room) := by
  have hheader : Chunk.headerLength = 8 := rfl
  cases channel with
  | none =>
    obtain rfl := Except.ok.inj h
    exact ⟨rfl, fun hroom => Nat.le_of_lt hroom⟩
  | some name =>
    have hpos : 0 < name.utf8ByteSize := by
      rw [Nat.pos_iff_ne_zero, Ne, String.utf8ByteSize_eq_zero_iff]
      rintro rfl
      exact hname rfl
    unfold contentRoom at h
    dsimp only at h
    split at h
    · cases h
    · rename_i hshort
      rw [Nat.not_lt, maxNameLength] at hshort
      rw [if_pos (by omega)] at h
      obtain rfl := Except.ok.inj h
      rw [Envelope.nameLength, Option.getD_some]
      omega

/-- A content is sent in one piece if there is room for it, and else as a stream. -/
theorem pieces_cases {room : Nat} {channel : Option String} {content : Bytes} {stream : UInt32}
    {ps : List Stream.Piece} (h : pieces content room channel stream = .ok ps) :
    (content.length ≤ room ∧ ps = [⟨Flags.none, content⟩]) ∨
    ∃ s : Stream.Sending, s.content = content ∧ s.size = room ∧ s.channel = channel ∧
      s.stream = stream ∧ s.pieces = ps := by
  unfold pieces at h
  split at h
  · rename_i hshort
    exact .inl ⟨hshort, (Except.ok.inj h).symm⟩
  · split at h
    · cases h
    · rename_i split hsplit
      obtain rfl := Except.ok.inj h
      exact .inr ⟨⟨content, room, channel, stream, split, hsplit⟩, rfl, rfl, rfl, rfl, rfl⟩

theorem flags_of_pieces {room : Nat} {channel : Option String} {content : Bytes} {stream : UInt32}
    {ps : List Stream.Piece} (h : pieces content room channel stream = .ok ps) :
    ∀ p ∈ ps, (p.flags.chunked && p.flags.streamHeader) = false := by
  rcases pieces_cases h with ⟨-, rfl⟩ | ⟨s, -, -, -, -, rfl⟩
  · exact List.forall_mem_singleton.mpr rfl
  · exact fun p hp => s.flags_of_mem hp

theorem length_plaintext_le {chunkSize room : Nat} {channel : Option String} {content : Bytes}
    {stream : UInt32} {ps : List Stream.Piece} (hroom : contentRoom chunkSize channel = .ok room)
    (hname : channel ≠ some "") (h : pieces content room channel stream = .ok ps) :
    ∀ p ∈ ps, p.plaintext.length ≤ room := by
  rcases pieces_cases h with ⟨hshort, rfl⟩ | ⟨s, -, rfl, rfl, -, rfl⟩
  · exact List.forall_mem_singleton.mpr hshort
  · exact s.length_plaintext_le ((room_of_contentRoom hroom hname).2 s.split_spec.1)

end Node

/-! ### Envelopes -/

variable [Cryptography]

/-- An envelope has the predicted length, and its channel a name. -/
theorem Envelope.length_close [Cryptography.Lawful] {plaintext data : Bytes} {recipient : PublicKey}
    {once : Key} {flags : Flags} {channel : Option String}
    (h : Envelope.close plaintext recipient once flags channel = .ok data) :
    data.length = Envelope.length plaintext.length channel ∧ channel ≠ some "" := by
  unfold close at h
  cases hheader : header flags channel with
  | error e =>
    rw [hheader] at h
    cases h
  | ok bytes =>
    rw [hheader] at h
    obtain rfl := Except.ok.inj h
    rw [List.length_append, SealedBox.length_close, Envelope.length]
    unfold header at hheader
    split at hheader
    · cases hheader
    · cases channel with
      | none =>
        obtain rfl := Except.ok.inj hheader
        exact ⟨rfl, nofun⟩
      | some name =>
        dsimp only at hheader
        split at hheader
        · cases hheader
        · rename_i hname
          split at hheader
          · cases hheader
          · obtain rfl := Except.ok.inj hheader
            refine ⟨?_, fun hempty => ?_⟩
            · rw [List.length_cons, List.length_append, Bytes.length_ofNat, Bytes.length_ofString,
                nameLength]
              omega
            · obtain rfl := Option.some.inj hempty
              exact hname rfl

omit [Cryptography] in
/-- What fits beside the name of a channel makes an envelope hardly longer than a box. -/
theorem Envelope.length_le {n room chunkSize : Nat} {channel : Option String} (hn : n ≤ room)
    (hroom : room + nameLength channel = chunkSize) :
    Envelope.length n channel ≤ 1 + sealedLength chunkSize := by
  have htags := Nat.mul_le_mul_right SealedBox.tagLength
    (SealedBox.segmentCount_mono (show n ≤ chunkSize by omega))
  rw [Envelope.length, sealedLength, sealedLength]
  omega

namespace Node

/-! ### The outbox -/

omit [Cryptography] in
/-- A node puts entries of some sort into its outbox, and changes nothing else there. -/
def Queues (sort : OutboxEntry → Prop) (n n' : Node) : Prop :=
  ∃ new, n'.backend.store.outbox.Perm (new ++ n.backend.store.outbox) ∧ ∀ e ∈ new, sort e

section Queues

omit [Cryptography]

variable {sort sort' : OutboxEntry → Prop} {n n' n'' : Node}

theorem Queues.of_eq (h : n'.backend.store.outbox = n.backend.store.outbox) :
    Queues sort n n' :=
  ⟨[], by rw [h, List.nil_append], List.forall_mem_nil _⟩

theorem Queues.trans (h : Queues sort n n') (h' : Queues sort n' n'') : Queues sort n n'' := by
  obtain ⟨new, hperm, hnew⟩ := h
  obtain ⟨new', hperm', hnew'⟩ := h'
  refine ⟨new' ++ new, ?_, List.forall_mem_append.mpr ⟨hnew', hnew⟩⟩
  rw [List.append_assoc]
  exact hperm'.trans (hperm.append_left new')

theorem Queues.mono (h : Queues sort n n') (hsort : ∀ e, sort e → sort' e) :
    Queues sort' n n' := by
  obtain ⟨new, hperm, hnew⟩ := h
  exact ⟨new, hperm, fun e he => hsort e (hnew e he)⟩

/-- What was put into an empty outbox is all that is there. -/
theorem Queues.all (h : Queues sort n n') (hempty : n.backend.store.outbox = []) :
    ∀ e ∈ n'.backend.store.outbox, sort e := by
  obtain ⟨new, hperm, hnew⟩ := h
  intro e he
  have hin := hperm.mem_iff.mp he
  rw [hempty, List.append_nil] at hin
  exact hnew e hin

end Queues

variable [Cryptography.Lawful]

/-- A piece becomes one envelope of the predicted length, unless it becomes none. -/
theorem queues_emitPiece (n : Node) (recipient : PublicKey) (channel : Option String)
    (piece : Stream.Piece) :
    Queues (fun e => e.data.length = Envelope.length piece.plaintext.length channel ∧
      channel ≠ some "") n (n.emitPiece recipient channel piece).2 := by
  unfold emitPiece
  dsimp only
  split
  · exact .of_eq rfl
  · rename_i data hclose
    split
    · exact .of_eq rfl
    · rename_i r hremember
      obtain ⟨-, fp, -, rfl⟩ := Router.remember_eq_ok hremember
      split
      · exact .of_eq rfl
      · rename_i r' hpost
        obtain rfl := Router.post_eq_ok hpost
        exact ⟨[_], Outbox.append_perm _ _,
          List.forall_mem_singleton.mpr (Envelope.length_close hclose)⟩

theorem queues_emitAll (n : Node) (recipient : PublicKey) (channel : Option String)
    (ps : List Stream.Piece) (sort : OutboxEntry → Prop)
    (h : ∀ p ∈ ps, ∀ e : OutboxEntry, e.data.length = Envelope.length p.plaintext.length channel →
      channel ≠ some "" → sort e) :
    Queues sort n (n.emitAll recipient channel ps).2 := by
  induction ps generalizing n with
  | nil => exact .of_eq rfl
  | cons p rest ih =>
    have hpiece := (n.queues_emitPiece recipient channel p).mono fun e he =>
      h p List.mem_cons_self e he.1 he.2
    unfold emitAll
    split
    · rename_i hemit
      rwa [hemit] at hpiece
    · rename_i hemit
      rw [hemit] at hpiece
      exact hpiece.trans (ih _ fun q hq => h q (List.mem_cons_of_mem _ hq))

/-- **Every envelope is at most one byte longer than a box around a full chunk.** -/
theorem queues_emit (n : Node) (recipient : PublicKey) (channel : Option String)
    (content : Bytes) :
    Queues (fun e => e.data.length ≤ 1 + sealedLength n.chunkSize) n
      (n.emit recipient channel content).2 := by
  unfold emit
  split
  · exact .of_eq rfl
  · rename_i room hroom
    dsimp only
    split
    · exact .of_eq rfl
    · rename_i ps hpieces
      have hall := queues_emitAll { n with entropy := n.entropy.draw32.2 } recipient channel
        ps (fun e => e.data.length ≤ 1 + sealedLength n.chunkSize) (by
          intro p hp e he hname
          rw [he]
          exact Envelope.length_le (length_plaintext_le hroom hname hpieces p hp)
            (room_of_contentRoom hroom hname).1)
      split
      · rename_i hemit
        rw [hemit] at hall
        exact hall
      · rename_i hemit
        rw [hemit] at hall
        exact hall

omit [Cryptography] [Cryptography.Lawful] in
/-- A node with one transport, as it was made for it, whatever has happened since. -/
structure Carried (n : Node) (limit : Nat) : Prop where
  limits : n.transports.limits = [limit]
  chunkSize : n.transports.chunkSize = .ok n.chunkSize

/-- A node sends a content to a key or posts it to a channel. -/
inductive Sends (n : Node) : Node → Prop
  | privately (recipient : PublicKey) (content : Bytes) : Sends n (n.sendTo recipient content).2
  | inChannel (name : String) (content : Bytes) : Sends n (n.sendChannel name content).2

omit [Cryptography] [Cryptography.Lawful] in
/-- There is room beside the reserve. -/
theorem Carried.reserve_lt {n : Node} {limit : Nat} (h : n.Carried limit) :
    Stream.reserve < limit := by
  have hchunk := h.chunkSize
  rw [Transports.chunkSize, h.limits, Stream.chunkSize] at hchunk
  simp only [List.min?_singleton] at hchunk
  by_contra hle
  rw [if_pos (Nat.not_lt.mp hle)] at hchunk
  cases hchunk

omit [Cryptography] [Cryptography.Lawful] in
theorem Carried.chunkSize_eq {n : Node} {limit : Nat} (h : n.Carried limit) :
    n.chunkSize = limit - Stream.reserve := by
  have hchunk := h.chunkSize
  rw [Transports.chunkSize, h.limits, Stream.chunkSize] at hchunk
  simp only [List.min?_singleton] at hchunk
  rw [if_neg (Nat.not_le.mpr (Carried.reserve_lt h))] at hchunk
  exact (Except.ok.inj hchunk).symm

omit [Cryptography] [Cryptography.Lawful] in
/-- Every node that is made for one transport starts so. -/
theorem carried_create {settings : Settings} {scheme : String} {limit : Nat} {identity : Identity}
    {backend : Backend} {clock : Clock} {entropy : Entropy} {n : Node}
    (h : create settings (.ofList [(scheme, ⟨scheme, limit⟩)]) identity backend clock entropy =
      .ok n) : n.Carried limit := by
  unfold create at h
  split at h
  · cases h
  · rename_i chunkSize hchunk
    obtain rfl := Except.ok.inj h
    exact ⟨rfl, hchunk⟩

theorem queues_sends {n n' : Node} (h : n.Sends n') :
    Queues (fun e => e.data.length ≤ 1 + sealedLength n.chunkSize) n n' := by
  cases h with
  | privately recipient content => exact n.queues_emit recipient none content
  | inChannel name content =>
    unfold sendChannel
    split
    · exact .of_eq rfl
    · exact .of_eq rfl
    · exact n.queues_emit _ _ _

/-! ### Up to which limit everything fits -/

omit [Cryptography] [Cryptography.Lawful] in
/-- Up to 26 full messages beside the reserve, what is hardly longer than a box around a full chunk
fits a bundle. -/
theorem cost_le_of_le {limit : Nat} (hlimit : Stream.reserve < limit) (hle : limit ≤ 1704518)
    {e : OutboxEntry} (he : e.data.length ≤ 1 + sealedLength (limit - Stream.reserve)) :
    cost e ≤ Bundle.budget limit - batchOverhead := by
  have hreserve : Stream.reserve = 1024 := rfl
  have hroom : SealedBox.maxSegmentContent = 65519 := rfl
  have hhello : SealedBox.handshakeLength = 48 := rfl
  have htag : SealedBox.tagLength = 16 := rfl
  have hframe : Bundle.frameOverhead = 64 := rfl
  have hbatch : batchOverhead = 11 := rfl
  have hinner : segmentCount (limit - Stream.reserve) ≤ 26 :=
    (SealedBox.segmentCount_le_iff (by decide)).mpr (by omega)
  have houter : segmentCount limit ≤ 27 :=
    (SealedBox.segmentCount_le_iff (by decide)).mpr (by omega)
  have hinnerTags := Nat.mul_le_mul_right SealedBox.tagLength hinner
  have houterTags := Nat.mul_le_mul_right SealedBox.tagLength houter
  rw [sealedLength] at he
  have hprefix : Varint.length e.data.length ≤ 3 := Varint.length_le_of_lt_pow (by omega)
  rw [cost, Bundle.budget, SealedBox.overhead_eq]
  omega

omit [Cryptography] [Cryptography.Lawful] in
/-- Beyond, a full chunk makes an envelope that fits no bundle. -/
theorem lt_cost_of_lt {limit : Nat} (hlt : 1704518 < limit) {e : OutboxEntry}
    (he : e.data.length = Envelope.length (limit - Stream.reserve) none) :
    Bundle.budget limit - batchOverhead < cost e := by
  have hreserve : Stream.reserve = 1024 := rfl
  have hroom : SealedBox.maxSegmentContent = 65519 := rfl
  have hhello : SealedBox.handshakeLength = 48 := rfl
  have htag : SealedBox.tagLength = 16 := rfl
  have hframe : Bundle.frameOverhead = 64 := rfl
  have hbatch : batchOverhead = 11 := rfl
  have hinner : 26 < segmentCount (limit - Stream.reserve) :=
    (SealedBox.lt_segmentCount_iff (by decide)).mpr (by omega)
  have houter : 26 < segmentCount limit :=
    (SealedBox.lt_segmentCount_iff (by decide)).mpr (by omega)
  have hinnerTags := Nat.mul_le_mul_right SealedBox.tagLength hinner
  have houterTags := Nat.mul_le_mul_right SealedBox.tagLength houter
  have hpos := Varint.length_pos e.data.length
  rw [Envelope.length, Envelope.nameLength, sealedLength] at he
  rw [cost, Bundle.budget, SealedBox.overhead_eq]
  omega

/-- A plain piece becomes an envelope in the outbox. -/
theorem emitPiece_private {n : Node} (hup : StoreCall.appendOutbox.name ∉ n.backend.down)
    (recipient : PublicKey) (content : Bytes) :
    ∃ r e, n.emitPiece recipient none ⟨Flags.none, content⟩ =
        (.ok (), { n.drawSecret.2 with router := r }) ∧
      r.backend = { n.backend with store.outbox := n.backend.store.outbox.append e } ∧
      e.data.length = Envelope.length content.length none := by
  let box := SealedBox.close recipient n.drawSecret.1 content
  have hclose : Envelope.close content recipient n.drawSecret.1 Flags.none none =
      .ok (Flags.none.bits :: box) := rfl
  have hlong : fingerprintLength ≤ box.length :=
    Nat.le_trans (by decide) (SealedBox.minLength_le_length_close _ _ _)
  have hparse : Envelope.parse (Flags.none.bits :: box) = .ok ⟨Flags.none, none, box⟩ := rfl
  have hread := Envelope.read?_eq_some_iff.mpr
    ⟨hparse, Envelope.fingerprint_eq_ok_iff.mpr ⟨hlong, rfl⟩⟩
  have hremember := n.drawSecret.2.router.remember_of_read hread
  have hpost := Router.post_of_up { n.drawSecret.2.router with
    recent := n.drawSecret.2.router.recent.insert (box.take fingerprintLength) } hup ""
    (Flags.none.bits :: box)
  unfold emitPiece
  dsimp only
  rw [hclose]
  dsimp only
  rw [hremember]
  dsimp only [Option.getD_none]
  rw [hpost]
  exact ⟨_, _, rfl, rfl, (Envelope.length_close hclose).1⟩

/-- A content that fits one envelope is queued in one. -/
theorem sendTo_of_length_le {n : Node} (hup : StoreCall.appendOutbox.name ∉ n.backend.down)
    (recipient : PublicKey) {content : Bytes} (hshort : content.length ≤ n.chunkSize) :
    ∃ e : OutboxEntry, (n.sendTo recipient content).2.backend =
        { n.backend with store.outbox := n.backend.store.outbox.append e } ∧
      e.data.length = Envelope.length content.length none := by
  obtain ⟨r, e, hemit, hbackend, hlength⟩ :=
    emitPiece_private (n := { n with entropy := n.entropy.draw32.2 }) hup recipient content
  refine ⟨e, ?_, hlength⟩
  unfold sendTo emit contentRoom pieces
  dsimp only
  rw [if_pos hshort]
  dsimp only [emitAll]
  rw [hemit]
  exact hbackend

/-- **A full chunk that fits no bundle**: it stays in the outbox, and no pickup within the budget of
the transport hands it over. -/
theorem pickup_full_chunk {n : Node} {limit : Nat} (h : n.Carried limit) (hlt : 1704518 < limit)
    (hsize : limit < UInt64.size) (hdown : n.backend.down = [])
    (hempty : n.backend.store.outbox = []) (recipient : PublicKey) {content : Bytes}
    (hfull : content.length = limit - Stream.reserve) :
    (∃ e, (n.sendTo recipient content).2.backend.store.outbox = [e] ∧
      Bundle.budget limit - batchOverhead < Varint.length e.data.length + e.data.length) ∧
    ∀ (caller : PublicKey) (since : Time) (channels : List String),
      (n.sendTo recipient content).2.pickup caller since (Bundle.budget limit) channels =
        (.ok (Bundle.empty since), (n.sendTo recipient content).2) := by
  have hshort : content.length ≤ n.chunkSize := by rw [hfull, h.chunkSize_eq]
  obtain ⟨e, hbackend, hlength⟩ :=
    sendTo_of_length_le (hdown ▸ List.not_mem_nil) recipient hshort
  rw [hfull] at hlength
  have hcost := lt_cost_of_lt hlt hlength
  have houtbox : (n.sendTo recipient content).2.backend.store.outbox = [e] := by
    rw [hbackend, hempty]
    rfl
  refine ⟨⟨e, houtbox, hcost⟩, fun caller since channels => ?_⟩
  have hup : StoreCall.outboxSince.name ∉ (n.sendTo recipient content).2.backend.down := by
    rw [hbackend, hdown]
    exact List.not_mem_nil
  rcases pickup_cases hup (by rw [houtbox]; exact List.pairwise_singleton _ _) caller since
    (Bundle.budget_lt hsize) channels with ⟨-, hpickup⟩ | ⟨b, taken, hdue, -, ⟨d, hd, -⟩, -, -⟩
  · exact hpickup
  · have hmem : d ∈ (n.sendTo recipient content).2.backend.store.outbox.due since channels
        (Bundle.budget limit - batchOverhead) := hdue ▸ List.mem_append_left _ hd
    obtain ⟨hin, -, -, hfits⟩ := Outbox.mem_due.mp hmem
    rw [houtbox, List.mem_singleton] at hin
    subst hin
    exact absurd hfits (Nat.not_le.mpr hcost)

omit [Cryptography] [Cryptography.Lawful] in
/-- A node just made, with one transport and nothing in its store. -/
def made (limit : Nat) : Node where
  settings := { identity := { contentKeyPath := "content.key", routingKeyPath := "routing.key" } }
  transports := .ofList [(defaultScheme, ⟨defaultScheme, limit⟩)]
  chunkSize := limit - Stream.reserve
  router :=
    { settings := {}
      identity := ⟨⟨.chacha, Key.zero⟩, ⟨.chacha, Key.zero⟩⟩
      backend := {}
      clock := { wall := fun _ => 1 }
      queue := .ofDepth 256 }
  entropy := { secret := fun _ => Key.zero }

omit [Cryptography] [Cryptography.Lawful] in
theorem create_made {limit : Nat} (hlimit : Stream.reserve < limit) :
    create (made limit).settings (.ofList [(defaultScheme, ⟨defaultScheme, limit⟩)])
      (made limit).router.identity {} (made limit).router.clock (made limit).entropy =
      .ok (made limit) := by
  have hchunk : Transports.chunkSize (.ofList [(defaultScheme, ⟨defaultScheme, limit⟩)]) =
      .ok (limit - Stream.reserve) := by
    show Stream.chunkSize [limit] = _
    unfold Stream.chunkSize
    simp only [List.min?_singleton]
    rw [if_neg (Nat.not_le.mpr hlimit)]
  rw [create, hchunk]
  rfl

omit [Cryptography] [Cryptography.Lawful] in
theorem carried_made {limit : Nat} (hlimit : Stream.reserve < limit) :
    (made limit).Carried limit := carried_create (create_made hlimit)

/-- **All that a node sends fits a bundle exactly up to 26 full messages beside the reserve.** With
frames of up to that length, and with no longer ones, whatever is sent to whomever in whichever
channel becomes entries that a pickup within the budget of the transport has room for. -/
theorem queues_fitting_iff {limit : Nat} (hlimit : Stream.reserve < limit) :
    (∀ n n' : Node, n.Carried limit → n.Sends n' →
      Queues (fun e => Varint.length e.data.length + e.data.length ≤
        Bundle.budget limit - batchOverhead) n n') ↔
      limit ≤ 26 * SealedBox.maxSegmentContent + Stream.reserve := by
  constructor
  · intro hall
    by_contra hover
    -- One full chunk from a new node is enough.
    have hthreshold : 26 * SealedBox.maxSegmentContent + Stream.reserve = 1704518 := rfl
    have hlt : 1704518 < limit := by omega
    have hcarried := carried_made hlimit
    have hfull : (List.replicate (limit - Stream.reserve) (7 : UInt8)).length =
        limit - Stream.reserve := List.length_replicate
    have hqueues := hall (made limit) _ hcarried
      (.privately ⟨.chacha, Key.zero⟩ (List.replicate (limit - Stream.reserve) 7))
    obtain ⟨e, hbackend, hlength⟩ := sendTo_of_length_le (n := made limit) List.not_mem_nil
      ⟨.chacha, Key.zero⟩ (by rw [hfull, hcarried.chunkSize_eq])
    rw [hfull] at hlength
    have hcost := lt_cost_of_lt hlt hlength
    have hfits := hqueues.all rfl e (by rw [hbackend]; exact List.mem_singleton_self e)
    exact absurd hfits (Nat.not_le.mpr hcost)
  · intro hle n n' hcarried hsends
    refine (queues_sends hsends).mono fun e he => cost_le_of_le hlimit hle ?_
    rwa [hcarried.chunkSize_eq] at he

omit [Cryptography] [Cryptography.Lawful] in
/-- With frames of the usual length everything fits. -/
theorem queues_fitting_iff_one_mebibyte :
    letI := Cryptography.transparent
    Stream.reserve < 1048576 ∧ (made 1048576).Carried 1048576 ∧
      Queues (fun e => Varint.length e.data.length + e.data.length ≤
        Bundle.budget 1048576 - batchOverhead) (made 1048576)
        ((made 1048576).sendTo ⟨.chacha, Key.zero⟩ (List.replicate 1048576 7)).2 :=
  letI := Cryptography.transparent
  haveI := Cryptography.lawful_transparent
  ⟨by decide, carried_made (by decide),
    (queues_fitting_iff (by decide)).mpr (by decide) _ _ (carried_made (by decide))
      (.privately _ _)⟩

omit [Cryptography] [Cryptography.Lawful] in
/-- With frames of two mebibytes, a content that just fits one envelope stays in the outbox. -/
theorem pickup_full_chunk_two_mebibytes :
    letI := Cryptography.transparent
    letI sent := ((made 2097152).sendTo ⟨.chacha, Key.zero⟩ (List.replicate 2096128 7)).2
    Stream.reserve < 2097152 ∧ (made 2097152).Carried 2097152 ∧ (made 2097152).Sends sent ∧
      (∃ e, sent.backend.store.outbox = [e] ∧
        Bundle.budget 2097152 - batchOverhead < Varint.length e.data.length + e.data.length) ∧
      sent.pickup ⟨.chacha, Key.zero⟩ 0 (Bundle.budget 2097152) [] = (.ok (Bundle.empty 0), sent) :=
  have hcarried : (made 2097152).Carried 2097152 := carried_made (by decide)
  have hfull : (List.replicate 2096128 (7 : UInt8)).length = 2097152 - Stream.reserve := by
    rw [List.length_replicate, Stream.reserve]
  have hstuck := @pickup_full_chunk Cryptography.transparent Cryptography.lawful_transparent
    _ _ hcarried (by decide) (by decide) rfl rfl ⟨.chacha, Key.zero⟩ _ hfull
  letI := Cryptography.transparent
  ⟨by decide, hcarried, .privately _ _, hstuck.1, hstuck.2 ⟨.chacha, Key.zero⟩ 0 []⟩

end Node

end Courier
