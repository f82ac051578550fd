import Mathlib
import Courier.Proofs.Router.Redirection

/-!
## The labels of what is delivered

A message that is delivered names a class and a channel. The class is that of the key that opened
it, and this is a channel's key exactly if the envelope was tagged with a channel. The channel of a
message that came in one envelope is that tag. That of a stream was fixed by its sender, in the
header inside the box: a relay that redirects the envelope changes the tag alone.

* `Intake`: a router in a run, with the envelope that announced each stream and all offers.
* `Intake.Traced`, `Intake.Traced.step`: what every event preserves.
* `labels_of_offers`: the labels of whatever is offered to the reader.
-/

namespace Courier.Router

/-- An envelope that was opened, the class of the key, and what was inside. -/
abbrev Opened := Envelope × MailClass × Bytes

/-- A router, all that it has opened, what announced each stream, and the offers made to its reader,
each with what it comes from. -/
structure Intake where
  router : Router
  opened : List Opened := []
  carriers : UInt32 → Option Opened := fun _ => none
  offered : List (Option Opened × Delivery) := []

namespace Intake

/-- What happens at a router. -/
inductive Event
  /-- Bytes come and are routed. -/
  | route (raw : Bytes)
  /-- What is complete is delivered. -/
  | deliver
  /-- Streams of some age are dropped, and finished ones forgotten. -/
  | evict (age : Nat)
  /-- The time becomes another. -/
  | wait (now : Nat)
  /-- Everything but the reader and the streams becomes that of another router. -/
  | change (other : Router)

/-- The offer that is made for what was opened, if it is no part of a stream. -/
def offerOf (o : Opened) : List (Option Opened × Delivery) :=
  if o.1.flags.isPart then [] else [(some o, ⟨o.2.1, o.1.channel, o.2.2⟩)]

/-- What announced each stream, after one more envelope was opened: this one, if the stream is
announced since. -/
def announce (before after : Stream.Reassembler) (o : Opened) (carriers : UInt32 → Option Opened)
    (id : UInt32) : Option Opened :=
  if (before.stream id).announcement = none ∧ (after.stream id).announcement ≠ none then some o
  else carriers id

/-- A router that holds no streams. -/
def start (r : Router) : Intake := { router := { r with streams := {} } }

/-! ### Where an offer comes from -/

/-- An announcement was made by the header in an opened envelope. -/
def Announces (o : Opened) (a : Stream.Announcement) : Prop :=
  o.1.flags.streamHeader = true ∧ ∃ h, StreamHeader.decode o.2.2 = .ok h ∧
    a = ⟨h.total, h.channel, o.2.1⟩

/-- An offer has the class of the key, and the channel of the envelope or, for a stream, that in its
header. -/
structure Labels (o : Opened) (d : Delivery) : Prop where
  mailClass : d.mailClass = o.2.1
  message : o.1.flags.isPart = false → d.channel = o.1.channel
  stream : o.1.flags.isPart = true → o.1.flags.streamHeader = true ∧
    ∃ h, StreamHeader.decode o.2.2 = .ok h ∧ d.channel = h.channel

/-- Streams were announced, and offers made, by what was opened. -/
structure Traced (s : Intake) : Prop where
  classes : ∀ o ∈ s.opened, o.2.1 = .channel ↔ o.1.channel.isSome = true
  announced : ∀ id a, (s.router.streams.stream id).announcement = some a →
    ∃ o, s.carriers id = some o ∧ o ∈ s.opened ∧ Announces o a
  labelled : ∀ x ∈ s.offered, ∃ o, x.1 = some o ∧ o ∈ s.opened ∧ Labels o x.2

variable {s : Intake}

theorem traced_start (r : Router) : (start r).Traced :=
  ⟨List.forall_mem_nil _, fun _ _ h => (by cases h), List.forall_mem_nil _⟩

/-- What holds of a run still holds when streams are let go of. -/
theorem Traced.release (hs : s.Traced) {router : Router}
    (hheld : ∀ id p, router.streams.pending.find? id = some p →
      s.router.streams.pending.find? id = some p) {offered : List (Option Opened × Delivery)}
    (hoffered : ∀ x ∈ offered, ∃ o, x.1 = some o ∧ o ∈ s.opened ∧ Labels o x.2) :
    Traced { s with router := router, offered := offered } := by
  refine ⟨hs.classes, fun id a ha => ?_, hoffered⟩
  exact hs.announced id a (Stream.Reassembler.announcement_of_held (hheld id) ha)

/-! ### Events -/

variable [Cryptography]

/-- What an event does. -/
def step (s : Intake) : Event → Intake
  | .route raw =>
    let router := (s.router.route raw).2
    match s.router.opens? raw with
    | none => { s with router := router }
    | some o =>
      { router := router
        opened := s.opened ++ [o]
        carriers := announce s.router.streams router.streams o s.carriers
        offered := s.offered ++ offerOf o }
  | .deliver =>
    let (_, streams, queue) := s.router.streams.deliver s.router.queue
    { s with
      router := { s.router with streams := streams, queue := queue }
      offered := s.offered ++ s.router.streams.offers.map fun o => (s.carriers o.1, o.2) }
  | .evict age => { s with router.streams := (s.router.streams.evict age).2 }
  | .wait now => { s with router.streams := s.router.streams.atTime now }
  | .change other =>
    { s with router := { other with streams := s.router.streams, queue := s.router.queue } }

/-- What some events do, one after the other. -/
def run (s : Intake) (events : List Event) : Intake := events.foldl step s

theorem run_append (s : Intake) (events : List Event) (e : Event) :
    s.run (events ++ [e]) = (s.run events).step e := by
  rw [run, List.foldl_append]
  rfl

omit [Cryptography] in
/-- What is offered for an envelope is labelled by it. -/
theorem labels_of_mem_offerOf {o : Opened} {x : Option Opened × Delivery} (hx : x ∈ offerOf o) :
    x.1 = some o ∧ Labels o x.2 := by
  unfold offerOf at hx
  split at hx
  · cases hx
  · rename_i hmessage
    rw [List.mem_singleton.mp hx]
    exact ⟨rfl, rfl, fun _ => rfl, fun hpart => absurd hpart hmessage⟩

omit [Cryptography] in
/-- A stream that is announced after one more envelope was opened was so before, or this envelope
announces it. -/
theorem Traced.announced_take (hs : s.Traced) (o : Opened) {id : UInt32} {a : Stream.Announcement}
    (ha : ((s.router.streams.take o.1.flags o.2.2 o.2.1).stream id).announcement = some a) :
    ∃ x, announce s.router.streams (s.router.streams.take o.1.flags o.2.2 o.2.1) o s.carriers id =
      some x ∧ x ∈ s.opened ++ [o] ∧ Announces x a := by
  rw [announce]
  rcases s.router.streams.announcement_take o.1.flags o.2.2 o.2.1 id with
    hsame | ⟨hbefore, h, hflag, hdecode, -, hafter⟩
  · rw [hsame] at ha ⊢
    obtain ⟨x, hcarrier, hx, hannounces⟩ := hs.announced id a ha
    rw [if_neg fun hchange => hchange.2 hchange.1]
    exact ⟨x, hcarrier, List.mem_append_left _ hx, hannounces⟩
  · rw [hafter] at ha
    rw [if_pos ⟨hbefore, by rw [hafter]; exact Option.some_ne_none _⟩]
    exact ⟨o, rfl, List.mem_concat_self, hflag, h, hdecode,
      (Option.some.inj ha).symm⟩

/-- An envelope that is opened is offered, or announces a stream, or adds to one. -/
theorem Traced.route (hs : s.Traced) (raw : Bytes) : (s.step (.route raw)).Traced := by
  unfold step
  dsimp only
  cases hopens : s.router.opens? raw with
  | none =>
    have hstreams := (route_of_not_opens hopens).2.1
    exact hs.release (fun id p hp => by rwa [hstreams] at hp) hs.labelled
  | some o =>
    have hlast : o ∈ s.opened ++ [o] := List.mem_concat_self
    refine ⟨?_, ?_, ?_⟩
    · intro x hx
      rcases List.mem_append.mp hx with hx | hx
      · exact hs.classes x hx
      · rw [List.mem_singleton.mp hx]
        exact class_open? (opens?_eq_some_iff.mp hopens).2
    · intro id a ha
      dsimp only at ha ⊢
      rw [(takes_route hopens).streams] at ha ⊢
      exact hs.announced_take o ha
    · intro x hx
      rcases List.mem_append.mp hx with hx | hx
      · obtain ⟨o', hsource, hopened, hlabels⟩ := hs.labelled x hx
        exact ⟨o', hsource, List.mem_append_left _ hopened, hlabels⟩
      · obtain ⟨hsource, hlabels⟩ := labels_of_mem_offerOf hx
        exact ⟨o, hsource, hlast, hlabels⟩

/-- A complete stream is offered under what its header announced. -/
theorem Traced.deliver (hs : s.Traced) : (s.step .deliver).Traced := by
  refine hs.release
    (fun id p hp => (Stream.Reassembler.find?_of_deliver (q := s.router.queue) hp).1) ?_
  intro x hx
  rcases List.mem_append.mp hx with hx | hx
  · exact hs.labelled x hx
  · obtain ⟨o, ho, rfl⟩ := List.mem_map.mp hx
    obtain ⟨p, hfind, -, hd⟩ := Stream.Reassembler.mem_offers.mp ho
    obtain ⟨a, ha, hdelivery⟩ := Option.map_eq_some_iff.mp hd
    have hstream : s.router.streams.stream o.1 = p := by
      rw [Stream.Reassembler.stream, hfind, Option.getD_some]
    obtain ⟨carrier, hcarrier, hmem, hflag, h, hdecode, rfl⟩ :=
      hs.announced o.1 a (by rw [hstream, ha])
    refine ⟨carrier, hcarrier, hmem, ?_⟩
    dsimp only
    rw [← hdelivery]
    refine ⟨rfl, fun hmessage => ?_, fun _ => ⟨hflag, h, hdecode, rfl⟩⟩
    rw [Flags.isPart, hflag, Bool.or_true] at hmessage
    cases hmessage

/-- What every event preserves. -/
theorem Traced.step (hs : s.Traced) (e : Event) : (s.step e).Traced := by
  cases e with
  | route raw => exact hs.route raw
  | deliver => exact hs.deliver
  | evict age => exact hs.release (fun id p hp => Stream.Reassembler.find?_of_evict hp) hs.labelled
  | wait now =>
    refine hs.release (fun id p hp => ?_) hs.labelled
    exact hp
  | change other => exact ⟨hs.classes, hs.announced, hs.labelled⟩

theorem traced_run (r : Router) (events : List Event) : ((start r).run events).Traced := by
  induction events using List.reverseRecOn with
  | nil => exact traced_start r
  | append_singleton events e ih =>
    rw [run_append]
    exact ih.step e

/-! ### What was opened and offered -/

/-- Whatever was opened came in some event. -/
theorem exists_route_of_opened (r : Router) (events : List Event) :
    ∀ o ∈ ((start r).run events).opened,
      ∃ raw, .route raw ∈ events ∧ Envelope.parse raw = .ok o.1 := by
  induction events using List.reverseRecOn with
  | nil => exact List.forall_mem_nil _
  | append_singleton events e ih =>
    have hbefore : ∀ o ∈ ((start r).run events).opened,
        ∃ raw, .route raw ∈ events ++ [e] ∧ Envelope.parse raw = .ok o.1 := by
      intro o ho
      obtain ⟨raw, hraw, hparse⟩ := ih o ho
      exact ⟨raw, List.mem_append_left _ hraw, hparse⟩
    rw [run_append]
    generalize (start r).run events = s at hbefore ⊢
    cases e with
    | route raw =>
      unfold step
      dsimp only
      cases hopens : s.router.opens? raw with
      | none => exact hbefore
      | some o =>
        refine List.forall_mem_append.mpr ⟨hbefore, List.forall_mem_singleton.mpr ⟨raw, ?_, ?_⟩⟩
        · exact List.mem_concat_self
        · obtain ⟨⟨fp, hread, -⟩, -⟩ := opens?_eq_some_iff.mp hopens
          exact (Envelope.read?_eq_some_iff.mp hread).1
    | deliver => exact hbefore
    | evict age => exact hbefore
    | wait now => exact hbefore
    | change other => exact hbefore

/-- The reader was made the offers of the run, and no others. -/
theorem queue_run (r : Router) (events : List Event) :
    ((start r).run events).router.queue =
      ((start r).run events).offered.foldl (fun q x => (q.offer x.2).2) r.queue := by
  induction events using List.reverseRecOn with
  | nil => rfl
  | append_singleton events e ih =>
    rw [run_append]
    generalize (start r).run events = s at ih ⊢
    cases e with
    | route raw =>
      unfold step
      dsimp only
      cases hopens : s.router.opens? raw with
      | none =>
        dsimp only
        rw [(route_of_not_opens hopens).1, ih]
      | some o =>
        dsimp only
        rw [(takes_route hopens).queue, List.foldl_append, ← ih, offerOf]
        split <;> rfl
    | deliver =>
      show (s.router.streams.deliver s.router.queue).2.2 = _
      unfold step
      dsimp only
      rw [Stream.Reassembler.queue_deliver, List.foldl_append, List.foldl_map, ← ih]
    | evict age => exact ih
    | wait now => exact ih
    | change other => exact ih

/-- **The labels of what is offered to the reader.** In every run of a router, whatever envelopes
come and whatever else changes, each offer comes from an envelope that was routed and opened: the
message's own, or the one whose header announced the stream. The class is a channel's exactly if that
envelope has a tag. A message has the tag as its channel, and a stream the channel that its header
names. -/
theorem labels_of_offers (r : Router) (events : List Event) :
    let s := (start r).run events
    s.router.queue = s.offered.foldl (fun q x => (q.offer x.2).2) r.queue ∧
      ∀ source d, (source, d) ∈ s.offered → ∃ e mailClass plaintext raw,
        source = some (e, mailClass, plaintext) ∧
        .route raw ∈ events ∧ Envelope.parse raw = .ok e ∧
        d.mailClass = mailClass ∧ (d.mailClass = .channel ↔ e.channel.isSome = true) ∧
        (e.flags.isPart = false → d.channel = e.channel) ∧
        (e.flags.isPart = true → e.flags.streamHeader = true ∧
          ∃ h, StreamHeader.decode plaintext = .ok h ∧ d.channel = h.channel) := by
  have hs := traced_run r events
  refine ⟨queue_run r events, fun source d hoffered => ?_⟩
  obtain ⟨⟨e, mailClass, plaintext⟩, hsource, hopened, hlabels⟩ := hs.labelled _ hoffered
  obtain ⟨raw, hraw, hparse⟩ := exists_route_of_opened r events _ hopened
  refine ⟨e, mailClass, plaintext, raw, hsource, hraw, hparse, hlabels.mailClass, ?_,
    hlabels.message, hlabels.stream⟩
  rw [hlabels.mailClass]
  exact hs.classes _ hopened

/-! ### A stream under another tag -/

theorem router_step_route (s : Intake) (raw : Bytes) :
    (s.step (.route raw)).router = (s.router.route raw).2 := by
  unfold step
  dsimp only
  split <;> rfl

omit [Cryptography]

/-- A node that has a channel by one name and passes nothing in it on. -/
def keeping (name : String) : Router :=
  { listening name with settings := { forwardConsumedChannels := false } }

/-- A part of a stream in an envelope with that name is taken. -/
theorem exists_part (name : String) (hname : Envelope.Bearable name) (piece : Stream.Piece)
    (hpart : piece.flags.isPart = true)
    (hflags : (piece.flags.chunked && piece.flags.streamHeader) = false) (once : Key) :
    letI := Cryptography.transparent
    ∃ raw box, Envelope.parse raw =
        .ok ⟨{ piece.flags with channel := true }, some name, box⟩ ∧
      ∀ recent before after, recent.contains (once.bytes.take fingerprintLength) = false →
        before.handle { piece.flags with channel := true } piece.plaintext .channel = .ok after →
        ({ keeping name with recent := recent, streams := before } : Router).route raw =
          (.ok (.routed (some .channel) 0),
            { keeping name with
              recent := recent.insert (once.bytes.take fingerprintLength)
              streams := after }) := by
  let _ := Cryptography.transparent
  have := Cryptography.lawful_transparent
  have hbears : ∀ x ∈ some name, Envelope.Bearable x :=
    fun x hx => Option.some.inj hx ▸ hname
  obtain ⟨raw, hclose⟩ :=
    Envelope.exists_close hflags hbears piece.plaintext sharedKey.publicKey once
  have hread := Envelope.read?_close hclose
  have hstart : (Cryptography.initiate sharedKey.publicKey once).1.take fingerprintLength =
      once.bytes.take fingerprintLength := by
    have hlength : (once.bytes.take 16).length = 16 := by
      rw [List.length_take, once.length_bytes]
      rfl
    exact List.take_left' hlength
  rw [hstart] at hread
  refine ⟨raw, _, (Envelope.read?_eq_some_iff.mp hread).1, ?_⟩
  intro recent before after hnew hhandle
  have hopen := SealedBox.open?_close sharedKey once piece.plaintext
  have hkey := hasKey_listening name _ _ hopen
  exact route_of_part (r := { keeping name with recent := recent, streams := before }) hread hnew
    (openChannel_eq_some_iff.mpr ⟨rfl, rfl, hkey⟩) hpart hhandle rfl

/-- A stream whose envelopes are tagged with one channel is delivered in the one that its header
names. -/
theorem stream_of_other_channel :
    letI := Cryptography.transparent
    ∃ raw₁ raw₂ e, Envelope.parse raw₁ = .ok e ∧ e.flags.streamHeader = true ∧
      e.channel = some "east" ∧
      ((start (keeping "east")).run
        [.route raw₁, .route raw₂, .deliver]).router.queue.waiting =
          [⟨.channel, some "ops", [7]⟩] := by
  let _ := Cryptography.transparent
  let h : StreamHeader := ⟨1, 1, "ops"⟩
  let c : Chunk := ⟨1, 0, [7]⟩
  have hname : Envelope.Bearable "east" := ⟨by decide, by decide⟩
  obtain ⟨raw₁, box₁, hparse, hfirst⟩ := exists_part "east" hname (.ofHeader h) rfl rfl Key.zero
  obtain ⟨raw₂, box₂, -, hsecond⟩ := exists_part "east" hname (.ofChunk c) rfl rfl (Key.ofPadded [1])
  have hheader := Stream.Reassembler.handle_ofHeader {} (h := h) (by decide) .channel
  have hchunk := Stream.Reassembler.handle_ofChunk (({} : Stream.Reassembler).takeHeader h .channel)
    c .channel
  have hroute₁ := hfirst {} {} _ rfl hheader
  have hroute₂ := hsecond (RecentCache.insert {} (Key.zero.bytes.take fingerprintLength)) _ _
    (by decide) hchunk
  refine ⟨raw₁, raw₂, _, hparse, rfl, rfl, ?_⟩
  have hrun : ((start (keeping "east")).run [.route raw₁, .route raw₂, .deliver]).router.queue =
      ((((start (keeping "east")).step (.route raw₁)).step (.route raw₂)).router.streams.deliver
        (((start (keeping "east")).step (.route raw₁)).step (.route raw₂)).router.queue).2.2 := rfl
  rw [hrun, router_step_route, router_step_route]
  have hstart : (start (keeping "east")).router =
      { keeping "east" with recent := {}, streams := {} } := rfl
  rw [hstart, hroute₁]
  dsimp only
  rw [hroute₂]
  rfl

end Intake

end Courier.Router
