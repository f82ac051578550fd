import Mathlib
import Courier.Proofs.Node.Echo
import Courier.Proofs.Router.Arriving

/-!
## From the sender to the reader

What one node sends to another reaches its reader once, as it was sent. It does not show there
whether the content went out in one envelope or in many, nor how often each of them came.

* `Router.Unlocks`: a router opens every box for some key.
* `Node.Emits.finds`, `Node.Emits.conveys`: a receiver finds in each envelope of a send its piece.
* `Node.Reaches`: a send to the content key of another node, or in a channel that both have.
* `delivery_of_send`: the one delivery of a send.
-/

namespace Courier

/-! ### What comes with repeats -/

theorem head?_of_eraseDups {raws rest : List Bytes} {raw : Bytes}
    (h : raws.eraseDups = raw :: rest) : raws.head? = some raw := by
  cases raws with
  | nil => cases h
  | cons first later =>
    rw [List.eraseDups_cons] at h
    rw [List.head?_cons, (List.cons.inj h).1]

theorem eraseDups_of_nodup {raws : List Bytes} (h : raws.Nodup) : raws.eraseDups = raws := by
  induction raws with
  | nil => rfl
  | cons raw rest ih =>
    obtain ⟨hraw, hrest⟩ := List.nodup_cons.mp h
    have hothers : rest.filter (fun x => !x == raw) = rest := by
      rw [List.filter_eq_self]
      intro x hx
      simpa using fun heq : x = raw => hraw (heq ▸ hx)
    rw [List.eraseDups_cons, hothers, ih hrest]

theorem eraseDups_append_self {raws : List Bytes} (h : raws.Nodup) :
    (raws ++ raws).eraseDups = raws := by
  have hnone : raws.removeAll raws = [] := by
    rw [List.removeAll, List.filter_eq_nil_iff]
    intro x hx
    simpa using hx
  rw [List.eraseDups_append, hnone, eraseDups_of_nodup h, List.eraseDups_nil, List.append_nil]

variable [Cryptography]

/-! ### Keys of the receiver -/

/-- A router opens whatever is sealed for some key, under some tag, and takes it for mail of some
class. -/
def Router.Unlocks (r : Router) (recipient : PublicKey) (channel : Option String)
    (mailClass : MailClass) : Prop :=
  ∀ flags once plaintext, r.open? ⟨flags, channel, SealedBox.close recipient once plaintext⟩ =
    .ok (some (mailClass, plaintext))

section Keys

variable [Cryptography.Lawful] {r : Router}

theorem Router.unlocks_content (hcheck : r.settings.checkContent = true) :
    r.Unlocks r.identity.content.publicKey none .content := by
  intro flags once plaintext
  show r.openPrivate _ = _
  rw [openPrivate, hcheck, SealedBox.open?_close]
  rfl

theorem Router.unlocks_channel {name : String} {k : Keypair}
    (hcheck : r.settings.checkChannels = true)
    (hget : r.backend.get? Channel name = .ok (some ⟨name, k⟩)) :
    r.Unlocks k.publicKey (some name) .channel := by
  intro flags once plaintext
  exact openChannel_eq_some_iff.mpr
    ⟨hcheck, rfl, ⟨name, k⟩, hget, SealedBox.open?_close k once plaintext⟩

end Keys

namespace Node

variable {a a' b : Node} {recipient : PublicKey} {channel : Option String}
  {mailClass : MailClass} {content : Bytes} {pieces : List Stream.Piece} {s : Stream.Sending}
  {sent : List OutboxEntry} {raws : List Bytes} {r : Router} {count : Nat}

/-! ### The envelopes of a send -/

theorem Emits.length_pos (h : a.Emits recipient channel s.pieces a' sent) : 0 < sent.length := by
  rw [h.length, s.pieces_eq, List.length_cons]
  exact Nat.succ_pos _

/-- The tag of a send is a name, so the header of a stream names it too. -/
theorem Emits.header_channel (h : a.Emits recipient s.channel s.pieces a' sent) :
    s.header.channel = s.channel := by
  obtain ⟨piece, -, hclose⟩ := h.closes 0 _ (List.getElem?_eq_getElem h.length_pos)
  have hbearable := Envelope.bearable_of_close hclose
  cases hchannel : s.channel with
  | none =>
    unfold Stream.Sending.header
    rw [hchannel]
    rfl
  | some name =>
    have hname := (hbearable name hchannel).1
    unfold Stream.Sending.header StreamHeader.channel
    rw [hchannel]
    simpa using hname

section Lawful

variable [Cryptography.Lawful]

/-- A receiver finds the pieces of a send in its envelopes, in their order. -/
theorem Emits.finds (h : a.Emits recipient channel pieces a' sent)
    (hunlocks : r.Unlocks recipient channel mailClass) {i : Nat} {e : OutboxEntry}
    (he : sent[i]? = some e) :
    ∃ piece, pieces[i]? = some piece ∧ r.Finds mailClass channel piece e.data := by
  obtain ⟨piece, hpiece, hclose⟩ := h.closes i e he
  exact ⟨piece, hpiece, _, _, Envelope.read?_close hclose, rfl, rfl, hunlocks _ _ _⟩

theorem Emits.finds_of_mem (h : a.Emits recipient channel pieces a' sent)
    (hunlocks : r.Unlocks recipient channel mailClass) {e : OutboxEntry} (he : e ∈ sent) :
    ∃ piece ∈ pieces, r.Finds mailClass channel piece e.data := by
  obtain ⟨i, hi⟩ := List.mem_iff_getElem?.mp he
  obtain ⟨piece, hpiece, hfinds⟩ := h.finds hunlocks hi
  exact ⟨piece, List.mem_of_getElem? hpiece, hfinds⟩

/-- Every piece of a send is in some envelope. -/
theorem Emits.exists_finds (h : a.Emits recipient channel pieces a' sent)
    (hunlocks : r.Unlocks recipient channel mailClass) {piece : Stream.Piece}
    (hpiece : piece ∈ pieces) : ∃ e ∈ sent, r.Finds mailClass channel piece e.data := by
  obtain ⟨i, hi⟩ := List.mem_iff_getElem?.mp hpiece
  have hlt : i < sent.length := h.length ▸ (List.getElem?_eq_some_iff.mp hi).1
  obtain ⟨piece', hpiece', hfinds⟩ := h.finds hunlocks (List.getElem?_eq_getElem hlt)
  obtain rfl := Option.some.inj (hi.symm.trans hpiece')
  exact ⟨_, List.getElem_mem hlt, hfinds⟩

/-- The envelopes of a stream, in the order of the outbox but for repeats, bring its pieces to whoever
has the key and has seen none of them. -/
theorem Emits.conveys (h : a.Emits recipient channel s.pieces a' sent)
    (hunlocks : r.Unlocks recipient channel mailClass)
    (hdistinct : (sent.map OutboxEntry.fingerprint?).Nodup)
    (hnew : ∀ e ∈ sent, ∀ fp ∈ e.fingerprint?, r.recent.contains fp = false)
    (hraws : raws.eraseDups = sent.map OutboxEntry.data) :
    r.Conveys mailClass channel s raws := by
  have hmem : ∀ raw ∈ raws, ∃ e ∈ sent, e.data = raw := by
    intro raw hraw
    rw [← List.mem_eraseDups, hraws] at hraw
    exact List.mem_map.mp hraw
  refine ⟨?_, ?_, ?_, ?_⟩
  · intro raw hraw
    obtain ⟨e, he, rfl⟩ := hmem raw hraw
    exact h.finds_of_mem hunlocks he
  · intro raw hhead
    obtain ⟨first, rest, rfl⟩ := List.exists_cons_of_length_pos h.length_pos
    obtain ⟨piece, hpiece, hfinds⟩ := h.finds (i := 0) hunlocks rfl
    rw [s.pieces_eq] at hpiece
    obtain rfl := Option.some.inj hpiece
    obtain rfl := Option.some.inj ((head?_of_eraseDups hraws).symm.trans hhead)
    exact hfinds
  · intro raw hraw d fp hread
    obtain ⟨e, he, rfl⟩ := hmem raw hraw
    exact hnew e he fp (OutboxEntry.fingerprint?_of_read hread)
  · intro raw hraw raw' hraw' d d' fp hread hread'
    obtain ⟨e, he, rfl⟩ := hmem raw hraw
    obtain ⟨e', he', rfl⟩ := hmem raw' hraw'
    have hsame := (OutboxEntry.fingerprint?_of_read hread).trans
      (OutboxEntry.fingerprint?_of_read hread').symm
    rw [List.inj_on_of_nodup_map hdistinct he he' hsame]

/-! ### One delivery -/

/-- Of a send in one envelope, the reader is offered the content when it comes. -/
theorem Emits.queue_of_message (h : a.Emits recipient channel [⟨Flags.none, content⟩] a' sent)
    (hunlocks : r.Unlocks recipient channel mailClass)
    (hnew : ∀ e ∈ sent, ∀ fp ∈ e.fingerprint?, r.recent.contains fp = false)
    (hraws : raws.eraseDups = sent.map OutboxEntry.data) :
    (r.routeEach raws).2.queue = (r.queue.offer ⟨mailClass, channel, content⟩).2 ∧
      (r.routeEach raws).2.streams = r.streams := by
  obtain ⟨e, rfl⟩ := List.length_eq_one_iff.mp h.length
  obtain ⟨piece, hpiece, hfinds⟩ := h.finds_of_mem hunlocks (List.mem_singleton_self e)
  obtain rfl := List.mem_singleton.mp hpiece
  have hall : ∀ raw ∈ raws, raw = e.data := by
    intro raw hraw
    rw [← List.mem_eraseDups, hraws] at hraw
    exact List.mem_singleton.mp hraw
  obtain ⟨rest, rfl⟩ := List.head?_eq_some_iff.mp (head?_of_eraseDups hraws)
  refine Router.routeEach_of_message hfinds (fun d fp hread => ?_) fun raw hraw =>
    hall raw (List.mem_cons_of_mem _ hraw)
  exact hnew e (List.mem_singleton_self e) fp (OutboxEntry.fingerprint?_of_read hread)

/-- **Once all envelopes of a send have come, one delivery more is offered**, in whatever number of
pieces it went out. -/
theorem offers_of_emit (h : a.emit recipient channel content = (.ok count, a'))
    (hunlocks : r.Unlocks recipient channel mailClass)
    (hawaits : r.streams.Awaits a.entropy.draw32.1) :
    ∃ sent, a.router.Posts a'.router sent ∧ sent.length = count ∧
      ((sent.map OutboxEntry.fingerprint?).Nodup →
        (∀ e ∈ sent, ∀ fp ∈ e.fingerprint?, r.recent.contains fp = false) →
        ∀ raws : List Bytes, raws.eraseDups = sent.map OutboxEntry.data →
          ∃ offers : List Delivery,
            ((r.routeEach raws).2.streams.deliver (r.routeEach raws).2.queue).2.2 =
              offers.foldl (fun q d => (q.offer d).2) r.queue ∧
            offers.Perm (⟨mailClass, channel, content⟩ :: r.streams.offers.map Prod.snd)) := by
  obtain ⟨room, ps, sent, -, hpieces, rfl, hemits⟩ := emits_pieces h
  refine ⟨sent, hemits.posts, hemits.length, fun hdistinct hnew raws hraws => ?_⟩
  rcases pieces_cases hpieces with ⟨-, rfl⟩ | ⟨s, rfl, -, rfl, hstream, rfl⟩
  · obtain ⟨hqueue, hstreams⟩ := hemits.queue_of_message hunlocks hnew hraws
    refine ⟨_, ?_, .refl _⟩
    rw [Stream.Reassembler.queue_deliver, hqueue, hstreams, List.foldl_cons, List.foldl_map]
  · have hconveys := hemits.conveys hunlocks hdistinct hnew hraws
    have hall : ∀ piece ∈ s.pieces, ∃ raw ∈ raws, r.Finds mailClass s.channel piece raw := by
      intro piece hpiece
      obtain ⟨e, he, hfinds⟩ := hemits.exists_finds hunlocks hpiece
      have hmem : e.data ∈ raws := by
        rw [← List.mem_eraseDups, hraws]
        exact List.mem_map_of_mem he
      exact ⟨e.data, hmem, hfinds⟩
    obtain ⟨hqueue, hperm⟩ := Router.offers_routeEach hconveys hall (hstream ▸ hawaits)
    have hdelivery : s.delivery mailClass = ⟨mailClass, s.channel, s.content⟩ := by
      rw [Stream.Sending.delivery, hemits.header_channel]
    rw [hdelivery] at hperm
    refine ⟨_, ?_, hperm.map Prod.snd⟩
    rw [Stream.Reassembler.queue_deliver, hqueue, List.foldl_map]

end Lawful

/-! ### From node to node -/

/-- A content is sent to the content key of another node that tries this key, or posted in a channel
that both have and the other node looks into: what is queued for it, and the delivery that the other
reader is to get. -/
inductive Reaches (a b : Node) (content : Bytes) (count : Nat) (a' : Node) : Delivery → Prop
  | privately (hcheck : b.router.settings.checkContent = true)
    (h : a.sendTo b.router.identity.content.publicKey content = (.ok count, a')) :
    Reaches a b content count a' ⟨.content, none, content⟩
  | inChannel (name : String) (k : Keypair) (hcheck : b.router.settings.checkChannels = true)
    (hsender : a.backend.get? Channel name = .ok (some ⟨name, k⟩))
    (hreceiver : b.backend.get? Channel name = .ok (some ⟨name, k⟩))
    (h : a.sendChannel name content = (.ok count, a')) :
    Reaches a b content count a' ⟨.channel, some name, content⟩

/-- Every way to reach a node is a send to a key that its router has. -/
theorem Reaches.exists_emit [Cryptography.Lawful] {d : Delivery}
    (h : a.Reaches b content count a' d) :
    ∃ recipient, a.emit recipient d.channel content = (.ok count, a') ∧
      b.router.Unlocks recipient d.channel d.mailClass ∧ d.content = content := by
  cases h with
  | privately hcheck h => exact ⟨_, h, Router.unlocks_content hcheck, rfl⟩
  | inChannel name k hcheck hsender hreceiver h =>
    unfold sendChannel at h
    rw [hsender] at h
    exact ⟨_, h, Router.unlocks_channel hcheck hreceiver, rfl⟩

/-- **From the sender to the reader.** Whatever is sent to a node, as one envelope or as a stream: if
the envelopes are new and distinct, and the node routes them in the order of the outbox and any of
them again at any later time, then the next delivery has offered its reader the content once, and
besides it only what is complete already. -/
theorem delivery_of_send [Cryptography.Lawful] {d : Delivery} (h : a.Reaches b content count a' d)
    (hawaits : b.router.streams.Awaits a.entropy.draw32.1) :
    ∃ sent, a.router.Posts a'.router sent ∧ sent.length = count ∧
      ((a.backend.store.outbox.Pairwise fun x y => x.time ≤ y.time) →
        sent.Sublist a'.backend.store.outbox) ∧
      ((sent.map OutboxEntry.fingerprint?).Nodup →
        (∀ e ∈ sent, ∀ fp ∈ e.fingerprint?, b.router.recent.contains fp = false) →
        ∀ raws : List Bytes, raws.eraseDups = sent.map OutboxEntry.data →
          let r := (b.router.routeEach raws).2
          ∃ offers : List Delivery,
            (r.streams.deliver r.queue).2.2 =
              offers.foldl (fun q x => (q.offer x).2) b.router.queue ∧
            offers.Perm (d :: b.router.streams.offers.map Prod.snd) ∧
            (b.router.streams.offers = [] → offers = [d])) := by
  obtain ⟨recipient, hemit, hunlocks, hcontent⟩ := h.exists_emit
  obtain ⟨sent, hposts, hlength, hdeliver⟩ := offers_of_emit hemit hunlocks hawaits
  refine ⟨sent, hposts, hlength, hposts.sublist, fun hdistinct hnew raws hraws => ?_⟩
  obtain ⟨offers, hqueue, hperm⟩ := hdeliver hdistinct hnew raws hraws
  rw [← hcontent] at hperm
  refine ⟨offers, hqueue, hperm, fun hnone => ?_⟩
  rw [hnone] at hperm
  exact List.perm_singleton.mp hperm

/-- A node just made that has the key which `numbered` sends to. -/
def receiving : Node := { made 1034 with router.identity.content := ⟨.chacha, Key.ofPadded [1]⟩ }

omit [Cryptography] in
/-- A stream of 101 envelopes that comes twice is offered once, though the receiver has forgotten half
of the envelopes when they come again. -/
theorem delivery_of_send_twice :
    letI := Cryptography.transparent
    ∃ n', numbered.Reaches receiving (List.replicate 200 7) 101 n'
        ⟨.content, none, List.replicate 200 7⟩ ∧
      receiving.router.streams.Awaits numbered.entropy.draw32.1 ∧
      let raws := n'.backend.store.outbox.map OutboxEntry.data
      let r := (receiving.router.routeEach (raws ++ raws)).2
      (r.streams.deliver r.queue).2.2.waiting = [⟨.content, none, List.replicate 200 7⟩] := by
  let _ := Cryptography.transparent
  have := Cryptography.lawful_transparent
  obtain ⟨n', hsent⟩ := exists_sendTo_numbered
  have hreaches : numbered.Reaches receiving (List.replicate 200 7) 101 n'
      ⟨.content, none, List.replicate 200 7⟩ := .privately rfl hsent
  have hawaits : receiving.router.streams.Awaits numbered.entropy.draw32.1 :=
    ⟨rfl, rfl, by decide⟩
  obtain ⟨sent, hposts, -, -, hdeliver⟩ := delivery_of_send hreaches hawaits
  obtain rfl : sent = n'.backend.store.outbox := hposts.eq_of_nil rfl
  have hdistinct := nodup_numbered hsent
  have hnodup : (n'.backend.store.outbox.map OutboxEntry.data).Nodup := by
    have hmap : n'.backend.store.outbox.map OutboxEntry.fingerprint? =
        (n'.backend.store.outbox.map OutboxEntry.data).map
          fun data => (Envelope.read? data).map Prod.snd := by
      rw [List.map_map]
      rfl
    rw [hmap] at hdistinct
    exact hdistinct.of_map _
  obtain ⟨offers, hqueue, -, hone⟩ := hdeliver hdistinct (fun _ _ _ _ => rfl) _
    (eraseDups_append_self hnodup)
  rw [hone rfl] at hqueue
  refine ⟨n', hreaches, hawaits, ?_⟩
  dsimp only
  rw [hqueue]
  rfl

end Node

end Courier
