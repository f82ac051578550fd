import Mathlib
import Courier.Proofs.Router.Opening
import Courier.Proofs.Router.Posting
import Courier.Proofs.SealedBox.Transparent

/-!
## Redirected mail at the next node

A relay that redirects a channel puts one copy of an envelope into its outbox for each target. The
copies hold the same box, and with it they have the same fingerprint: whoever gets all of them looks
into the first, and passes over the others as repeats. So what the next node makes of the message is
decided by the first target alone.

* `Copies`: the copies of an envelope in the outbox of a relay.
* `copies_redirectTo`, `exists_copies`: what a relay that passes an envelope on puts there.
* `routeEach_of_same`: of envelopes with one fingerprint all but the first are duplicates.
* `redirect_reaches_first_target`: what a node makes of the copies.
-/

namespace Courier.Router

/-! ### Copies -/

/-- A router puts copies of an envelope into its outbox, one for each target: each holds the same
box under the same fingerprint, and differs from the envelope by its name alone. -/
structure Copies (r r' : Router) (e : Envelope) (fp : Fingerprint) (targets : List String)
    (copies : List OutboxEntry) : Prop where
  posts : r.Posts r' copies
  labels : copies.map OutboxEntry.channel = targets
  reads : ∀ c ∈ copies, Envelope.read? c.data = some ({ e with channel := some c.channel }, fp)

variable {r r' d : Router} {raw : Bytes} {e : Envelope} {fp : Fingerprint}

/-- Redirecting to names that an envelope can bear makes a copy for each. -/
theorem copies_redirectTo (hread : Envelope.read? raw = some (e, fp)) {name : String}
    (hchannel : e.channel = some name) {targets : List String}
    (htargets : ∀ t ∈ targets, Envelope.Bearable t) {count total : Nat}
    (h : r.redirectTo raw count targets = (.ok total, r')) :
    total = count + targets.length ∧ ∃ copies, r.Copies r' e fp targets copies := by
  have hparse := (Envelope.read?_eq_some_iff.mp hread).1
  have hflag : e.flags.channel = true := by
    rw [(Envelope.flags_of_parse hparse).1, hchannel]
    rfl
  induction targets generalizing r count with
  | nil =>
    cases h
    exact ⟨rfl, [], .of_eq rfl rfl, rfl, List.forall_mem_nil _⟩
  | cons target rest ih =>
    have htarget := htargets target List.mem_cons_self
    have hname : target.isEmpty = false := by simpa using htarget.1
    have hbears : ∀ name ∈ some target, Envelope.Bearable name :=
      fun name hname => Option.some.inj hname ▸ htarget
    obtain ⟨data, hretag⟩ := Envelope.exists_retag hparse hbears
    unfold redirectTo at h
    rw [hname, if_neg Bool.false_ne_true, hretag] at h
    dsimp only at h
    split at h
    · cases h
    · rename_i m hpost
      obtain ⟨htotal, copies, hcopies⟩ := ih (fun t ht => htargets t (List.mem_cons_of_mem _ ht)) h
      refine ⟨by rw [List.length_cons]; omega, ⟨target, data, r.clock.stamp.1⟩ :: copies,
        (posts_post hpost).trans hcopies.posts, by rw [List.map_cons, hcopies.labels], ?_⟩
      intro c hc
      rcases List.mem_cons.mp hc with rfl | hc
      · have hcopy := Envelope.read?_of_retag hread hretag
        rw [Option.isSome_some, ← hflag] at hcopy
        exact hcopy
      · exact hcopies.reads c hc

/-- A router before and after it took an envelope in is the same for passing it on. -/
theorem consume_eq_ok {mailClass : MailClass} {plaintext : Bytes}
    (h : r.consume e mailClass plaintext = .ok r') :
    ∃ queue streams, r' = { r with queue := queue, streams := streams } := by
  unfold consume at h
  split at h
  · split at h
    · cases h
    · exact ⟨r.queue, _, (Except.ok.inj h).symm⟩
  · exact ⟨_, r.streams, (Except.ok.inj h).symm⟩

variable [Cryptography]

/-- An envelope that is routed has a fingerprint. -/
theorem exists_fingerprint_of_routed {outcome : RouteOutcome} (hparse : Envelope.parse raw = .ok e)
    (h : r.route raw = (.ok outcome, r')) : ∃ fp, Envelope.read? raw = some (e, fp) := by
  cases hread : Envelope.read? raw with
  | none =>
    obtain ⟨error, herror⟩ := route_of_unreadable hread r
    rw [herror] at h
    cases h
  | some found =>
    obtain ⟨e', fp⟩ := found
    have hparse' := (Envelope.read?_eq_some_iff.mp hread).1
    obtain rfl := Except.ok.inj (hparse.symm.trans hparse')
    exact ⟨fp, rfl⟩

/-- What is routed is passed on in the end. -/
theorem exists_passOn {consumed : Option MailClass} {total : Nat}
    (hread : Envelope.read? raw = some (e, fp))
    (h : r.route raw = (.ok (.routed consumed total), r')) :
    ∃ m : Router, m.passOn e raw consumed = (.ok (.routed consumed total), r') ∧
      m.settings = r.settings ∧ m.backend = r.backend ∧ m.clock = r.clock := by
  rw [route_of_read hread] at h
  split at h
  · cases h
  · unfold routeNew at h
    split at h
    · cases h
    · have hconsumed := congrArg Prod.fst h
      by_cases hnone : consumed = none
      · subst hnone
        exact ⟨_, h, rfl, rfl, rfl⟩
      · exact absurd hconsumed ((passOn_ne _ _ _ _).2 _ _ hnone)
    · rename_i mailClass plaintext _
      split at h
      · cases h
      · rename_i m hconsume
        obtain ⟨queue, streams, rfl⟩ := consume_eq_ok hconsume
        have hconsumed := congrArg Prod.fst h
        by_cases hsome : consumed = some mailClass
        · subst hsome
          exact ⟨_, h, rfl, rfl, rfl⟩
        · exact absurd hconsumed ((passOn_ne _ _ _ _).2 _ _ hsome)

/-- **What a relay puts into its outbox** for an envelope in a channel that it redirects, if it
passes it on. -/
theorem exists_copies {consumed : Option MailClass} {total : Nat} {name : String}
    {targets : List String} (hread : Envelope.read? raw = some (e, fp))
    (hchannel : e.channel = some name) (hpatch : r.settings.redirect name = some targets)
    (htargets : ∀ t ∈ targets, Envelope.Bearable t)
    (h : r.route raw = (.ok (.routed consumed total), r')) (hpassed : 0 < total) :
    total = targets.length ∧ ∃ copies, r.Copies r' e fp targets copies := by
  obtain ⟨m, hpass, hsettings, hbackend, hclock⟩ := exists_passOn hread h
  unfold passOn at hpass
  split at hpass
  · unfold forward at hpass
    dsimp only at hpass
    rw [hchannel, Option.getD_some, hsettings, hpatch] at hpass
    dsimp only at hpass
    generalize hredirect : m.redirectTo raw 0 targets = redirected at hpass
    obtain ⟨result, m'⟩ := redirected
    cases result with
    | error error => cases hpass
    | ok count =>
      cases hpass
      obtain ⟨hcount, copies, hcopies⟩ := copies_redirectTo hread hchannel htargets hredirect
      have hsame : r.Posts m [] := .of_eq (by rw [hbackend]) hclock
      exact ⟨by omega, copies, hsame.trans hcopies.posts, hcopies.labels, hcopies.reads⟩
  · cases hpass
    omega

/-- A relay that opens nothing in an envelope redirects it as its settings say. -/
theorem exists_route_redirected {name : String} {targets : List String}
    (hread : Envelope.read? raw = some (e, fp)) (hnew : r.recent.contains fp = false)
    (hopen : r.open? e = .ok none) (hforwards : r.settings.forwards true none = true)
    (hchannel : e.channel = some name) (hpatch : r.settings.redirect name = some targets)
    (htargets : ∀ t ∈ targets, Envelope.Bearable t)
    (hup : StoreCall.appendOutbox.name ∉ r.backend.down) :
    ∃ r', r.route raw = (.ok (.routed none targets.length), r') := by
  let m : Router := { r with recent := r.recent.insert fp }
  have hopened : m.open? e = .ok none := hopen
  obtain ⟨count, hcount⟩ := redirectTo_of_up (r := m) hup raw 0 targets
  have hredirect : m.redirectTo raw 0 targets = (.ok count, (m.redirectTo raw 0 targets).2) := by
    rw [← hcount]
  have htotal := (copies_redirectTo hread hchannel htargets hredirect).1
  rw [Nat.zero_add] at htotal
  refine ⟨(m.redirectTo raw 0 targets).2, ?_⟩
  have hpass : m.passOn e raw none =
      (.ok (.routed none count), (m.redirectTo raw 0 targets).2) := by
    have hsettings : m.settings = r.settings := rfl
    unfold passOn forward
    rw [hchannel, Option.isSome_some, hsettings, hforwards, if_pos rfl]
    dsimp only [Option.getD_some]
    rw [hsettings, hpatch]
    dsimp only
    rw [hredirect]
  rw [route_of_read hread, hnew, if_neg Bool.false_ne_true, routeNew, hopened, ← htotal]
  exact hpass

/-! ### Repeats -/

/-- Routes envelopes one after the other, and says what became of each. -/
def routeEach (r : Router) : List Bytes → List (Except RouteError RouteOutcome) × Router
  | [] => ([], r)
  | raw :: rest =>
    let (outcome, r) := r.route raw
    let (outcomes, r) := routeEach r rest
    (outcome :: outcomes, r)

theorem recent_routeNew (r : Router) (e : Envelope) (raw : Bytes) :
    (r.routeNew e raw).2.recent = r.recent := by
  unfold routeNew
  split
  · rfl
  · exact (keeps_passOn r e raw none).recent
  · split
    · rfl
    · rename_i m hconsume
      obtain ⟨queue, streams, rfl⟩ := consume_eq_ok hconsume
      exact (keeps_passOn _ e raw _).recent

/-- An envelope is known after it was routed. -/
theorem contains_route (hread : Envelope.read? raw = some (e, fp)) :
    (r.route raw).2.recent.contains fp = true := by
  cases hknown : r.recent.contains fp with
  | true =>
    rw [route_of_known hread hknown]
    exact hknown
  | false =>
    rw [route_of_read hread, hknown, if_neg Bool.false_ne_true, recent_routeNew]
    exact RecentCache.contains_insert_self _ _

theorem routeEach_of_known {raws : List Bytes}
    (hsame : ∀ raw ∈ raws, ∃ e, Envelope.read? raw = some (e, fp))
    (hknown : r.recent.contains fp = true) :
    r.routeEach raws = (List.replicate raws.length (.ok .duplicate), r) := by
  induction raws with
  | nil => rfl
  | cons raw rest ih =>
    obtain ⟨e, hread⟩ := hsame raw List.mem_cons_self
    have hrest := ih fun x hx => hsame x (List.mem_cons_of_mem _ hx)
    simp only [routeEach, route_of_known hread hknown, hrest, List.length_cons,
      List.replicate_succ]

/-- **Of envelopes with one fingerprint all but the first are duplicates.** -/
theorem routeEach_of_same {raws : List Bytes} (hread : Envelope.read? raw = some (e, fp))
    (hsame : ∀ raw ∈ raws, ∃ e, Envelope.read? raw = some (e, fp)) (r : Router) :
    r.routeEach (raw :: raws) =
      ((r.route raw).1 :: List.replicate raws.length (.ok .duplicate), (r.route raw).2) := by
  simp only [routeEach, routeEach_of_known hsame (contains_route hread)]

/-! ### At the next node -/

/-- Of byte strings that reach a node one after the other only the first counts, and it counts as
the envelope `e` with the name `first`. -/
structure FirstCounts (d : Router) (raws : List Bytes) (e : Envelope) (first : String) : Prop where
  repeats : (d.routeEach raws).1.tail = List.replicate (raws.length - 1) (.ok .duplicate)
  /-- With the key for the first name the message is taken in, once. -/
  takes : ∀ plaintext, d.HasKey first e.ciphertext plaintext →
    d.Takes (d.routeEach raws).2 { e with channel := some first } .channel plaintext
  consumes : ∀ plaintext, d.HasKey first e.ciphertext plaintext →
    StoreCall.appendOutbox.name ∉ d.backend.down →
    (e.flags.isPart = true → ∃ streams, d.streams.handle e.flags plaintext .channel = .ok streams) →
    ∃ total, (d.routeEach raws).1.head? = some (.ok (.routed (some .channel) total))
  /-- Without it, nothing is taken in. -/
  ignores : (¬∃ plaintext, d.HasKey first e.ciphertext plaintext) →
    (d.routeEach raws).2.queue = d.queue ∧ (d.routeEach raws).2.streams = d.streams ∧
      ∀ mailClass total, .ok (.routed (some mailClass) total) ∉ (d.routeEach raws).1

/-- What a node that looks for channels opens in new mail for one: a box that its key for the
channel opens. -/
theorem opens?_tagged_iff {name : String} {ciphertext : Bytes} {flags : Flags}
    (hread : Envelope.read? raw = some (⟨flags, some name, ciphertext⟩, fp))
    (hnew : d.recent.contains fp = false) (hcheck : d.settings.checkChannels = true)
    {e' : Envelope} {mailClass : MailClass} {plaintext : Bytes} :
    d.opens? raw = some (e', mailClass, plaintext) ↔
      e' = ⟨flags, some name, ciphertext⟩ ∧ mailClass = .channel ∧
        d.HasKey name ciphertext plaintext := by
  rw [opens?_eq_some_iff]
  constructor
  · rintro ⟨⟨fp', hread', -⟩, hopen⟩
    obtain ⟨rfl, -⟩ := Prod.mk.inj (Option.some.inj (hread.symm.trans hread'))
    exact ⟨rfl, (openChannel_eq_some_iff.mp hopen).2⟩
  · rintro ⟨rfl, hclass, hkey⟩
    exact ⟨⟨fp, hread, hnew⟩, openChannel_eq_some_iff.mpr ⟨hcheck, hclass, hkey⟩⟩

/-- A node that has not seen a message looks into the first of its copies. -/
theorem Copies.firstCounts {first : String} {rest : List String} {copies : List OutboxEntry}
    (h : r.Copies r' e fp (first :: rest) copies) (hrecent : d.recent = {})
    (hcheck : d.settings.checkChannels = true) :
    d.FirstCounts (copies.map OutboxEntry.data) e first := by
  obtain ⟨-, hlabels, hreads⟩ := h
  cases copies with
  | nil => cases hlabels
  | cons copy others =>
    obtain ⟨rfl, -⟩ := List.cons.inj hlabels
    have hsame : ∀ raw ∈ others.map OutboxEntry.data, ∃ e, Envelope.read? raw = some (e, fp) := by
      intro raw hraw
      obtain ⟨c, hc, rfl⟩ := List.mem_map.mp hraw
      exact ⟨_, hreads c (List.mem_cons_of_mem _ hc)⟩
    have hnew : d.recent.contains fp = false := by
      rw [hrecent]
      rfl
    have hfirst := hreads copy List.mem_cons_self
    have hopens : ∀ plaintext, d.HasKey copy.channel e.ciphertext plaintext →
        d.opens? copy.data =
          some ({ e with channel := some copy.channel }, .channel, plaintext) :=
      fun plaintext hkey => (opens?_tagged_iff hfirst hnew hcheck).mpr ⟨rfl, rfl, hkey⟩
    -- All that the node does to the copies, it does to the first.
    have hroute := routeEach_of_same hfirst hsame d
    rw [List.map_cons]
    refine ⟨?_, ?_, ?_, ?_⟩
    · rw [hroute]
      rfl
    · intro plaintext hkey
      rw [hroute]
      exact takes_route (hopens plaintext hkey)
    · intro plaintext hkey hup hpart
      obtain ⟨total, htotal⟩ := outcome_of_opens (hopens plaintext hkey) hup hpart
      exact ⟨total, by rw [hroute, htotal]; rfl⟩
    · intro hclosed
      have hnone : d.opens? copy.data = none := by
        rw [Option.eq_none_iff_forall_ne_some]
        rintro ⟨e', mailClass, plaintext⟩ hfound
        exact hclosed ⟨plaintext, ((opens?_tagged_iff hfirst hnew hcheck).mp hfound).2.2⟩
      obtain ⟨hqueue, hstreams, hne⟩ := route_of_not_opens hnone
      rw [hroute]
      refine ⟨hqueue, hstreams, fun mailClass total hmem => ?_⟩
      rcases List.mem_cons.mp hmem with heq | hmem
      · exact hne mailClass total heq.symm
      · cases List.eq_of_mem_replicate hmem

/-! ### A relay with two targets -/

section

omit [Cryptography]

/-- The key of a channel that is known by different names at different nodes. -/
def sharedKey : Keypair := ⟨.chacha, Key.ofPadded [1]⟩

/-- A relay without the key, which redirects one name to two others. -/
def redirecting : Router where
  settings := { patches := [⟨"ops", ["east", "west"]⟩] }
  identity := default
  backend := {}
  clock := { wall := fun _ => 1 }
  queue := .ofDepth 1

/-- A node that has the channel by some name. -/
def listening (name : String) : Router where
  settings := {}
  identity := default
  backend := { store := Store.put {} (⟨name, sharedKey⟩ : Channel) }
  clock := { wall := fun _ => 1 }
  queue := .ofDepth 1

/-- A message in the channel is passed on, once for each target. -/
theorem exists_route_redirecting :
    letI := Cryptography.transparent
    ∃ raw e fp r', Envelope.read? raw = some (e, fp) ∧ e.channel = some "ops" ∧
      e.flags.isPart = false ∧ redirecting.route raw = (.ok (.routed none 2), r') ∧
      SealedBox.open? sharedKey e.ciphertext = .ok (some [7]) := by
  let _ := Cryptography.transparent
  have := Cryptography.lawful_transparent
  have hbears : ∀ name ∈ some "ops", Envelope.Bearable name := by
    intro name hname
    obtain rfl := Option.some.inj hname
    exact ⟨by decide, by decide⟩
  have hflags : (Flags.none.chunked && Flags.none.streamHeader) = false := rfl
  obtain ⟨raw, hclose⟩ := Envelope.exists_close hflags hbears [7] sharedKey.publicKey Key.zero
  have hread := Envelope.read?_close hclose
  obtain ⟨r', hroute⟩ := exists_route_redirected (r := redirecting) hread rfl rfl rfl rfl rfl
    (by simp [Envelope.Bearable]; decide) List.not_mem_nil
  exact ⟨raw, _, _, r', hread, rfl, rfl, hroute, SealedBox.open?_close sharedKey Key.zero [7]⟩

theorem hasKey_listening (name : String) :
    letI := Cryptography.transparent
    ∀ sealed plaintext, SealedBox.open? sharedKey sealed = .ok (some plaintext) →
      (listening name).HasKey name sealed plaintext := by
  intro sealed plaintext hopen
  refine ⟨⟨name, sharedKey⟩, ?_, hopen⟩
  show Except.ok ((Table.insert .empty name (⟨name, sharedKey⟩ : Channel)).find? name) = _
  rw [Table.find?_insert, if_pos rfl]

end

/-! ### Which target is reached -/

/-- **Redirected mail reaches the first target.** A relay that redirects a channel and passes an
envelope in it on puts a copy for each target into its outbox, in their order, and each copy reads
as that envelope with the name of its target: with the same box, and so with the same fingerprint. A
node that has not seen any of them and looks for channels takes the message in from the first copy,
once, if it has the channel by that name and its key opens the box; otherwise it takes nothing in,
whichever of the other channels it has. -/
theorem redirect_reaches_first_target {consumed : Option MailClass} {total : Nat}
    {name first : String} {rest : List String} (hparse : Envelope.parse raw = .ok e)
    (hchannel : e.channel = some name)
    (hpatch : r.settings.redirect name = some (first :: rest))
    (htargets : ∀ t ∈ first :: rest, Envelope.Bearable t)
    (hroute : r.route raw = (.ok (.routed consumed total), r')) (hpassed : 0 < total) :
    total = rest.length + 1 ∧ ∃ copies, r.Posts r' copies ∧
      (r.backend.store.outbox.Pairwise (fun a b => a.time ≤ b.time) →
        copies.Sublist r'.backend.store.outbox) ∧
      copies.map OutboxEntry.channel = first :: rest ∧
      (∃ fp, Envelope.read? raw = some (e, fp) ∧ ∀ c ∈ copies,
        Envelope.read? c.data = some ({ e with channel := some c.channel }, fp)) ∧
      ∀ d : Router, d.recent = {} → d.settings.checkChannels = true →
        d.FirstCounts (copies.map OutboxEntry.data) e first := by
  obtain ⟨fp, hread⟩ := exists_fingerprint_of_routed hparse hroute
  obtain ⟨htotal, copies, hcopies⟩ :=
    exists_copies hread hchannel hpatch htargets hroute hpassed
  exact ⟨htotal, copies, hcopies.posts, hcopies.posts.sublist, hcopies.labels,
    ⟨fp, hread, hcopies.reads⟩, fun d hrecent hcheck => hcopies.firstCounts hrecent hcheck⟩

omit [Cryptography] in
/-- A node that has the channel by the first name gets the message. -/
theorem redirect_reaches_east :
    letI := Cryptography.transparent
    ∃ raw e fp r', redirecting.route raw = (.ok (.routed none 2), r') ∧
      r'.backend.store.outbox.map OutboxEntry.channel = ["east", "west"] ∧
      Envelope.read? raw = some (e, fp) ∧
      (∀ c ∈ r'.backend.store.outbox,
        Envelope.read? c.data = some ({ e with channel := some c.channel }, fp)) ∧
      ((listening "east").routeEach
        (r'.backend.store.outbox.map OutboxEntry.data)).2.queue.waiting =
          [⟨.channel, some "east", [7]⟩] := by
  let _ := Cryptography.transparent
  obtain ⟨raw, e, _, r', hread, hchannel, hmessage, hroute, hopen⟩ := exists_route_redirecting
  obtain ⟨-, copies, hposts, -, hlabels, ⟨fp, hsame, hreads⟩, hcounts⟩ :=
    redirect_reaches_first_target (Envelope.read?_eq_some_iff.mp hread).1 hchannel rfl
      (by simp [Envelope.Bearable]; decide) hroute (by decide)
  obtain rfl := hposts.eq_of_nil rfl
  have hcount := hcounts (listening "east") rfl rfl
  have htakes := hcount.takes [7] (hasKey_listening "east" _ _ hopen)
  refine ⟨raw, e, fp, r', hroute, hlabels, hsame, hreads, ?_⟩
  rw [htakes.queue, if_neg (by simp [hmessage])]
  rfl

omit [Cryptography] in
/-- A node that has it by the second name alone passes the message over, though its key opens it. -/
theorem redirect_misses_west :
    letI := Cryptography.transparent
    ∃ raw r' copy₁ copy₂, redirecting.route raw = (.ok (.routed none 2), r') ∧
      r'.backend.store.outbox = [copy₁, copy₂] ∧ copy₂.channel = "west" ∧
      (∃ e, Envelope.parse copy₂.data = .ok e ∧
        (listening "west").HasKey "west" e.ciphertext [7]) ∧
      ((listening "west").routeEach [copy₁.data, copy₂.data]).2.queue.waiting = [] := by
  let _ := Cryptography.transparent
  obtain ⟨raw, e, fp, r', hread, hchannel, -, hroute, hopen⟩ := exists_route_redirecting
  obtain ⟨-, copies, hcopies⟩ := exists_copies hread hchannel rfl
    (by simp [Envelope.Bearable]; decide) hroute (by decide)
  obtain rfl := hcopies.posts.eq_of_nil rfl
  have hcount := hcopies.firstCounts (d := listening "west") rfl rfl
  obtain ⟨copy₁, copy₂, houtbox⟩ : ∃ copy₁ copy₂, r'.backend.store.outbox = [copy₁, copy₂] := by
    have hlength := congrArg List.length hcopies.labels
    rw [List.length_map] at hlength
    exact List.length_eq_two.mp hlength
  have hwest : copy₂.channel = "west" := by
    have hlabels := hcopies.labels
    rw [houtbox] at hlabels
    exact (List.cons.inj (List.cons.inj hlabels).2).1
  have hsecond := hcopies.reads copy₂ (by rw [houtbox]; simp)
  obtain ⟨hqueue, -, -⟩ := hcount.ignores (by
    rintro ⟨plaintext, c, hget, -⟩
    cases hget)
  refine ⟨raw, r', copy₁, copy₂, hroute, houtbox, hwest,
    ⟨_, (Envelope.read?_eq_some_iff.mp hsecond).1, hasKey_listening "west" _ _ hopen⟩, ?_⟩
  rw [houtbox] at hqueue
  rw [List.map_cons, List.map_cons, List.map_nil] at hqueue
  rw [hqueue]
  rfl

end Courier.Router
