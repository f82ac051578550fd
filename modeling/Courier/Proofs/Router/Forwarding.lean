import Mathlib
import Courier.Proofs.Router.Redirection

/-!
## What is put into the outbox when an envelope goes on

An envelope is put into the outbox under a label, which is the name of a channel or, for private mail,
empty. Whoever asks for the mail of some channels is given what has their labels, and does not look
into the envelopes. So the label has to be the tag that the envelope bears in the clear, also where the
envelope goes on under other labels than it came with.

* `OutboxEntry.Holds`: an entry holds an envelope, tagged as its label says.
* `RoutingSettings.labels`: the labels that an envelope goes on under. A name that is too long for an
  envelope is left out.
* `Router.Forwards`: a router puts an envelope into its outbox under some labels.
* `forwards_passOn`: which labels those are.
* `posts_route`: all that routing puts into the outbox is held under the right label.
-/

namespace Courier

/-! ### Labels and tags -/

namespace Envelope

/-- The tag that an envelope has under a label. -/
def tagOf (label : String) : Option String := if label.isEmpty then none else some label

theorem tagOf_getD {channel : Option String} (h : channel ≠ some "") :
    tagOf (channel.getD "") = channel := by
  cases channel with
  | none => rfl
  | some name =>
    have hname : name.isEmpty = false := by
      have hne : name ≠ "" := fun heq => h (by rw [heq])
      simpa using hne
    rw [Option.getD_some, tagOf, hname, if_neg Bool.false_ne_true]

theorem ne_of_parseName {bs rest : Bytes} {name : String} (h : parseName bs = .ok (name, rest)) :
    name ≠ "" := by
  unfold parseName at h
  split at h
  · cases h
  · split at h
    · cases h
    · split at h
      · cases h
      · split at h
        · cases h
        · rename_i hname
          cases h
          simpa using hname

/-- No envelope is tagged with a name that is empty. -/
theorem channel_ne_of_parse {raw : Bytes} {e : Envelope} (h : parse raw = .ok e) :
    e.channel ≠ some "" := by
  unfold parse at h
  split at h
  · cases h
  · split at h
    · cases h
    · split at h
      · rename_i rest _ _ _ _
        cases hname : parseName rest with
        | error error =>
          rw [hname] at h
          cases h
        | ok found =>
          obtain ⟨name, box⟩ := found
          rw [hname] at h
          obtain rfl := Except.ok.inj h
          exact fun heq => ne_of_parseName hname (Option.some.inj heq)
      · obtain rfl := Except.ok.inj h
        simp

/-- The labels that an envelope can go on under: an empty one always, and a name that is not too
long. -/
theorem exists_retag_tagOf_iff {raw : Bytes} {e : Envelope} (hparse : parse raw = .ok e)
    (label : String) :
    (∃ data, retag raw (tagOf label) = .ok data) ↔ label.utf8ByteSize ≤ maxChannelName := by
  constructor
  · rintro ⟨data, hretag⟩
    by_cases hlabel : label.isEmpty = true
    · have hempty : label = "" := by simpa using hlabel
      rw [hempty]
      exact Nat.zero_le _
    · rw [retag_of_parse hparse] at hretag
      have htag : tagOf label = some label := if_neg hlabel
      cases hheader : header e.flags (tagOf label) with
      | error error =>
        rw [hheader] at hretag
        cases hretag
      | ok front => exact (bearable_of_header hheader label htag).2
  · intro hlength
    refine exists_retag hparse fun name hname => ?_
    unfold tagOf at hname
    split at hname
    · cases hname
    · rename_i hlabel
      obtain rfl := Option.some.inj hname
      exact ⟨by simpa using hlabel, hlength⟩

end Envelope

/-- An entry holds an envelope, which is tagged as the label of the entry says. -/
def OutboxEntry.Holds (x : OutboxEntry) (e : Envelope) : Prop :=
  Envelope.parse x.data =
    .ok ⟨{ e.flags with channel := (Envelope.tagOf x.channel).isSome }, Envelope.tagOf x.channel,
      e.ciphertext⟩

/-- An envelope goes as it is under its own label. -/
theorem OutboxEntry.holds_of_parse {data : Bytes} {e : Envelope} (h : Envelope.parse data = .ok e)
    (time : Time) : Holds ⟨e.channel.getD "", data, time⟩ e := by
  have htag := Envelope.tagOf_getD (Envelope.channel_ne_of_parse h)
  have hflag := (Envelope.flags_of_parse h).1
  simp only [Holds, htag, ← hflag]
  exact h

/-- Whether an envelope can be tagged as a label says. -/
def RoutingSettings.fits (label : String) : Bool :=
  decide (label.utf8ByteSize ≤ maxChannelName)

/-- The labels that mail of a channel, or private mail, goes on under. -/
def RoutingSettings.labels (s : RoutingSettings) (channel : Option String) : List String :=
  match s.redirect (channel.getD "") with
  | some targets => targets.filter fits
  | none => [channel.getD ""]

namespace Router

/-- A router puts an envelope into its outbox under some labels. -/
structure Forwards (r r' : Router) (e : Envelope) (labels : List String) : Prop where
  keeps : r.Keeps r'
  adds : ∃ added, r.Posts r' added ∧ added.map OutboxEntry.channel = labels ∧
    ∀ x ∈ added, x.Holds e

variable {r r' r'' : Router} {e : Envelope} {raw : Bytes} {labels : List String}

theorem Forwards.refl (r : Router) (e : Envelope) : r.Forwards r e [] :=
  ⟨.refl r, [], .of_eq rfl rfl, rfl, List.forall_mem_nil _⟩

theorem Forwards.trans {more : List String} (h : r.Forwards r' e labels)
    (h' : r'.Forwards r'' e more) : r.Forwards r'' e (labels ++ more) := by
  obtain ⟨added, hposts, hlabels, hholds⟩ := h.adds
  obtain ⟨added', hposts', hlabels', hholds'⟩ := h'.adds
  refine ⟨h.keeps.trans h'.keeps, added ++ added', hposts.trans hposts', ?_,
    List.forall_mem_append.mpr ⟨hholds, hholds'⟩⟩
  rw [List.map_append, hlabels, hlabels']

theorem forwards_post {label : String} {data : Bytes}
    (hholds : ∀ time, OutboxEntry.Holds ⟨label, data, time⟩ e) (h : r.post label data = .ok r') :
    r.Forwards r' e [label] :=
  ⟨keeps_post h, _, posts_post h, rfl, List.forall_mem_singleton.mpr (hholds _)⟩

/-- Redirecting puts the envelope under every label that it can be tagged with. -/
theorem forwards_redirectTo (hparse : Envelope.parse raw = .ok e) (r : Router) (count : Nat)
    (targets : List String) :
    ∃ labels, r.Forwards (r.redirectTo raw count targets).2 e labels ∧
      ∀ total, (r.redirectTo raw count targets).1 = .ok total →
        total = count + labels.length ∧ labels = targets.filter RoutingSettings.fits := by
  induction targets generalizing r count with
  | nil =>
    refine ⟨[], .refl r e, fun total h => ?_⟩
    obtain rfl := Except.ok.inj h
    exact ⟨rfl, rfl⟩
  | cons target rest ih =>
    unfold redirectTo
    split
    · -- The name is too long, which is all that can be wrong with a label: it is passed over.
      rename_i error hretag
      have hfits : RoutingSettings.fits target = false := by
        refine decide_eq_false fun hlength => ?_
        obtain ⟨data, hdata⟩ := (Envelope.exists_retag_tagOf_iff hparse target).mpr hlength
        rw [show Envelope.retag raw (Envelope.tagOf target) = _ from hretag] at hdata
        cases hdata
      obtain ⟨labels, hforwards, htotal⟩ := ih r count
      refine ⟨labels, hforwards, fun total h => ?_⟩
      rw [List.filter_cons_of_neg (by simp [hfits])]
      exact htotal total h
    · rename_i data hretag
      have hholds : ∀ time, OutboxEntry.Holds ⟨target, data, time⟩ e :=
        fun _ => Envelope.parse_of_retag hparse hretag
      have hfits : RoutingSettings.fits target = true :=
        decide_eq_true ((Envelope.exists_retag_tagOf_iff hparse target).mp ⟨data, hretag⟩)
      split
      · -- The store failed, so no total is given.
        rename_i error _
        refine ⟨[], .refl r e, fun total h => ?_⟩
        cases h
      · rename_i m hpost
        obtain ⟨labels, hforwards, htotal⟩ := ih m (count + 1)
        refine ⟨target :: labels, (forwards_post hholds hpost).trans hforwards,
          fun total h => ?_⟩
        obtain ⟨hcount, hlabels⟩ := htotal total h
        rw [List.filter_cons_of_pos hfits, List.length_cons, ← hlabels]
        exact ⟨by omega, rfl⟩

theorem forwards_forward (hparse : Envelope.parse raw = .ok e) (r : Router) :
    ∃ labels, r.Forwards (r.forward e raw).2 e labels ∧
      ∀ total, (r.forward e raw).1 = .ok total →
        total = labels.length ∧ labels = r.settings.labels e.channel := by
  unfold forward RoutingSettings.labels
  dsimp only
  cases hpatch : r.settings.redirect (e.channel.getD "") with
  | some targets =>
    obtain ⟨labels, hforwards, htotal⟩ := forwards_redirectTo hparse r 0 targets
    refine ⟨labels, hforwards, fun total h => ?_⟩
    obtain ⟨hcount, hlabels⟩ := htotal total h
    exact ⟨by omega, hlabels⟩
  | none =>
    dsimp only
    cases hpost : r.post (e.channel.getD "") raw with
    | error error => exact ⟨[], .refl r e, fun total h => by cases h⟩
    | ok m =>
      refine ⟨_, forwards_post (OutboxEntry.holds_of_parse hparse) hpost, fun total h => ?_⟩
      exact ⟨(Except.ok.inj h).symm, rfl⟩

/-- **Under which labels an envelope goes on**: those of the settings if they let it go on at all. -/
theorem forwards_passOn (hparse : Envelope.parse raw = .ok e) (r : Router)
    (consumed : Option MailClass) :
    ∃ labels, r.Forwards (r.passOn e raw consumed).2 e labels ∧
      ∀ outcome, (r.passOn e raw consumed).1 = .ok outcome →
        outcome = .routed consumed labels.length ∧
          labels = if r.settings.forwards e.channel.isSome consumed then
            r.settings.labels e.channel else [] := by
  unfold passOn
  cases hgoes : r.settings.forwards e.channel.isSome consumed with
  | false =>
    refine ⟨[], .refl r e, fun outcome h => ?_⟩
    exact ⟨(Except.ok.inj h).symm, rfl⟩
  | true =>
    obtain ⟨labels, hforwards, htotal⟩ := forwards_forward hparse r
    rw [if_pos rfl]
    dsimp only
    cases hresult : (r.forward e raw).1 with
    | error error => exact ⟨labels, hforwards, fun outcome h => by cases h⟩
    | ok total =>
      obtain ⟨rfl, hlabels⟩ := htotal total hresult
      refine ⟨labels, hforwards, fun outcome h => ⟨(Except.ok.inj h).symm, ?_⟩⟩
      rw [if_pos rfl, hlabels]

variable [Cryptography]

/-! ### Routing -/

/-- All that can become of an envelope that was not seen lately. -/
theorem routeNew_cases (r : Router) (e : Envelope) (raw : Bytes) :
    (∃ error, r.routeNew e raw = (.error error, r) ∧
      (r.open? e = .error error ∨ ∃ mailClass plaintext,
        r.open? e = .ok (some (mailClass, plaintext)) ∧
          r.consume e mailClass plaintext = .error error)) ∨
    (r.open? e = .ok none ∧ r.routeNew e raw = r.passOn e raw none) ∨
    ∃ mailClass plaintext m, r.open? e = .ok (some (mailClass, plaintext)) ∧
      r.consume e mailClass plaintext = .ok m ∧
        r.routeNew e raw = m.passOn e raw (some mailClass) := by
  unfold routeNew
  cases hopen : r.open? e with
  | error error => exact .inl ⟨error, rfl, .inl rfl⟩
  | ok found =>
    cases found with
    | none => exact .inr (.inl ⟨rfl, rfl⟩)
    | some found =>
      obtain ⟨mailClass, plaintext⟩ := found
      dsimp only
      cases hconsume : r.consume e mailClass plaintext with
      | error error => exact .inl ⟨error, rfl, .inr ⟨_, _, rfl, hconsume⟩⟩
      | ok m => exact .inr (.inr ⟨_, _, m, rfl, hconsume, rfl⟩)

theorem posts_routeNew (hparse : Envelope.parse raw = .ok e) (r : Router) :
    ∃ added, r.Posts (r.routeNew e raw).2 added ∧ ∀ x ∈ added, x.Holds e := by
  have hpass : ∀ (m : Router) (consumed : Option MailClass),
      ∃ added, m.Posts (m.passOn e raw consumed).2 added ∧ ∀ x ∈ added, x.Holds e := by
    intro m consumed
    obtain ⟨labels, ⟨-, added, hposts, -, hholds⟩, -⟩ := forwards_passOn hparse m consumed
    exact ⟨added, hposts, hholds⟩
  rcases r.routeNew_cases e raw with
    ⟨error, hroute, -⟩ | ⟨-, hroute⟩ | ⟨mailClass, plaintext, m, -, hconsume, hroute⟩
  · rw [hroute]
    exact ⟨[], .of_eq rfl rfl, List.forall_mem_nil _⟩
  · rw [hroute]
    exact hpass r none
  · -- Taking the message in leaves the outbox and the clock.
    obtain ⟨queue, streams, rfl⟩ := consume_eq_ok hconsume
    obtain ⟨added, hposts, hholds⟩ := hpass { r with queue := queue, streams := streams } _
    have hsame : r.Posts { r with queue := queue, streams := streams } [] := .of_eq rfl rfl
    rw [hroute]
    exact ⟨added, hsame.trans hposts, hholds⟩

/-- **All that routing puts into the outbox is the envelope, under labels that say how it is
tagged.** -/
theorem posts_route (r : Router) (raw : Bytes) :
    ∃ added, r.Posts (r.route raw).2 added ∧
      ∀ x ∈ added, ∃ e fp, Envelope.read? raw = some (e, fp) ∧ x.Holds e := by
  cases hread : Envelope.read? raw with
  | none =>
    obtain ⟨error, hroute⟩ := route_of_unreadable hread r
    rw [hroute]
    exact ⟨[], .of_eq rfl rfl, List.forall_mem_nil _⟩
  | some found =>
    obtain ⟨e, fp⟩ := found
    have hparse := (Envelope.read?_eq_some_iff.mp hread).1
    cases hknown : r.recent.contains fp with
    | true =>
      rw [route_of_known hread hknown]
      exact ⟨[], .of_eq rfl rfl, List.forall_mem_nil _⟩
    | false =>
      obtain ⟨added, hposts, hholds⟩ :=
        posts_routeNew hparse { r with recent := r.recent.insert fp }
      have hnoted : r.Posts { r with recent := r.recent.insert fp } [] := .of_eq rfl rfl
      rw [route_of_read hread, hknown, if_neg Bool.false_ne_true]
      exact ⟨added, hnoted.trans hposts, fun x hx => ⟨e, fp, rfl, hholds x hx⟩⟩

end Router

end Courier
