import Mathlib
import Courier.Proofs.Node.Growth
import Courier.Proofs.Stream.Parts

/-!
## What routing an envelope comes down to

Routing passes an envelope on and puts it into the outbox; what it hands to the reader and to the
streams depends on nothing but what it opens. One that was seen lately, or cannot be read, or that no
key opens, changes neither.

* `route_of_known`: an envelope that was seen lately changes nothing at all.
* `opens?`: what routing an envelope opens.
* `takes_route`, `route_of_not_opens`: what becomes of the reader and of the streams.
* `outcome_of_opens`: what is said of the envelope.
-/

namespace Courier

namespace Router

/-! ### Passing on -/

/-- A router passes on, and takes nothing in. -/
structure Keeps (r r' : Router) : Prop where
  queue : r'.queue = r.queue
  streams : r'.streams = r.streams
  recent : r'.recent = r.recent
  down : r'.backend.down = r.backend.down

variable {r r' r'' : Router}

theorem Keeps.refl (r : Router) : Keeps r r := ⟨rfl, rfl, rfl, rfl⟩

theorem Keeps.trans (h : Keeps r r') (h' : Keeps r' r'') : Keeps r r'' :=
  ⟨h'.queue.trans h.queue, h'.streams.trans h.streams, h'.recent.trans h.recent,
    h'.down.trans h.down⟩

theorem keeps_post {label : String} {data : Bytes} (h : r.post label data = .ok r') :
    Keeps r r' := by
  obtain rfl := post_eq_ok h
  exact ⟨rfl, rfl, rfl, rfl⟩

theorem keeps_redirectTo (r : Router) (raw : Bytes) (count : Nat) (targets : List String) :
    Keeps r (r.redirectTo raw count targets).2 := by
  induction targets generalizing r count with
  | nil => exact .refl r
  | cons target rest ih =>
    unfold redirectTo
    split
    · exact ih r count
    · split
      · exact .refl r
      · rename_i hpost
        exact (keeps_post hpost).trans (ih _ _)

theorem keeps_forward (r : Router) (e : Envelope) (raw : Bytes) :
    Keeps r (r.forward e raw).2 := by
  unfold forward
  dsimp only
  split
  · exact keeps_redirectTo _ _ _ _
  · split
    · exact .refl r
    · rename_i hpost
      exact keeps_post hpost

theorem keeps_passOn (r : Router) (e : Envelope) (raw : Bytes) (consumed : Option MailClass) :
    Keeps r (r.passOn e raw consumed).2 := by
  unfold passOn
  split
  · have h := r.keeps_forward e raw
    dsimp only
    split <;> exact h
  · exact .refl r

theorem redirectTo_of_up (hup : StoreCall.appendOutbox.name ∉ r.backend.down) (raw : Bytes)
    (count : Nat) (targets : List String) : ∃ total, (r.redirectTo raw count targets).1 = .ok total := by
  induction targets generalizing r count with
  | nil => exact ⟨count, rfl⟩
  | cons target rest ih =>
    unfold redirectTo
    split
    · exact ih hup count
    · rename_i data _
      rw [r.post_of_up hup]
      exact ih (r := { r with
        backend.store.outbox := r.backend.store.outbox.append ⟨target, data, r.clock.stamp.1⟩
        clock := r.clock.stamp.2 }) hup (count + 1)

theorem forward_of_up (hup : StoreCall.appendOutbox.name ∉ r.backend.down) (e : Envelope)
    (raw : Bytes) : ∃ total, (r.forward e raw).1 = .ok total := by
  unfold forward
  dsimp only
  split
  · exact redirectTo_of_up hup raw 0 _
  · rw [r.post_of_up hup]
    exact ⟨1, rfl⟩

/-- What is said of an envelope that is passed on: what it was opened with before. -/
theorem passOn_of_up (hup : StoreCall.appendOutbox.name ∉ r.backend.down) (e : Envelope)
    (raw : Bytes) (consumed : Option MailClass) :
    ∃ total, (r.passOn e raw consumed).1 = .ok (.routed consumed total) := by
  unfold passOn
  split
  · obtain ⟨total, htotal⟩ := forward_of_up hup e raw
    dsimp only
    rw [htotal]
    exact ⟨total, rfl⟩
  · exact ⟨0, rfl⟩

theorem passOn_ne (r : Router) (e : Envelope) (raw : Bytes) (consumed : Option MailClass) :
    (r.passOn e raw consumed).1 ≠ .ok .duplicate ∧
      ∀ other total, other ≠ consumed →
        (r.passOn e raw consumed).1 ≠ .ok (.routed other total) := by
  unfold passOn
  split
  · dsimp only
    split
    · simp
    · simp only [ne_eq, Except.ok.injEq, reduceCtorEq, not_false_eq_true, RouteOutcome.routed.injEq,
        not_and, true_and]
      intro other total hne heq
      exact absurd heq.symm hne
  · simp only [ne_eq, Except.ok.injEq, reduceCtorEq, not_false_eq_true, RouteOutcome.routed.injEq,
      not_and, true_and]
    intro other total hne heq
    exact absurd heq.symm hne

/-- Only a part of a stream can be refused after it was opened, if it cannot be read. -/
theorem exists_consume {e : Envelope} (mailClass : MailClass) {plaintext : Bytes}
    (hreads : e.flags.isPart = true →
      ∃ streams, r.streams.handle e.flags plaintext mailClass = .ok streams) :
    ∃ r', r.consume e mailClass plaintext = .ok r' ∧ r'.backend = r.backend := by
  unfold consume
  cases hpart : e.flags.isPart with
  | true =>
    obtain ⟨streams, hhandle⟩ := hreads hpart
    rw [if_pos rfl, hhandle]
    exact ⟨_, rfl, rfl⟩
  | false =>
    rw [if_neg Bool.false_ne_true]
    exact ⟨_, rfl, rfl⟩

variable [Cryptography]

/-! ### Keys -/

/-- A node has stored a channel whose key opens a box. -/
def HasKey (r : Router) (name : String) (sealed plaintext : Bytes) : Prop :=
  ∃ c, r.backend.get? Channel name = .ok (some c) ∧
    SealedBox.open? c.keypair sealed = .ok (some plaintext)

/-- A channel is looked into if that is enabled and its key is there. -/
theorem openChannel_eq_some_iff {name : String} {sealed plaintext : Bytes}
    {mailClass : MailClass} :
    r.openChannel name sealed = .ok (some (mailClass, plaintext)) ↔
      r.settings.checkChannels = true ∧ mailClass = .channel ∧ r.HasKey name sealed plaintext := by
  unfold openChannel
  constructor
  · intro h
    split at h
    · cases h
    · rename_i hcheck
      split at h
      · cases h
      · cases h
      · rename_i c hget
        split at h
        · cases h
        · rename_i found hopen
          obtain ⟨x, rfl, hx⟩ := Option.map_eq_some_iff.mp (Except.ok.inj h)
          cases hx
          exact ⟨by simpa using hcheck, rfl, c, hget, hopen⟩
  · rintro ⟨hcheck, rfl, c, hget, hopen⟩
    rw [hcheck, hget]
    dsimp only
    rw [hopen]
    rfl

theorem class_openPrivate {sealed plaintext : Bytes} {mailClass : MailClass}
    (h : r.openPrivate sealed = .ok (some (mailClass, plaintext))) :
    mailClass = .content ∨ mailClass = .profile := by
  have hprofiles : r.openProfiles sealed = .ok (some (mailClass, plaintext)) →
      mailClass = .profile := by
    intro h
    unfold openProfiles at h
    split at h
    · cases h
    · split at h
      · cases h
      · split at h
        · cases h
        · obtain ⟨x, -, hx⟩ := Option.map_eq_some_iff.mp (Except.ok.inj h)
          cases hx
          rfl
  unfold openPrivate at h
  split at h
  · exact .inr (hprofiles h)
  · split at h
    · cases h
    · cases h
      exact .inl rfl
    · exact .inr (hprofiles h)

/-- A channel's key opens what is tagged with a channel, and other keys the rest. -/
theorem class_open? {e : Envelope} {mailClass : MailClass} {plaintext : Bytes}
    (h : r.open? e = .ok (some (mailClass, plaintext))) :
    mailClass = .channel ↔ e.channel.isSome = true := by
  unfold open? at h
  cases hchannel : e.channel with
  | some name =>
    rw [hchannel] at h
    have hclass := (openChannel_eq_some_iff.mp h).2.1
    simp [hclass]
  | none =>
    rw [hchannel] at h
    rcases class_openPrivate h with hclass | hclass <;> simp [hclass]

/-! ### Routing -/

/-- What cannot be read is refused, and changes nothing. -/
theorem route_of_unreadable {raw : Bytes} (h : Envelope.read? raw = none) (r : Router) :
    ∃ error, r.route raw = (.error (.wire error), r) := by
  unfold Envelope.read? at h
  unfold route
  cases hparse : Envelope.parse raw with
  | error error => exact ⟨error, rfl⟩
  | ok e =>
    rw [hparse] at h
    dsimp only at h ⊢
    cases hfp : e.fingerprint with
    | error error => exact ⟨error, rfl⟩
    | ok fp =>
      rw [hfp] at h
      cases h

theorem route_of_read {raw : Bytes} {e : Envelope} {fp : Fingerprint}
    (h : Envelope.read? raw = some (e, fp)) (r : Router) :
    r.route raw =
      if r.recent.contains fp then (.ok .duplicate, r)
      else routeNew { r with recent := r.recent.insert fp } e raw := by
  obtain ⟨hparse, hfp⟩ := Envelope.read?_eq_some_iff.mp h
  unfold route RecentCache.check
  rw [hparse]
  dsimp only
  rw [hfp]
  dsimp only
  cases hknown : r.recent.contains fp <;> rfl

/-- **An envelope that was seen lately changes nothing.** -/
theorem route_of_known {raw : Bytes} {e : Envelope} {fp : Fingerprint}
    (h : Envelope.read? raw = some (e, fp)) (hknown : r.recent.contains fp = true) :
    r.route raw = (.ok .duplicate, r) := by
  rw [route_of_read h, if_pos hknown]

theorem routeNew_ne (r : Router) (e : Envelope) (raw : Bytes) :
    (r.routeNew e raw).1 ≠ .ok .duplicate := by
  unfold routeNew
  split
  · simp
  · exact (passOn_ne _ _ _ _).1
  · split
    · simp
    · exact (passOn_ne _ _ _ _).1

/-- What is called a duplicate has changed nothing. -/
theorem route_of_duplicate {raw : Bytes} (h : (r.route raw).1 = .ok .duplicate) :
    r.route raw = (.ok .duplicate, r) := by
  cases hread : Envelope.read? raw with
  | none =>
    obtain ⟨error, hroute⟩ := route_of_unreadable hread r
    rw [hroute] at h
    cases h
  | some found =>
    cases hknown : r.recent.contains found.2 with
    | true => exact route_of_known hread hknown
    | false =>
      rw [route_of_read hread, hknown, if_neg Bool.false_ne_true] at h
      exact absurd h (routeNew_ne _ _ _)

/-- An envelope is a duplicate exactly if its fingerprint is known. -/
theorem route_eq_duplicate_iff {raw : Bytes} {e : Envelope} {fp : Fingerprint}
    (h : Envelope.read? raw = some (e, fp)) :
    r.route raw = (.ok .duplicate, r) ↔ r.recent.contains fp = true := by
  refine ⟨fun hroute => ?_, route_of_known h⟩
  rw [route_of_read h] at hroute
  by_contra hnew
  rw [if_neg hnew] at hroute
  exact routeNew_ne _ e raw (congrArg Prod.fst hroute)

/-- What routing an envelope opens: the envelope, the class of the key, and what is inside. -/
def opens? (r : Router) (raw : Bytes) : Option (Envelope × MailClass × Bytes) :=
  match Envelope.read? raw with
  | none => none
  | some (e, fp) =>
    if r.recent.contains fp then none
    else match r.open? e with
      | .ok (some (mailClass, plaintext)) => some (e, mailClass, plaintext)
      | _ => none

theorem opens?_eq_some_iff {raw : Bytes} {e : Envelope} {mailClass : MailClass}
    {plaintext : Bytes} :
    r.opens? raw = some (e, mailClass, plaintext) ↔
      (∃ fp, Envelope.read? raw = some (e, fp) ∧ r.recent.contains fp = false) ∧
        r.open? e = .ok (some (mailClass, plaintext)) := by
  unfold opens?
  constructor
  · intro h
    split at h
    · cases h
    · rename_i d fp hread
      split at h
      · cases h
      · rename_i hnew
        split at h
        · rename_i hopen
          cases h
          exact ⟨⟨fp, hread, Bool.eq_false_iff.mpr hnew⟩, hopen⟩
        · cases h
  · rintro ⟨⟨fp, hread, hnew⟩, hopen⟩
    rw [hread]
    dsimp only
    rw [hnew, hopen]
    rfl

theorem routeNew_of_open {e : Envelope} {raw : Bytes} {mailClass : MailClass} {plaintext : Bytes}
    (h : r.open? e = .ok (some (mailClass, plaintext))) :
    r.routeNew e raw =
      match r.consume e mailClass plaintext with
      | .error error => (.error error, r)
      | .ok r' => r'.passOn e raw (some mailClass) := by
  cases hconsume : r.consume e mailClass plaintext with
  | error error => simp [routeNew, h, hconsume]
  | ok r' => simp [routeNew, h, hconsume]

/-- A router takes in what was found in an envelope: the reader is made one offer, or the streams get
one part. -/
structure Takes (r r' : Router) (e : Envelope) (mailClass : MailClass) (plaintext : Bytes) :
    Prop where
  queue : r'.queue =
    if e.flags.isPart then r.queue else (r.queue.offer ⟨mailClass, e.channel, plaintext⟩).2
  streams : r'.streams = r.streams.take e.flags plaintext mailClass

theorem takes_routeNew {e : Envelope} {mailClass : MailClass} {plaintext : Bytes}
    (h : r.open? e = .ok (some (mailClass, plaintext))) (raw : Bytes) :
    r.Takes (r.routeNew e raw).2 e mailClass plaintext := by
  rw [routeNew_of_open h]
  unfold consume
  cases hpart : e.flags.isPart with
  | true =>
    rw [if_pos rfl]
    cases hhandle : r.streams.handle e.flags plaintext mailClass with
    | error error =>
      refine ⟨by rw [hpart, if_pos rfl], ?_⟩
      rw [Stream.Reassembler.take, hhandle]
    | ok streams =>
      have hkeeps := keeps_passOn { r with streams := streams } e raw (some mailClass)
      refine ⟨by rw [hpart, if_pos rfl]; exact hkeeps.queue, ?_⟩
      rw [Stream.Reassembler.take_of_ok hhandle]
      exact hkeeps.streams
  | false =>
    rw [if_neg Bool.false_ne_true]
    have hkeeps := keeps_passOn
      { r with queue := (r.queue.offer ⟨mailClass, e.channel, plaintext⟩).2 } e raw (some mailClass)
    have hnone := Stream.Reassembler.take_of_not_isPart hpart r.streams plaintext mailClass
    refine ⟨?_, hkeeps.streams.trans hnone.symm⟩
    rw [hpart, if_neg Bool.false_ne_true]
    exact hkeeps.queue

/-- **What routing opens is offered to the reader, or goes to the streams.** -/
theorem takes_route {raw : Bytes} {e : Envelope} {mailClass : MailClass} {plaintext : Bytes}
    (h : r.opens? raw = some (e, mailClass, plaintext)) :
    r.Takes (r.route raw).2 e mailClass plaintext := by
  obtain ⟨⟨fp, hread, hnew⟩, hopen⟩ := opens?_eq_some_iff.mp h
  have htakes := takes_routeNew (r := { r with recent := r.recent.insert fp }) hopen raw
  rw [route_of_read hread, if_neg (Bool.eq_false_iff.mp hnew)]
  exact ⟨htakes.queue, htakes.streams⟩

/-- A part of a stream that is not passed on changes the streams, and is known from then on. -/
theorem route_of_part {raw : Bytes} {e : Envelope} {fp : Fingerprint} {mailClass : MailClass}
    {plaintext : Bytes} {streams : Stream.Reassembler}
    (hread : Envelope.read? raw = some (e, fp)) (hnew : r.recent.contains fp = false)
    (hopen : r.open? e = .ok (some (mailClass, plaintext))) (hpart : e.flags.isPart = true)
    (hhandle : r.streams.handle e.flags plaintext mailClass = .ok streams)
    (hstays : r.settings.forwards e.channel.isSome (some mailClass) = false) :
    r.route raw = (.ok (.routed (some mailClass) 0),
      { r with recent := r.recent.insert fp, streams := streams }) := by
  rw [route_of_read hread, hnew, if_neg Bool.false_ne_true,
    routeNew_of_open (r := { r with recent := r.recent.insert fp }) hopen, consume, if_pos hpart]
  dsimp only
  rw [hhandle]
  dsimp only
  rw [passOn, hstays, if_neg Bool.false_ne_true]

/-- **What routing does not open is not taken in.** -/
theorem route_of_not_opens {raw : Bytes} (h : r.opens? raw = none) :
    (r.route raw).2.queue = r.queue ∧ (r.route raw).2.streams = r.streams ∧
      ∀ mailClass total, (r.route raw).1 ≠ .ok (.routed (some mailClass) total) := by
  cases hread : Envelope.read? raw with
  | none =>
    obtain ⟨error, hroute⟩ := route_of_unreadable hread r
    rw [hroute]
    exact ⟨rfl, rfl, by simp⟩
  | some found =>
    obtain ⟨e, fp⟩ := found
    cases hknown : r.recent.contains fp with
    | true =>
      rw [route_of_known hread hknown]
      exact ⟨rfl, rfl, by simp⟩
    | false =>
      rw [route_of_read hread, hknown, if_neg Bool.false_ne_true]
      have hnotopen : ∀ found, r.open? e ≠ .ok (some found) := by
        rintro ⟨mailClass, plaintext⟩ hopen
        rw [opens?_eq_some_iff.mpr ⟨⟨fp, hread, hknown⟩, hopen⟩] at h
        cases h
      have hsame : open? { r with recent := r.recent.insert fp } e = r.open? e := rfl
      unfold routeNew
      rw [hsame]
      split
      · exact ⟨rfl, rfl, by simp⟩
      · have hkeeps := keeps_passOn { r with recent := r.recent.insert fp } e raw none
        refine ⟨hkeeps.queue, hkeeps.streams, fun mailClass total => ?_⟩
        exact (passOn_ne _ _ _ _).2 _ _ (by simp)
      · rename_i hopen
        exact absurd hopen (hnotopen _)

/-- What is said of an envelope that routing opens. -/
theorem outcome_of_opens {raw : Bytes} {e : Envelope} {mailClass : MailClass} {plaintext : Bytes}
    (h : r.opens? raw = some (e, mailClass, plaintext))
    (hup : StoreCall.appendOutbox.name ∉ r.backend.down)
    (hreads : e.flags.isPart = true →
      ∃ streams, r.streams.handle e.flags plaintext mailClass = .ok streams) :
    ∃ total, (r.route raw).1 = .ok (.routed (some mailClass) total) := by
  obtain ⟨⟨fp, hread, hnew⟩, hopen⟩ := opens?_eq_some_iff.mp h
  obtain ⟨r', hconsume, hbackend⟩ :=
    exists_consume (r := { r with recent := r.recent.insert fp }) mailClass hreads
  rw [route_of_read hread, if_neg (Bool.eq_false_iff.mp hnew),
    routeNew_of_open (r := { r with recent := r.recent.insert fp }) hopen, hconsume]
  refine passOn_of_up ?_ e raw (some mailClass)
  rw [hbackend]
  exact hup

end Router

end Courier
