import Mathlib
import Courier.Proofs.Node.Growth
import Courier.Proofs.RecentCache
import Courier.Proofs.Router.Redirection

/-!
## How long an envelope is known

A router puts down the fingerprint of each envelope that it routes for the first time, and of each
one that it is told to remember, known or not. So a fingerprint may stand on both pages, or be put
down again when a page is full. For every mixture of the two, an envelope is passed over as long as no
more than a page was put down after it, and forgotten when two pages of others were routed.

* `recent_run`: what is known after some events is what was put down in them.
* `forgotten_or_fades`: a fingerprint fades with every other envelope that is routed, unless it was
  forgotten and routed again.
* `recalls_of_run`: what a router knows in a whole run.
* `known_after_rerouting`: an envelope that comes again after it was forgotten is known anew.
-/

namespace Courier.Router.Recollection

open Courier.RecentCache (pageCapacity)

/-! ### Events -/

/-- What a router meets with. -/
inductive Event
  | remember (raw : Bytes)
  | route (raw : Bytes)
  /-- All that it does not know envelopes by may become another's. -/
  | change (other : Router)

/-- A fingerprint that was put down, and why. -/
inductive Insertion
  | remembered (fp : Fingerprint)
  | routed (fp : Fingerprint)
deriving DecidableEq

namespace Insertion

def fingerprint : Insertion → Fingerprint
  | remembered fp => fp
  | routed fp => fp

/-- Whether an envelope with another fingerprint was routed. -/
def isOther (fp : Fingerprint) : Insertion → Bool
  | remembered _ => false
  | routed other => other != fp

end Insertion

variable [Cryptography]

def step (r : Router) : Event → Router
  | .remember raw =>
    match r.remember raw with
    | .ok r => r
    | .error _ => r
  | .route raw => (r.route raw).2
  | .change other => { other with recent := r.recent }

def run (r : Router) (events : List Event) : Router := events.foldl step r

/-- What is put down at an event. A duplicate is not, and neither is what cannot be read. -/
def insertion? (r : Router) : Event → Option Insertion
  | .remember raw => (Envelope.read? raw).map fun found => .remembered found.2
  | .route raw =>
    match r.route raw with
    | (.ok .duplicate, _) => none
    | _ => (Envelope.read? raw).map fun found => .routed found.2
  | .change _ => none

/-- What is put down in a run. -/
def insertions (r : Router) : List Event → List Insertion
  | [] => []
  | event :: rest => (insertion? r event).toList ++ insertions (step r event) rest

variable {r : Router} {event : Event} {events : List Event} {fp : Fingerprint} {i : Insertion}

theorem run_append (r : Router) (events later : List Event) :
    run r (events ++ later) = run (run r events) later := List.foldl_append

theorem insertions_append (r : Router) (events later : List Event) :
    insertions r (events ++ later) = insertions r events ++ insertions (run r events) later := by
  induction events generalizing r with
  | nil => rfl
  | cons event rest ih =>
    rw [List.cons_append, insertions, insertions, ih, List.append_assoc]
    rfl

/-! ### What is put down -/

theorem insertion?_route_of_unreadable {raw : Bytes} (h : Envelope.read? raw = none)
    (r : Router) : insertion? r (.route raw) = none := by
  obtain ⟨error, hroute⟩ := route_of_unreadable h r
  rw [insertion?, hroute, h]
  rfl

theorem insertion?_route_of_known {raw : Bytes} {e : Envelope}
    (h : Envelope.read? raw = some (e, fp)) (hknown : r.recent.contains fp = true) :
    insertion? r (.route raw) = none := by
  rw [insertion?, route_of_known h hknown]

theorem insertion?_route_of_new {raw : Bytes} {e : Envelope}
    (h : Envelope.read? raw = some (e, fp)) (hnew : r.recent.contains fp = false) :
    insertion? r (.route raw) = some (.routed fp) := by
  rw [insertion?, route_of_read h, hnew, if_neg Bool.false_ne_true, h]
  have hne := routeNew_ne { r with recent := r.recent.insert fp } e raw
  split
  · rename_i hroute
    exact absurd (congrArg Prod.fst hroute) hne
  · rfl

/-- **Only what is not known is put down by routing.** -/
theorem new_of_routed (h : insertion? r event = some (.routed fp)) :
    r.recent.contains fp = false := by
  cases event with
  | remember raw =>
    obtain ⟨found, -, hfound⟩ := Option.map_eq_some_iff.mp h
    cases hfound
  | change other => cases h
  | route raw =>
    cases hread : Envelope.read? raw with
    | none =>
      rw [insertion?_route_of_unreadable hread] at h
      cases h
    | some found =>
      obtain ⟨e, fp'⟩ := found
      cases hknown : r.recent.contains fp' with
      | true =>
        rw [insertion?_route_of_known hread hknown] at h
        cases h
      | false =>
        rw [insertion?_route_of_new hread hknown] at h
        cases h
        exact hknown

theorem recent_step (r : Router) (event : Event) :
    (step r event).recent =
      r.recent.insertAll ((insertion? r event).toList.map Insertion.fingerprint) := by
  cases event with
  | change other => rfl
  | remember raw =>
    cases hread : Envelope.read? raw with
    | none =>
      cases hremember : r.remember raw with
      | error error => simp only [step, hremember, insertion?, hread]; rfl
      | ok r' =>
        obtain ⟨e, fp, hsome, -⟩ := remember_eq_ok hremember
        rw [hread] at hsome
        cases hsome
    | some found => simp only [step, remember_of_read r hread, insertion?, hread]; rfl
  | route raw =>
    cases hread : Envelope.read? raw with
    | none =>
      obtain ⟨error, hroute⟩ := route_of_unreadable hread r
      rw [insertion?_route_of_unreadable hread, step, hroute]
      rfl
    | some found =>
      obtain ⟨e, fp⟩ := found
      cases hknown : r.recent.contains fp with
      | true =>
        rw [insertion?_route_of_known hread hknown, step, route_of_known hread hknown]
        rfl
      | false =>
        rw [insertion?_route_of_new hread hknown, step, route_of_read hread, hknown,
          if_neg Bool.false_ne_true, recent_routeNew]
        rfl

/-- **What is known after some events is what was known before and what was put down in them.** -/
theorem recent_run (r : Router) (events : List Event) :
    (run r events).recent =
      r.recent.insertAll ((insertions r events).map Insertion.fingerprint) := by
  induction events generalizing r with
  | nil => rfl
  | cons event rest ih =>
    rw [insertions, List.map_append, RecentCache.insertAll_append, ← recent_step]
    exact ih (step r event)

/-! ### Fading -/

/-- One event makes a fingerprint fade if it routes another envelope. -/
theorem fades_step {later : Nat} (h : r.recent.Fades fp later) (hi : insertion? r event = some i)
    (hne : i.fingerprint ≠ fp) :
    (step r event).recent.Fades fp (later + [i].countP (Insertion.isOther fp)) := by
  have hrecent : (step r event).recent = r.recent.insert i.fingerprint := by
    rw [recent_step, hi]
    rfl
  rw [hrecent]
  cases i with
  | remembered other => exact h.insert hne
  | routed other =>
    have hnew : other ∉ r.recent.current := by
      have hunknown := new_of_routed hi
      rw [Bool.eq_false_iff, ne_eq, RecentCache.contains_iff, not_or] at hunknown
      exact hunknown.1
    have hother : Insertion.isOther fp (.routed other) = true := bne_iff_ne.mpr hne
    rw [List.countP_singleton, hother, if_pos rfl]
    exact h.insert_new hne hnew

/-- **A fingerprint that is not remembered again fades with every other envelope that is routed**,
unless it was forgotten, and routed again after that. -/
theorem forgotten_or_fades (h : r.recent.Fades fp 0) (later : List Event)
    (hnot : Insertion.remembered fp ∉ insertions r later) :
    (∃ before after, later = before ++ after ∧ (run r before).recent.contains fp = false ∧
      .routed fp ∈ insertions (run r before) after) ∨
    (run r later).recent.Fades fp ((insertions r later).countP (Insertion.isOther fp)) := by
  -- What is forgotten stays so until it is routed again, so the last event is the one to look at.
  induction later using List.reverseRecOn with
  | nil => exact .inr h
  | append_singleton later event ih =>
    have hone : insertions (run r later) [event] = (insertion? (run r later) event).toList :=
      List.append_nil _
    rw [insertions_append, hone, List.mem_append, not_or] at hnot
    rcases ih hnot.1 with ⟨before, after, rfl, hunknown, hmem⟩ | hfades
    · refine .inl ⟨before, after ++ [event], List.append_assoc _ _ _, hunknown, ?_⟩
      rw [insertions_append]
      exact List.mem_append_left _ hmem
    · have hrun : run r (later ++ [event]) = step (run r later) event := run_append _ _ _
      rw [insertions_append, hone, hrun, List.countP_append]
      cases hi : insertion? (run r later) event with
      | none =>
        right
        rwa [recent_step, hi]
      | some i =>
        by_cases hfp : i.fingerprint = fp
        · -- It is put down again: by routing, so it was forgotten by then.
          have hrouted : i = .routed fp := by
            cases i with
            | remembered other =>
              obtain rfl : other = fp := hfp
              rw [hi] at hnot
              exact absurd (List.mem_singleton_self _) hnot.2
            | routed other => rw [← hfp, Insertion.fingerprint]
          subst hrouted
          refine .inl ⟨later, [event], rfl, new_of_routed hi, ?_⟩
          rw [hone, hi]
          exact List.mem_singleton_self _
        · exact .inr (fades_step hfades hi hfp)

/-! ### Whole runs -/

/-- What a router knows of a fingerprint that was just put down, when some events come after. -/
structure Recalls (r : Router) (fp : Fingerprint) (later : List Event) : Prop where
  /-- An envelope is passed over as long as no more than a page of others was put down. -/
  kept : (insertions r later).length ≤ pageCapacity →
    ∀ raw e, Envelope.read? raw = some (e, fp) →
      (run r later).route raw = (.ok .duplicate, run r later)
  /-- It has been forgotten when two pages of others were routed, and if it is known then, it was
  routed again. -/
  forgotten : .remembered fp ∉ insertions r later →
    2 * pageCapacity ≤ (insertions r later).countP (Insertion.isOther fp) →
      ∃ before after, later = before ++ after ∧ (run r before).recent.contains fp = false ∧
        ((run r later).recent.contains fp = true → .routed fp ∈ insertions (run r before) after)

theorem recalls_step (hbounded : r.recent.Bounded) (hi : insertion? r event = some i)
    (later : List Event) : Recalls (step r event) i.fingerprint later := by
  have hrecent : (step r event).recent = r.recent.insert i.fingerprint := by
    rw [recent_step, hi]
    rfl
  constructor
  · intro hfew raw e hread
    refine route_of_known hread ?_
    have hfirst : (i.fingerprint :: (insertions (step r event) later).map
        Insertion.fingerprint)[0]? = some i.fingerprint := rfl
    have hknown := RecentCache.contains_insertAll_of_le r.recent hfirst
      (by rw [List.length_cons, List.length_map]; omega)
    -- What was known and what was put down since make one list, with this fingerprint in front.
    rw [recent_run, hrecent]
    exact hknown
  · intro hnot hmany
    have hstart : (step r event).recent.Fades i.fingerprint 0 := by
      rw [hrecent]
      exact RecentCache.fades_insert_self hbounded _
    rcases forgotten_or_fades hstart later hnot with ⟨before, after, hsplit, hunknown, hmem⟩ | hfades
    · exact ⟨before, after, hsplit, hunknown, fun _ => hmem⟩
    · have hunknown := hfades.forgotten hmany
      refine ⟨later, [], (List.append_nil _).symm, hunknown, fun hknown => ?_⟩
      rw [hunknown] at hknown
      cases hknown

/-- **What a router knows in a whole run**, which it began with nothing known: two pages at most, and
every fingerprint that was put down for as long as it is recalled. -/
theorem recalls_of_run (r : Router) (events : List Event) :
    let start := { r with recent := {} }
    (run start events).recent.size ≤ 2 * pageCapacity ∧
      ∀ earlier event later i, events = earlier ++ event :: later →
        insertion? (run start earlier) event = some i →
          Recalls (run start (earlier ++ [event])) i.fingerprint later := by
  intro start
  have hbounded : ∀ events, (run start events).recent.Bounded := by
    intro events
    rw [recent_run]
    exact RecentCache.bounded_empty.insertAll _
  refine ⟨(hbounded events).size_le, fun earlier event later i _ hi => ?_⟩
  rw [run_append]
  exact recalls_step (hbounded earlier) hi later

/-! ### Known anew -/

section

omit [Cryptography]

/-- A router that opens nothing and passes nothing on. -/
def still : Router where
  settings := { checkContent := false, checkProfiles := false, forwardUnknownContent := false }
  identity := default
  backend := {}
  clock := { wall := fun _ => 1 }
  queue := .ofDepth 1

/-- The fingerprint of `sample n`. -/
def mark (n : Nat) : Fingerprint := UInt8.ofNat n :: List.replicate 15 0

/-- One of many private envelopes. -/
def sample (n : Nat) : Bytes := Flags.none.bits :: mark n

/-- Envelopes are routed that were not before. -/
def routes (first count : Nat) : List Event :=
  (List.range' first count).map fun n => .route (sample n)

/-- An envelope that took the last place of its page comes again after 51 others, when it is
forgotten. -/
def rerouted : List Event := routes 50 51 ++ [.route (sample 49)] ++ routes 101 60

/-- **Two pages of others are not enough if an envelope is routed again among them**: it is known
after them, though none of them was remembered. -/
theorem known_after_rerouting :
    letI := Cryptography.transparent
    let before := run still (routes 0 49)
    let since := insertions (step before (.route (sample 49))) rerouted
    let after := run (step before (.route (sample 49))) rerouted
    still.recent = {} ∧
      insertion? before (.route (sample 49)) = some (.routed (mark 49)) ∧
      .remembered (mark 49) ∉ since ∧
      2 * pageCapacity ≤ since.countP (Insertion.isOther (mark 49)) ∧
      after.recent.contains (mark 49) = true ∧
      (after.route (sample 49)).1 = .ok .duplicate := by
  decide +kernel

end

end Courier.Router.Recollection
