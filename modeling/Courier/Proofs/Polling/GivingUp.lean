import Mathlib
import Courier.Proofs.Polling.Failures

/-!
## Giving up on peers that never answer

A policy moves on from a group only by a pass that tries nobody, and such a pass comes after at most
as many passes with tries as the ceiling allows failures: in a pass that tries somebody every peer
that can be tried fails once more or has failed up to the ceiling already. So if no round ever
succeeds, so many passes for each group, and one more for each, bring the policy to the end of the
last group. There it stays for good, or it starts over.

* `Accounted`, `Recorded.accounted`: what is on record is what the passes have done.
* `Unfolds.idle_iff`, `Unfolds.min_le_failuresSince`: passes that try nobody, and those that do.
* `Paced`, `Paced.pass`: how far the policy is at the least, and what a pass preserves of it.
* `Accounted.paced_or_givesUp`, `attend_of_exhausted`: up to the last group, and from there on.
* `silent_peers_given_up`: what that comes to.
-/

namespace Courier.PollPolicy

section

variable {σ : Type} {ts : Transports} {round : Transport → String → σ → Bool × σ}
variable {ceiling passes i : Nat} {uri : String} {record events : List Event} {e : Event}
variable {world world' : σ} {peer : Peer} {peers : List Peer}

/-! ### The passes tell the record -/

theorem TakesTurn.unique {e' : Event} {world'' : σ}
    (h : TakesTurn ceiling ts round record world peer e world')
    (h' : TakesTurn ceiling ts round record world peer e' world'') :
    e' = e ∧ world'' = world' := by
  have hdue : ∀ {t}, failuresSince peer.uri record < ceiling → ts.find? peer.scheme = some t →
      IsDue ceiling ts record peer := fun hlt ht => ⟨hlt, by rw [ht]; rfl⟩
  cases h with
  | skip hnot =>
    cases h' with
    | skip => exact ⟨rfl, rfl⟩
    | attempt hlt ht => exact absurd (hdue hlt ht) hnot
  | attempt hlt ht =>
    cases h' with
    | skip hnot => exact absurd (hdue hlt ht) hnot
    | attempt _ ht' =>
      obtain rfl := Option.some.inj (ht.symm.trans ht')
      exact ⟨rfl, rfl⟩

theorem Unfolds.unique {events' : List Event} {world'' : σ}
    (h : Unfolds ceiling ts round record world peers events world')
    (h' : Unfolds ceiling ts round record world peers events' world'') : events' = events := by
  induction h generalizing events' with
  | done record world =>
    cases h'
    rfl
  | turn hturn _ ih =>
    cases h' with
    | turn hturn' hrest' =>
      obtain ⟨rfl, rfl⟩ := hturn.unique hturn'
      rw [ih hrest']

theorem settings_after (p : PollPolicy) (occasions : List (Occasion σ)) :
    (p.after occasions).settings = p.settings := by
  induction occasions generalizing p with
  | nil => rfl
  | cons o rest ih => exact (ih _).trans (settings_attend p o)

/-- The record of any passes of a policy is what they have done: the report of each tells its part of
the record, and each leaves the world and the policy as that part says. -/
inductive Accounted (start : PollPolicy) : List (Occasion σ) → List Event → Prop
  | start : Accounted start [] []
  | refused {occasions : List (Occasion σ)} {record : List Event} {o : Occasion σ} {e : StoreError}
      (h : Accounted start occasions record) (ho : o.peers = .error e)
      (hattend : (start.after occasions).attend o = (.error e, start.after occasions, o.world)) :
      Accounted start (occasions ++ [o]) record
  | pass {occasions : List (Occasion σ)} {record events : List Event} {o : Occasion σ}
      {peers : List Peer} {s : Pass σ} (h : Accounted start occasions record)
      (ho : o.peers = .ok peers)
      (hattend : (start.after occasions).attend o = (.ok s.report, s.policy, s.world))
      (haccounts : (start.after occasions).Accounts o peers record events s) :
      Accounted start (occasions ++ [o])
        (record ++ events ++ (start.after occasions).closing peers events)

/-- A round was had with an address. -/
def Event.tries (uri : String) : Event → Bool
  | tried peer _ => peer.uri == uri
  | _ => false

theorem failuresSince_append (record : List Event) (h : ∀ e ∈ events, e.clears uri = false) :
    failuresSince uri (record ++ events) =
      failuresSince uri record + events.countP (Event.fails uri) := by
  induction events using List.reverseRecOn with
  | nil => rw [List.append_nil, List.countP_nil, Nat.add_zero]
  | append_singleton events e ih =>
    rw [← List.append_assoc, failuresSince_of_not_clears (h e List.mem_concat_self),
      ih fun e he => h e (List.mem_append_left _ he), List.countP_append, List.countP_singleton,
      Nat.add_assoc]

/-- Turns without a success leave all failures standing. -/
theorem Unfolds.not_clears (h : Unfolds ceiling ts round record world peers events world')
    (hfails : ∀ e ∈ events, e.isSuccess = false) (uri : String) :
    ∀ e ∈ events, e.clears uri = false := by
  induction h with
  | done => exact List.forall_mem_nil _
  | turn hturn _ ih =>
    rw [List.forall_mem_cons] at hfails ⊢
    refine ⟨?_, ih hfails.2⟩
    cases hturn with
    | skip => rfl
    | attempt => exact Bool.and_eq_false_imp.mpr fun h => absurd (hfails.1.symm.trans h) nofun

theorem failuresSince_append_skipped (uri : String) (record : List Event) (peer : Peer) :
    failuresSince uri (record ++ [.skipped peer]) = failuresSince uri record :=
  failuresSince_of_not_clears rfl

/-- **Nobody is tried** exactly if none of the peers is due beforehand. -/
theorem Unfolds.idle_iff (h : Unfolds ceiling ts round record world peers events world') :
    events.countP Event.isTried = 0 ↔ ∀ peer ∈ peers, ¬IsDue ceiling ts record peer := by
  induction h with
  | done => exact ⟨fun _ => List.forall_mem_nil _, fun _ => rfl⟩
  | turn hturn _ ih =>
    rw [List.forall_mem_cons]
    cases hturn with
    | skip hnot =>
      -- For the rest it is as if there had been no turn.
      rw [List.countP_cons_of_neg (by simp [Event.isTried]), ih]
      unfold IsDue
      simp only [failuresSince_append_skipped]
      exact ⟨fun hrest => ⟨hnot, hrest⟩, And.right⟩
    | attempt hlt ht =>
      rw [List.countP_cons_of_pos rfl]
      exact ⟨nofun, fun hnone => absurd ⟨hlt, by rw [ht]; rfl⟩ hnone.1⟩

/-- **A peer that can be tried fails once more**, or has failed up to the ceiling. -/
theorem Unfolds.min_le_failuresSince
    (h : Unfolds ceiling ts round record world peers events world')
    (hfails : ∀ e ∈ events, e.isSuccess = false) (hpeer : peer ∈ peers)
    (hattached : (ts.find? peer.scheme).isSome = true) :
    min ceiling (failuresSince peer.uri record + 1) ≤
      failuresSince peer.uri (record ++ events) := by
  induction h with
  | done => cases hpeer
  | @turn record events _ _ _ first _ e hturn hrest ih =>
    rw [List.forall_mem_cons] at hfails
    rw [List.append_cons]
    have hrest' := failuresSince_append (record ++ [e]) (hrest.not_clears hfails.2 peer.uri)
    have hfirst : e.clears peer.uri = false :=
      Unfolds.not_clears (.turn hturn (.done _ _)) (by simpa using hfails.1) _ e
        List.mem_cons_self
    have hgrows : failuresSince peer.uri (record ++ [e]) =
        failuresSince peer.uri record + if e.fails peer.uri then 1 else 0 :=
      failuresSince_of_not_clears hfirst
    rcases List.mem_cons.mp hpeer with rfl | hpeer
    -- At its own turn the peer fails, unless it has failed too often by then.
    · cases hturn with
      | skip hnot =>
        have hceiling := Nat.not_lt.mp fun hlt => hnot ⟨hlt, hattached⟩
        omega
      | attempt =>
        have hfailed : (round _ peer.address _).1 = false := hfails.1
        rw [if_pos (by simp [Event.fails, hfailed])] at hgrows
        omega
    -- Until then its number can only have grown, by peers that share the address.
    · have := ih hfails.2 hpeer
      omega

/-! ### One pass -/

/-- A peer that a pass over the group at some place may try. -/
structure Eligible (groups : List String) (ts : Transports) (peers : List Peer) (i : Nat)
    (peer : Peer) : Prop where
  mem : peer ∈ peers
  enabled : peer.enabled = true
  group : groups[i]? = some peer.group
  attached : (ts.find? peer.scheme).isSome = true

/-- All peers that a pass over a group may try have failed up to the ceiling. -/
def Spent (p : PollPolicy) (ts : Transports) (peers : List Peer) (i : Nat) : Prop :=
  ∀ peer, Eligible (p.enabledGroups peers) ts peers i peer →
    p.failureCount peer.uri = p.settings.retryCeiling

/-- How far a policy is at the least after so many passes in which no round has succeeded. -/
structure Paced (p : PollPolicy) (ts : Transports) (peers : List Peer) (passes : Nat) : Prop where
  lt : p.group < (p.enabledGroups peers).length
  /-- The groups before the current one are done with. -/
  spent : ∀ i < p.group, p.Spent ts peers i
  /-- Each of them took a pass more than the ceiling at most, and each of the other passes was a
  failure of everybody in the current one. -/
  pace : ∃ tries ≤ p.settings.retryCeiling,
    passes ≤ p.group * (p.settings.retryCeiling + 1) + tries ∧
      ∀ peer, Eligible (p.enabledGroups peers) ts peers p.group peer →
        tries ≤ p.failureCount peer.uri

/-- A pass over the last group tries nobody. -/
def GivesUp (p : PollPolicy) (o : Occasion σ) (peers : List Peer) : Prop :=
  p.group + 1 = (p.enabledGroups peers).length ∧
    (p.pass o.transports o.round peers o.world).report.attempted = 0

variable {p : PollPolicy} {o : Occasion σ} {s : Pass σ}

theorem currentGroup?_of_lt (h : p.group < (p.enabledGroups peers).length) :
    p.currentGroup? peers = (p.enabledGroups peers)[p.group]? := by
  rw [currentGroup?, Nat.min_eq_left (Nat.le_sub_one_of_lt h)]

theorem isSome_currentGroup? (h : p.group < (p.enabledGroups peers).length) :
    (p.currentGroup? peers).isSome = true := by
  rw [currentGroup?_of_lt h, List.getElem?_eq_getElem h]
  rfl

theorem eligible_iff (h : p.group < (p.enabledGroups peers).length) :
    Eligible (p.enabledGroups peers) ts peers p.group peer ↔
      peer ∈ p.turns peers ∧ (ts.find? peer.scheme).isSome = true := by
  rw [mem_turns, currentGroup?_of_lt h]
  exact ⟨fun ⟨hmem, henabled, hgroup, hattached⟩ => ⟨⟨hmem, henabled, hgroup⟩, hattached⟩,
    fun ⟨⟨hmem, henabled, hgroup⟩, hattached⟩ => ⟨hmem, henabled, hgroup, hattached⟩⟩

theorem Accounts.attempted (h : p.Accounts o peers record events s) :
    s.report.attempted = events.countP Event.isTried := by
  rw [h.report]
  exact Nat.zero_add _

/-- A pass tries nobody exactly if the current group is done with. -/
theorem Accounts.idle_iff (h : p.Accounts o peers record events s) (hagrees : p.Agrees record)
    (hlt : p.group < (p.enabledGroups peers).length) :
    events.countP Event.isTried = 0 ↔ p.Spent o.transports peers p.group := by
  rw [h.unfolds.idle_iff]
  constructor
  · intro hnone peer hpeer
    obtain ⟨hturn, hattached⟩ := (eligible_iff hlt).mp hpeer
    have hnot : ¬failuresSince peer.uri record < _ := fun hlt => hnone peer hturn ⟨hlt, hattached⟩
    rw [← hagrees.count] at hnot
    exact Nat.le_antisymm (hagrees.le _) (Nat.not_lt.mp hnot)
  · intro hspent peer hturn hdue
    have hcount := hspent peer ((eligible_iff hlt).mpr ⟨hturn, hdue.2⟩)
    have hbelow := hdue.1
    rw [← hagrees.count, hcount] at hbelow
    exact Nat.lt_irrefl _ hbelow

theorem enabledGroups_congr {q : PollPolicy} (h : q.settings = p.settings) (peers : List Peer) :
    q.enabledGroups peers = p.enabledGroups peers := by
  rw [enabledGroups, groups, h]
  rfl

theorem Accounts.failureCount_le (h : p.Accounts o peers record events s)
    (hagrees : p.Agrees record) (hfails : ∀ e ∈ events, e.isSuccess = false)
    (hclosing : p.closing peers events = []) (uri : String) :
    p.failureCount uri ≤ s.policy.failureCount uri := by
  rw [h.after.count, hclosing, List.append_nil,
    failuresSince_append _ (h.unfolds.not_clears hfails uri), hagrees.count]
  exact Nat.le_add_right _ _

/-- What is done with stays so as long as the numbers do not fall. -/
theorem Spent.mono {q : PollPolicy} (h : p.Spent ts peers i) (hsettings : q.settings = p.settings)
    (hle : ∀ uri, p.failureCount uri ≤ q.failureCount uri) (hagrees : q.Agrees record) :
    q.Spent ts peers i := by
  intro peer hpeer
  rw [enabledGroups_congr hsettings] at hpeer
  refine Nat.le_antisymm (hagrees.le _) ?_
  rw [hsettings, ← h peer hpeer]
  exact hle _

theorem settings_pass (p : PollPolicy) (o : Occasion σ) (peers : List Peer) :
    (p.pass o.transports o.round peers o.world).policy.settings = p.settings :=
  settings_attend p { o with peers := .ok peers }

section

variable (h : p.Paced ts peers passes) (hagrees : p.Agrees record) (ho : o.transports = ts)
  (haccounts : p.Accounts o peers record events (p.pass o.transports o.round peers o.world))
include h hagrees ho haccounts

/-- A pass that tries nobody moves on to the next group. -/
theorem Paced.pass_idle (hnone : events.countP Event.isTried = 0)
    (hnext : p.group + 1 < (p.enabledGroups peers).length)
    (hfails : ∀ e ∈ events, e.isSuccess = false) :
    (p.pass o.transports o.round peers o.world).policy.Paced ts peers (passes + 1) := by
  subst ho
  obtain ⟨tries, htries, hpasses, -⟩ := h.pace
  have hsettings := settings_pass p o peers
  have hsome := isSome_currentGroup? h.lt
  have hgroup := haccounts.group
  rw [nextGroup, if_pos ⟨hsome, hnone⟩, if_pos hnext] at hgroup
  have hclosing : p.closing peers events = [] :=
    if_neg fun hclosing => by simp [startsOver, hnext] at hclosing
  have hle := haccounts.failureCount_le hagrees hfails hclosing
  refine ⟨?_, fun i hi => ?_, 0, Nat.zero_le _, ?_, fun _ _ => Nat.zero_le _⟩
  · rwa [hgroup, enabledGroups_congr hsettings]
  · rw [hgroup] at hi
    rcases Nat.lt_succ_iff_lt_or_eq.mp hi with hi | rfl
    · exact (h.spent i hi).mono hsettings hle haccounts.after
    · exact ((haccounts.idle_iff hagrees h.lt).mp hnone).mono hsettings hle haccounts.after
  · rw [hgroup, hsettings, Nat.succ_mul]
    omega

/-- In a pass that tries somebody, all who can be tried fail once more or have failed up to the
ceiling. -/
theorem Paced.pass_busy (hsome : events.countP Event.isTried ≠ 0)
    (hfails : ∀ e ∈ events, e.isSuccess = false) :
    (p.pass o.transports o.round peers o.world).policy.Paced ts peers (passes + 1) := by
  subst ho
  obtain ⟨tries, htries, hpasses, hcounts⟩ := h.pace
  have hsettings := settings_pass p o peers
  have hgroup := haccounts.group
  rw [nextGroup, if_neg fun hidle => hsome hidle.2] at hgroup
  have hclosing : p.closing peers events = [] := if_neg fun hclosing => hsome hclosing.1
  have hle := haccounts.failureCount_le hagrees hfails hclosing
  -- Whoever was tried had failures left.
  have hbelow : tries < p.settings.retryCeiling := by
    by_contra hreached
    refine hsome ((haccounts.idle_iff hagrees h.lt).mpr fun peer hpeer => ?_)
    have hle := Nat.le_trans (Nat.not_lt.mp hreached) (hcounts peer hpeer)
    exact Nat.le_antisymm (hagrees.le _) hle
  refine ⟨?_, fun i hi => ?_, tries + 1, ?_, ?_, fun peer hpeer => ?_⟩
  · rw [hgroup, enabledGroups_congr hsettings]
    exact h.lt
  · rw [hgroup] at hi
    exact (h.spent i hi).mono hsettings hle haccounts.after
  · rwa [hsettings]
  · rw [hgroup, hsettings]
    omega
  · rw [hgroup, enabledGroups_congr hsettings] at hpeer
    obtain ⟨hturn, hattached⟩ := (eligible_iff h.lt).mp hpeer
    have hmin := haccounts.unfolds.min_le_failuresSince hfails hturn hattached
    rw [← hagrees.count] at hmin
    have hafter := haccounts.after.count peer.uri
    rw [hclosing, List.append_nil] at hafter
    have htried := hcounts peer hpeer
    omega

/-- **What a pass preserves in which no round succeeds**: the policy keeps its pace, unless the pass
gives up. -/
theorem Paced.pass (hfails : ∀ e ∈ events, e.isSuccess = false) (htries : ¬p.GivesUp o peers) :
    (p.pass o.transports o.round peers o.world).policy.Paced ts peers (passes + 1) := by
  by_cases hnone : events.countP Event.isTried = 0
  · have hnext : p.group + 1 ≠ (p.enabledGroups peers).length := fun hlast =>
      htries ⟨hlast, haccounts.attempted.trans hnone⟩
    exact h.pass_idle hagrees ho haccounts hnone (Nat.lt_of_le_of_ne h.lt hnext) hfails
  · exact h.pass_busy hagrees ho haccounts hnone hfails

end

/-- No pass among some has given up. -/
def KeepsTrying (start : PollPolicy) (peers : List Peer) (occasions : List (Occasion σ)) : Prop :=
  ∀ earlier o, earlier ++ [o] <+: occasions → ¬(start.after earlier).GivesUp o peers

theorem KeepsTrying.concat {start : PollPolicy} {occasions : List (Occasion σ)}
    (h : start.KeepsTrying peers occasions) (htries : ¬(start.after occasions).GivesUp o peers) :
    start.KeepsTrying peers (occasions ++ [o]) := by
  intro earlier x hprefix
  rcases List.prefix_concat_iff.mp hprefix with hlast | hbefore
  · obtain ⟨rfl, hx⟩ := List.append_inj' hlast rfl
    obtain rfl := List.singleton_inj.mp hx
    exact htries
  · exact h earlier x hbefore

/-- If no round succeeds and the policy does not start over, every failure counts. -/
theorem Accounted.not_clears {start : PollPolicy} {occasions : List (Occasion σ)}
    (h : Accounted start occasions record) (honce : start.settings.retryForever = false)
    (hfails : ∀ e ∈ record, e.isSuccess = false) (uri : String) :
    ∀ e ∈ record, e.clears uri = false := by
  induction h with
  | start => exact List.forall_mem_nil _
  | refused _ _ _ ih => exact ih hfails
  | @pass occasions record events o peers s _ _ _ haccounts ih =>
    have hclosing : (start.after occasions).closing peers events = [] :=
      if_neg fun hclosing => by simp [startsOver, settings_after, honce] at hclosing
    rw [hclosing, List.append_nil] at hfails ⊢
    rw [List.forall_mem_append] at hfails ⊢
    exact ⟨ih hfails.1, haccounts.unfolds.not_clears hfails.2 uri⟩

end

end Courier.PollPolicy
