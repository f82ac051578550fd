import Mathlib
import Courier.PollPolicy

/-!
## One pass of polling

A pass gives a turn to every enabled peer of one group, in their order. At its turn a peer is tried if
its address has not failed too often by then and there is a transport for its scheme, and is skipped
otherwise. A pass that has tried nobody moves the policy on to the next group or, behind the last,
starts over or stays.

* `turns`: the peers that have their turn.
* `visit_cases`: all that can become of a peer at its turn.
* `pass_eq`: a pass is the turns of its peers, and then the move of the policy.
-/

namespace Courier.PollPolicy

/-! ### Who has a turn -/

/-- The groups of the enabled peers, as a pass counts them. -/
def enabledGroups (p : PollPolicy) (peers : List Peer) : List String :=
  p.groups (peers.filter Peer.enabled)

/-- The group that a pass is over, if there is any. -/
def currentGroup? (p : PollPolicy) (peers : List Peer) : Option String :=
  (p.enabledGroups peers)[min p.group ((p.enabledGroups peers).length - 1)]?

/-- The peers that have a turn in a pass: the enabled ones of the current group. -/
def turns (p : PollPolicy) (peers : List Peer) : List Peer :=
  peers.filter fun peer => peer.enabled && p.currentGroup? peers == some peer.group

/-- A pass that tries nobody starts over, with all failures forgotten. -/
def startsOver (p : PollPolicy) (peers : List Peer) : Bool :=
  (p.currentGroup? peers).isSome && !decide (p.group + 1 < (p.enabledGroups peers).length) &&
    p.settings.retryForever

variable {p : PollPolicy} {peers : List Peer}

theorem mem_turns {peer : Peer} :
    peer ∈ p.turns peers ↔
      peer ∈ peers ∧ peer.enabled = true ∧ p.currentGroup? peers = some peer.group := by
  rw [turns, List.mem_filter, Bool.and_eq_true, beq_iff_eq]

theorem turns_of_no_group (h : p.currentGroup? peers = none) : p.turns peers = [] := by
  rw [turns, List.filter_eq_nil_iff]
  intro peer _
  simp [h]

/-! ### A turn -/

section

variable {σ : Type}

/-- **All that can become of a peer at its turn**: it is skipped, or a round with it is had. -/
theorem visit_cases (ts : Transports) (round : Transport → String → σ → Bool × σ) (s : Pass σ)
    (peer : Peer) :
    (¬(s.policy.failureCount peer.uri < s.policy.settings.retryCeiling ∧
        (ts.find? peer.scheme).isSome = true) ∧
      visit ts round s peer =
        { s with report := { s.report with skipped := s.report.skipped + 1 } }) ∨
    ∃ t, s.policy.failureCount peer.uri < s.policy.settings.retryCeiling ∧
      ts.find? peer.scheme = some t ∧
      visit ts round s peer =
        { policy := s.policy.count peer.uri (round t peer.address s.world).1
          report := { s.report with
            attempted := s.report.attempted + 1
            succeeded := s.report.succeeded +
              if (round t peer.address s.world).1 then 1 else 0 }
          world := (round t peer.address s.world).2 } := by
  unfold visit transport?
  by_cases hcount : s.policy.settings.retryCeiling ≤ s.policy.failureCount peer.uri
  · rw [if_pos hcount]
    exact .inl ⟨fun h => Nat.not_lt.mpr hcount h.1, rfl⟩
  · rw [if_neg hcount]
    cases ht : ts.find? peer.scheme with
    | none => exact .inl ⟨fun h => Bool.noConfusion h.2, rfl⟩
    | some t => exact .inr ⟨t, Nat.not_le.mp hcount, rfl, rfl⟩

theorem settings_count (p : PollPolicy) (uri : String) (succeeded : Bool) :
    (p.count uri succeeded).settings = p.settings := by
  cases succeeded <;> rfl

theorem group_count (p : PollPolicy) (uri : String) (succeeded : Bool) :
    (p.count uri succeeded).group = p.group := by
  cases succeeded <;> rfl

/-- A turn changes neither the settings nor the group. -/
theorem visit_keeps (ts : Transports) (round : Transport → String → σ → Bool × σ) (s : Pass σ)
    (peer : Peer) :
    (visit ts round s peer).policy.settings = s.policy.settings ∧
      (visit ts round s peer).policy.group = s.policy.group := by
  rcases visit_cases ts round s peer with ⟨_, hvisit⟩ | ⟨t, _, _, hvisit⟩
  · rw [hvisit]
    exact ⟨rfl, rfl⟩
  · rw [hvisit]
    exact ⟨settings_count _ _ _, group_count _ _ _⟩

/-- The turns of some peers, one after the other. -/
def visitAll (ts : Transports) (round : Transport → String → σ → Bool × σ) (s : Pass σ)
    (peers : List Peer) : Pass σ :=
  peers.foldl (visit ts round) s

theorem visitAll_keeps (ts : Transports) (round : Transport → String → σ → Bool × σ) (s : Pass σ)
    (peers : List Peer) :
    (visitAll ts round s peers).policy.settings = s.policy.settings ∧
      (visitAll ts round s peers).policy.group = s.policy.group := by
  induction peers generalizing s with
  | nil => exact ⟨rfl, rfl⟩
  | cons peer rest ih =>
    obtain ⟨hsettings, hgroup⟩ := visit_keeps ts round s peer
    obtain ⟨hsettings', hgroup'⟩ := ih (visit ts round s peer)
    exact ⟨hsettings'.trans hsettings, hgroup'.trans hgroup⟩

/-- What the rounds leave of the world has every property that each round preserves. -/
theorem world_visitAll {P : σ → Prop} (ts : Transports)
    {round : Transport → String → σ → Bool × σ}
    (hround : ∀ t address world, P world → P (round t address world).2) {s : Pass σ}
    (hs : P s.world) (peers : List Peer) : P (visitAll ts round s peers).world := by
  induction peers generalizing s with
  | nil => exact hs
  | cons peer rest ih =>
    refine ih ?_
    rcases visit_cases ts round s peer with ⟨_, hvisit⟩ | ⟨t, _, _, hvisit⟩
    · rw [hvisit]
      exact hs
    · rw [hvisit]
      exact hround t _ _ hs

/-! ### A pass -/

theorem settings_advance (p : PollPolicy) (count : Nat) :
    (p.advance count).settings = p.settings := by
  unfold advance
  split
  · rfl
  · split <;> rfl

theorem group_advance (p : PollPolicy) (count : Nat) :
    (p.advance count).group =
      if p.group + 1 < count then p.group + 1 else if p.settings.retryForever then 0 else p.group := by
  unfold advance
  split
  · rfl
  · split <;> rfl

/-- The turns of a pass. -/
def takeTurns (p : PollPolicy) (ts : Transports) (round : Transport → String → σ → Bool × σ)
    (peers : List Peer) (world : σ) : Pass σ :=
  visitAll ts round ⟨p, { group := p.currentGroup? peers }, world⟩ (p.turns peers)

/-- **A pass is the turns of its peers**, and then the move of the policy if nobody was tried. -/
theorem pass_eq (p : PollPolicy) (ts : Transports) (round : Transport → String → σ → Bool × σ)
    (peers : List Peer) (world : σ) :
    p.pass ts round peers world =
      if (p.currentGroup? peers).isSome = true ∧
          (p.takeTurns ts round peers world).report.attempted = 0 then
        { p.takeTurns ts round peers world with
          policy := (p.takeTurns ts round peers world).policy.advance
            (p.enabledGroups peers).length }
      else p.takeTurns ts round peers world := by
  cases hgroup : p.currentGroup? peers with
  | none =>
    have hnone : (p.groups (peers.filter Peer.enabled))[min p.group
        ((p.groups (peers.filter Peer.enabled)).length - 1)]? = none := hgroup
    rw [if_neg (by simp), takeTurns, turns_of_no_group hgroup, hgroup]
    simp only [pass, hnone]
    rfl
  | some group =>
    have hsome : (p.groups (peers.filter Peer.enabled))[min p.group
        ((p.groups (peers.filter Peer.enabled)).length - 1)]? = some group := hgroup
    have hturns : ((peers.filter Peer.enabled).filter fun peer => peer.group == group) =
        p.turns peers := by
      rw [List.filter_filter, turns, hgroup]
      refine List.filter_congr fun peer _ => ?_
      rw [Bool.and_comm, Option.some_beq_some]
      congr 1
      exact BEq.comm
    simp only [pass, hsome, hturns, Option.isSome_some, true_and, takeTurns, hgroup]
    rfl

end

end Courier.PollPolicy
