import Mathlib
import Courier.Discovery.Negotiator

/-!
## The election between two nodes

Two nodes announce themselves, each time under a new rank, and hear some of what the other has
announced: in any order, late, more than once or not at all. A node decides about the other when it
hears it for the first time, by the rank that it holds at that moment.

* `Encounter.Step`: one announcement, or one hearing.
* `Encounter.Settled`: the invariant. What a node hears of the other was announced; the first of it
  decides, and everything after it is ignored.
* `Encounter.crossed`: a run in which announcements cross.
* `Encounter.initiative_iff`: one of the two takes the initiative exactly when one of them held a
  rank that was at most the one it heard. The two ranks that a node heard and held may each be
  older or newer than those of the other, so this does not always happen.
* `Encounter.exists_both_wait`: whatever ranks lie so that it does not, some run comes to them.
-/

namespace Courier

/-- One of the two nodes. -/
inductive Side
  | left
  | right
deriving DecidableEq

/-- The other node. -/
def Side.other : Side → Side
  | .left => .right
  | .right => .left

/-- What a node made of an announcement of the other. -/
structure Hearing where
  /-- The rank that the node held when it heard the announcement. -/
  own : UInt64
  announcement : Advertisement
  decision : Decision

/-- What a rank held and a rank heard lead to at the first hearing. -/
def Hearing.Decides (h : Hearing) : Prop :=
  h.decision = if shouldInitiate h.own h.announcement.rank then .initiate else .wait

theorem Hearing.Decides.initiate_iff {h : Hearing} (hd : h.Decides) :
    h.decision = .initiate ↔ h.own ≤ h.announcement.rank := by
  rw [hd, shouldInitiate]
  by_cases hle : h.own ≤ h.announcement.rank <;> simp [hle]

theorem Hearing.Decides.wait_iff {h : Hearing} (hd : h.Decides) :
    h.decision = .wait ↔ h.announcement.rank < h.own := by
  rw [hd, shouldInitiate, ← UInt64.not_le]
  by_cases hle : h.own ≤ h.announcement.rank <;> simp [hle]

/-- Two nodes, what each has announced so far, and what each has heard of the other so far. -/
structure Encounter where
  node : Side → Negotiator
  sent : Side → List Advertisement
  heard : Side → List Hearing

namespace Encounter

/-- Two nodes that have not announced anything yet. -/
def fresh (left right : Negotiator) : Encounter where
  node
    | .left => left
    | .right => right
  sent _ := []
  heard _ := []

/-- A node announces itself under a new rank. -/
def advertise (e : Encounter) (s : Side) (address : String) (rank : UInt64) : Encounter :=
  let (a, n) := (e.node s).advertise address rank
  { e with
    node := Function.update e.node s n
    sent := Function.update e.sent s (e.sent s ++ [a]) }

/-- A node hears an announcement. -/
def observe (e : Encounter) (s : Side) (a : Advertisement) : Encounter :=
  let (decision, n) := (e.node s).observe a
  { e with
    node := Function.update e.node s n
    heard := Function.update e.heard s (e.heard s ++ [⟨(e.node s).rank, a, decision⟩]) }

/-- What can happen next: an announcement under any rank, or the arrival of anything that the other
node has ever announced. -/
inductive Step : Encounter → Encounter → Prop
  | advertise (e : Encounter) (s : Side) (address : String) (rank : UInt64) :
    Step e (e.advertise s address rank)
  | observe (e : Encounter) (s : Side) (a : Advertisement) (h : a ∈ e.sent s.other) :
    Step e (e.observe s a)

/-- What can happen in any number of steps. -/
abbrev Run : Encounter → Encounter → Prop := Relation.ReflTransGen Step

/-! ### The first hearing decides -/

/-- Of what a node has heard of the other, the first decides and the rest is ignored. -/
def FirstDecides : List Hearing → Prop
  | [] => True
  | first :: later => first.Decides ∧ ∀ h ∈ later, h.decision = .ignore

theorem FirstDecides.append {hs : List Hearing} {h : Hearing} (hf : FirstDecides hs)
    (hne : hs ≠ []) (hi : h.decision = .ignore) : FirstDecides (hs ++ [h]) := by
  cases hs with
  | nil => exact absurd rfl hne
  | cons first later =>
    refine ⟨hf.1, fun g hg => ?_⟩
    rcases List.mem_append.mp hg with hg | hg
    · exact hf.2 g hg
    · rw [List.mem_singleton.mp hg]
      exact hi

/-- Exactly one hearing decides, as soon as there is any. -/
theorem FirstDecides.exists_filter_eq {hs : List Hearing} (hf : FirstDecides hs) (hne : hs ≠ []) :
    ∃ h : Hearing, h.Decides ∧ hs.filter (fun h => h.decision ≠ .ignore) = [h] := by
  cases hs with
  | nil => exact absurd rfl hne
  | cons first later =>
    obtain ⟨hd, hlater⟩ := hf
    have hfirst : first.decision ≠ .ignore := by
      rw [hd]
      split <;> decide
    have hrest : later.filter (fun h => h.decision ≠ .ignore) = [] := by
      rw [List.filter_eq_nil_iff]
      intro h hh
      simp [hlater h hh]
    exact ⟨first, hd, by rw [List.filter_cons, if_pos (by simpa using hfirst), hrest]⟩

/-! ### The invariant -/

/-- What holds of a node and what it has heard of another, by their names. -/
structure Knows (n : Negotiator) (name other : String) (hs : List Hearing) : Prop where
  named : n.node = name
  /-- A node knows the other exactly when it has heard of it. -/
  known : n.decided.contains other = true ↔ hs ≠ []
  first : FirstDecides hs

theorem knows_fresh {n : Negotiator} (h : n.decided = .empty) (other : String) :
    Knows n n.node other [] where
  named := rfl
  known := by simp [h, Table.contains]
  first := trivial

/-- At the first hearing of another node the ranks decide. -/
theorem observe_of_unknown {n : Negotiator} {a : Advertisement} (hne : a.node ≠ n.node)
    (hu : n.decided.contains a.node = false) :
    (n.observe a).1 = (if shouldInitiate n.rank a.rank then .initiate else .wait) ∧
      (n.observe a).2.node = n.node ∧ (n.observe a).2.decided.contains a.node = true := by
  rw [Negotiator.observe, if_neg (by simp [hne, hu])]
  simp [Table.contains, Table.find?_insert]

theorem observe_of_known {n : Negotiator} {a : Advertisement}
    (hk : n.decided.contains a.node = true) : n.observe a = (.ignore, n) := by
  rw [Negotiator.observe, if_pos (Or.inr hk)]

/-- One more hearing decides if it is the first, and is ignored otherwise. -/
theorem Knows.observe {n : Negotiator} {name : String} {hs : List Hearing} {a : Advertisement}
    (h : Knows n name a.node hs) (hne : a.node ≠ name) :
    Knows (n.observe a).2 name a.node (hs ++ [⟨n.rank, a, (n.observe a).1⟩]) := by
  have hheard : hs ++ [⟨n.rank, a, (n.observe a).1⟩] ≠ [] := by simp
  by_cases hk : n.decided.contains a.node = true
  · have hobs := observe_of_known hk
    have hsome := h.known.mp hk
    refine ⟨?_, ?_, h.first.append hsome (by rw [hobs])⟩
    · rw [hobs]
      exact h.named
    · rw [hobs]
      exact iff_of_true hk (by simp)
  · have hnone : hs = [] := by
      by_contra hsome
      exact hk (h.known.mpr hsome)
    obtain ⟨hdecision, hnode, hcontains⟩ :=
      observe_of_unknown (h.named ▸ hne) (Bool.not_eq_true _ ▸ hk)
    refine ⟨hnode.trans h.named, iff_of_true hcontains hheard, ?_⟩
    rw [hnone]
    exact ⟨hdecision, fun _ hg => absurd hg List.not_mem_nil⟩

/-- What holds of two nodes with certain names at any time. -/
structure Settled (name : Side → String) (e : Encounter) : Prop where
  /-- Announcements bear the name of their sender. -/
  signed : ∀ s, ∀ a ∈ e.sent s, a.node = name s
  /-- What a node has heard, the other has announced. -/
  announced : ∀ s, ∀ h ∈ e.heard s, h.announcement ∈ e.sent s.other
  knows : ∀ s, Knows (e.node s) (name s) (name s.other) (e.heard s)

theorem settled_fresh {left right : Negotiator} (hl : left.decided = .empty)
    (hr : right.decided = .empty) :
    Settled (fun s => ((fresh left right).node s).node) (fresh left right) where
  signed s a ha := absurd ha List.not_mem_nil
  announced s h hh := absurd hh List.not_mem_nil
  knows s := by
    cases s with
    | left => exact knows_fresh hl _
    | right => exact knows_fresh hr _

theorem Settled.advertise {name : Side → String} {e : Encounter} (h : Settled name e) (s : Side)
    (address : String) (rank : UInt64) : Settled name (e.advertise s address rank) := by
  have hsent : ∀ t, e.sent t ⊆ (e.advertise s address rank).sent t := by
    intro t
    rcases eq_or_ne t s with rfl | hts
    · simp [Encounter.advertise]
    · simp [Encounter.advertise, Function.update_of_ne hts]
  refine ⟨fun t a ha => ?_, fun t g hg => hsent t.other (h.announced t g hg), fun t => ?_⟩
  · rcases eq_or_ne t s with rfl | hts
    · simp only [Encounter.advertise, Function.update_self, List.mem_append,
        List.mem_singleton] at ha
      rcases ha with ha | ha
      · exact h.signed t a ha
      · rw [ha]
        exact (h.knows t).named
    · simp only [Encounter.advertise, Function.update_of_ne hts] at ha
      exact h.signed t a ha
  -- A new rank changes neither the name of a node nor what it has decided.
  · rcases eq_or_ne t s with rfl | hts
    · simp only [Encounter.advertise, Negotiator.advertise, Function.update_self]
      exact ⟨(h.knows t).named, (h.knows t).known, (h.knows t).first⟩
    · simp only [Encounter.advertise, Function.update_of_ne hts]
      exact h.knows t

theorem Settled.observe {name : Side → String} {e : Encounter} (h : Settled name e)
    (hname : name .left ≠ name .right) (s : Side) {a : Advertisement} (ha : a ∈ e.sent s.other) :
    Settled name (e.observe s a) := by
  have hfrom : a.node = name s.other := h.signed s.other a ha
  have hne : a.node ≠ name s := by
    rw [hfrom]
    cases s with
    | left => exact hname.symm
    | right => exact hname
  refine ⟨h.signed, fun t g hg => ?_, fun t => ?_⟩
  · rcases eq_or_ne t s with rfl | hts
    · simp only [Encounter.observe, Function.update_self, List.mem_append,
        List.mem_singleton] at hg
      rcases hg with hg | hg
      · exact h.announced t g hg
      · rw [hg]
        exact ha
    · simp only [Encounter.observe, Function.update_of_ne hts] at hg
      exact h.announced t g hg
  · rcases eq_or_ne t s with rfl | hts
    · have hknows := h.knows t
      rw [← hfrom] at hknows ⊢
      simp only [Encounter.observe, Function.update_self]
      exact hknows.observe hne
    · simp only [Encounter.observe, Function.update_of_ne hts]
      exact h.knows t

/-- The invariant holds along every run. -/
theorem Settled.run {name : Side → String} {e e' : Encounter} (h : Settled name e)
    (hname : name .left ≠ name .right) (hrun : Run e e') : Settled name e' := by
  induction hrun with
  | refl => exact h
  | tail _ hstep ih =>
    cases hstep with
    | advertise s address rank => exact ih.advertise s address rank
    | observe s a ha => exact ih.observe hname s ha

/-! ### Announcements that cross -/

/-- Each of two nodes announces itself twice, and then each hears the first announcement of the
other. -/
def crossed (left right : Negotiator) (address : Side → String) (first next : Side → UInt64) :
    Encounter :=
  let e := ((fresh left right).advertise .left (address .left) (first .left)).advertise .right
    (address .right) (first .right)
  let e := (e.advertise .left (address .left) (next .left)).advertise .right (address .right)
    (next .right)
  (e.observe .left ⟨right.node, address .right, first .right⟩).observe .right
    ⟨left.node, address .left, first .left⟩

theorem run_crossed (left right : Negotiator) (address : Side → String)
    (first next : Side → UInt64) :
    Run (fresh left right) (crossed left right address first next) := by
  have hsent := (((Relation.ReflTransGen.single
    (Step.advertise (fresh left right) .left (address .left) (first .left))).tail
    (Step.advertise _ .right (address .right) (first .right))).tail
    (Step.advertise _ .left (address .left) (next .left))).tail
    (Step.advertise _ .right (address .right) (next .right))
  refine (hsent.tail (Step.observe _ .left _ ?_)).tail (Step.observe _ .right _ ?_)
  · simp [Side.other, advertise, Negotiator.advertise, fresh, Function.update]
  · simp [Side.other, observe, advertise, Negotiator.advertise, fresh, Function.update]

/-- What a node hears is compared with its next rank, which the other has not heard. -/
theorem heard_crossed (left right : Negotiator) (hname : left.node ≠ right.node)
    (hl : left.decided = .empty) (hr : right.decided = .empty) (address : Side → String)
    (first next : Side → UInt64) :
    (crossed left right address first next).heard .left =
        [⟨next .left, ⟨right.node, address .right, first .right⟩,
          if shouldInitiate (next .left) (first .right) then .initiate else .wait⟩] ∧
      (crossed left right address first next).heard .right =
        [⟨next .right, ⟨left.node, address .left, first .left⟩,
          if shouldInitiate (next .right) (first .left) then .initiate else .wait⟩] := by
  constructor <;>
    simp [crossed, observe, advertise, Negotiator.advertise, Negotiator.observe, fresh,
      Function.update, hname, hname.symm, hl, hr, Table.contains]

/-! ### Who takes the initiative -/

/-- **The election**: when two nodes of different names have heard of each other, each has decided
exactly once, and one of them takes the initiative exactly when one of them held a rank that was at
most the one it heard; otherwise each waits for the other. So one of them does if each still held
the rank that the other heard. -/
theorem initiative_iff {left right : Negotiator} (hname : left.node ≠ right.node)
    (hl : left.decided = .empty) (hr : right.decided = .empty) {e : Encounter}
    (hrun : Run (fresh left right) e) (hheard : ∀ s, e.heard s ≠ []) :
    ∃ l r : Hearing,
      (e.heard .left).filter (fun h => h.decision ≠ .ignore) = [l] ∧
      (e.heard .right).filter (fun h => h.decision ≠ .ignore) = [r] ∧
      l.announcement ∈ e.sent .right ∧ r.announcement ∈ e.sent .left ∧
      (l.decision = .initiate ∨ r.decision = .initiate ↔
        l.own ≤ l.announcement.rank ∨ r.own ≤ r.announcement.rank) ∧
      (l.decision = .wait ∧ r.decision = .wait ↔
        l.announcement.rank < l.own ∧ r.announcement.rank < r.own) ∧
      (l.own = r.announcement.rank → r.own = l.announcement.rank →
        l.decision = .initiate ∨ r.decision = .initiate) := by
  have h := (settled_fresh hl hr).run hname hrun
  obtain ⟨l, hld, hlf⟩ := (h.knows .left).first.exists_filter_eq (hheard .left)
  obtain ⟨r, hrd, hrf⟩ := (h.knows .right).first.exists_filter_eq (hheard .right)
  have hlmem : l ∈ e.heard .left := (List.mem_filter.mp (hlf ▸ List.mem_singleton_self l)).1
  have hrmem : r ∈ e.heard .right := (List.mem_filter.mp (hrf ▸ List.mem_singleton_self r)).1
  refine ⟨l, r, hlf, hrf, h.announced .left l hlmem, h.announced .right r hrmem,
    or_congr hld.initiate_iff hrd.initiate_iff, and_congr hld.wait_iff hrd.wait_iff, ?_⟩
  intro hlo hro
  rw [hld.initiate_iff, hrd.initiate_iff, hlo, hro]
  exact UInt64.le_total _ _

/-- The left node holds 2 when it hears 3, and the right node holds 9 when it hears 7. -/
theorem initiative_iff_two_three_nine_seven :
    ∃ e, Run (fresh { node := "a", rank := 1 } { node := "b", rank := 4 }) e ∧
      (∀ s, e.heard s ≠ []) ∧
      ∃ l r : Hearing,
        (e.heard .left).filter (fun h => h.decision ≠ .ignore) = [l] ∧
        (e.heard .right).filter (fun h => h.decision ≠ .ignore) = [r] ∧
        l.announcement ∈ e.sent .right ∧ r.announcement ∈ e.sent .left ∧
        (l.decision = .initiate ∨ r.decision = .initiate ↔
          l.own ≤ l.announcement.rank ∨ r.own ≤ r.announcement.rank) ∧
        (l.decision = .wait ∧ r.decision = .wait ↔
          l.announcement.rank < l.own ∧ r.announcement.rank < r.own) ∧
        (l.own = r.announcement.rank → r.own = l.announcement.rank →
          l.decision = .initiate ∨ r.decision = .initiate) := by
  have hrun := run_crossed { node := "a", rank := 1 } { node := "b", rank := 4 }
    (fun _ => "tcp://h:1") (fun s => if s = .left then 7 else 3)
    (fun s => if s = .left then 2 else 9)
  have hheard : ∀ s, (crossed { node := "a", rank := 1 } { node := "b", rank := 4 }
      (fun _ => "tcp://h:1") (fun s => if s = .left then 7 else 3)
      (fun s => if s = .left then 2 else 9)).heard s ≠ [] := by
    intro s
    obtain ⟨hleft, hright⟩ := heard_crossed { node := "a", rank := 1 } { node := "b", rank := 4 }
      (by decide) rfl rfl (fun _ => "tcp://h:1") (fun s => if s = .left then 7 else 3)
      (fun s => if s = .left then 2 else 9)
    cases s with
    | left => rw [hleft]; exact List.cons_ne_nil _ _
    | right => rw [hright]; exact List.cons_ne_nil _ _
  exact ⟨_, hrun, hheard, initiative_iff (by decide) rfl rfl hrun hheard⟩

/-- Whatever the ranks, if each node has announced one below the next rank of the other, there is a
run at whose end each waits for the other. -/
theorem exists_both_wait (left right : Negotiator) (hname : left.node ≠ right.node)
    (hl : left.decided = .empty) (hr : right.decided = .empty) (first next : Side → UInt64)
    (h : ∀ s, first s.other < next s) :
    ∃ e, Run (fresh left right) e ∧ ∀ s, (e.heard s).map Hearing.decision = [.wait] := by
  have hwait : ∀ s, shouldInitiate (next s) (first s.other) = false := by
    intro s
    rw [shouldInitiate, decide_eq_false_iff_not, UInt64.not_le]
    exact h s
  refine ⟨_, run_crossed left right (fun _ => "") first next, fun s => ?_⟩
  obtain ⟨hleft, hright⟩ := heard_crossed left right hname hl hr (fun _ => "") first next
  cases s with
  | left =>
    have hw : shouldInitiate (next .left) (first .right) = false := hwait .left
    rw [hleft, hw]
    rfl
  | right =>
    have hw : shouldInitiate (next .right) (first .left) = false := hwait .right
    rw [hright, hw]
    rfl

/-- Both nodes first announce the rank 0 and then 5, and each hears the 0 of the other: although
each has heard of the other, neither takes the initiative. -/
theorem not_initiate_after_new_ranks :
    ∃ e, Run (fresh { node := "a", rank := 9 } { node := "b", rank := 9 }) e ∧
      (∀ s, e.heard s ≠ []) ∧ ∀ s, ∀ h ∈ e.heard s, h.decision ≠ .initiate := by
  obtain ⟨e, hrun, hwait⟩ := exists_both_wait { node := "a", rank := 9 }
    { node := "b", rank := 9 } (by decide) rfl rfl (fun _ => 0) (fun _ => 5) (fun _ => by decide)
  refine ⟨e, hrun, fun s hs => ?_, fun s h hh hi => ?_⟩
  · simpa [hs] using hwait s
  · have hmem := List.mem_map_of_mem (f := Hearing.decision) hh
    rw [hwait s, hi] at hmem
    simp at hmem

end Encounter

end Courier
