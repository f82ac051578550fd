import Mathlib
import Courier.Proofs.Router.Posting

/-!
## The outbox as a log

Entries come in with any times and in any order, and those earlier than some time are deleted now and
then. What is left is a log, in the order in which the entries came. The outbox holds the same entries
in the order of their times, those of equal time as they stand in the log.

* `OutboxChange.live`: the log, told from the changes alone.
* `Outbox.InTimeOrder`: the entries of a log in the order of their times.
* `Outbox.inTimeOrder_foldl`: an outbox after any changes.
* `Backend.Keeps`: what a store answers that keeps a log.
-/

namespace Courier

/-- A change of an outbox. -/
inductive OutboxChange
  | append (e : OutboxEntry)
  | deleteBefore (cutoff : Time)
deriving DecidableEq

namespace OutboxChange

/-- Whether a change adds an entry. -/
def isAppend : OutboxChange → Bool
  | append _ => true
  | deleteBefore _ => false

/-- Whether a change deletes an entry if it is there. -/
def deletes (e : OutboxEntry) : OutboxChange → Bool
  | append _ => false
  | deleteBefore cutoff => decide (e.time < cutoff)

/-- The entries that were added and that no later change deleted, in the order in which they came. -/
def live : List OutboxChange → List OutboxEntry
  | [] => []
  | append e :: later => if later.any (deletes e) then live later else e :: live later
  | deleteBefore _ :: later => live later

theorem live_append (changes : List OutboxChange) (e : OutboxEntry) :
    live (changes ++ [append e]) = live changes ++ [e] := by
  induction changes with
  | nil => rfl
  | cons change later ih =>
    cases change with
    | append d =>
      have hany : (later ++ [append e]).any (deletes d) = later.any (deletes d) := by
        rw [List.any_append]
        exact Bool.or_false _
      rw [List.cons_append, live, live, hany, ih]
      split <;> rfl
    | deleteBefore cutoff => exact ih

theorem live_deleteBefore (changes : List OutboxChange) (cutoff : Time) :
    live (changes ++ [deleteBefore cutoff]) =
      (live changes).filter fun e => !decide (e.time < cutoff) := by
  induction changes with
  | nil => rfl
  | cons change later ih =>
    cases change with
    | append d =>
      have hany : (later ++ [deleteBefore cutoff]).any (deletes d) =
          (later.any (deletes d) || decide (d.time < cutoff)) := by
        rw [List.any_append]
        exact congrArg (later.any (deletes d) || ·) (Bool.or_false _)
      rw [List.cons_append, live, live, hany, ih]
      cases later.any (deletes d) with
      | true => rfl
      | false =>
        -- An entry that is still there goes now or stays.
        cases hcut : decide (d.time < cutoff) with
        | true => exact (List.filter_cons_of_neg (by simp [hcut])).symm
        | false => exact (List.filter_cons_of_pos (by simp [hcut])).symm
    | deleteBefore _ => exact ih

end OutboxChange

namespace Outbox

open OutboxChange

/-- The entries of a log in the order of their times, those of equal time as they stand in it. -/
structure InTimeOrder (log es : List OutboxEntry) : Prop where
  perm : es.Perm log
  sorted : es.Pairwise fun a b => a.time ≤ b.time
  stable : ∀ t, es.filter (fun e => decide (e.time = t)) =
    log.filter fun e => decide (e.time = t)

theorem InTimeOrder.filter {log es : List OutboxEntry} (h : InTimeOrder log es)
    (p : OutboxEntry → Bool) : InTimeOrder (log.filter p) (es.filter p) where
  perm := h.perm.filter p
  sorted := h.sorted.filter p
  stable t := by rw [List.filter_comm, h.stable t, List.filter_comm]

/-- Among the entries of one time, an added one is the last. -/
theorem filter_time_append {o : Outbox} (h : o.Pairwise fun a b => a.time ≤ b.time)
    (e : OutboxEntry) (t : Time) :
    (o.append e).filter (fun d => decide (d.time = t)) =
      (o ++ [e]).filter fun d => decide (d.time = t) := by
  induction o with
  | nil => rfl
  | cons d rest ih =>
    obtain ⟨hd, hrest⟩ := List.pairwise_cons.mp h
    unfold append
    split
    · rename_i hlt
      -- All that the entry is put in front of is later.
      have hlater : ∀ x ∈ d :: rest, x.time ≠ e.time := by
        intro x hx heq
        rcases List.mem_cons.mp hx with rfl | hx
        · exact Int64.ne_of_lt hlt heq.symm
        · exact Int64.ne_of_lt (Int64.lt_of_lt_of_le hlt (hd x hx)) heq.symm
      by_cases ht : e.time = t
      · subst ht
        have hnone : (d :: rest).filter (fun x => decide (x.time = e.time)) = [] := by
          rw [List.filter_eq_nil_iff]
          intro x hx
          simpa using hlater x hx
        rw [List.filter_append, List.filter_cons, hnone, List.nil_append, List.filter_cons,
          List.filter_nil]
      · have hother : [e].filter (fun x => decide (x.time = t)) = [] :=
          List.filter_cons_of_neg (by simpa using ht)
        rw [List.filter_append, hother, List.append_nil, List.filter_cons_of_neg (by simpa using ht)]
    · rw [List.cons_append, List.filter_cons, List.filter_cons, ih hrest]

theorem InTimeOrder.append {log o : List OutboxEntry} (h : InTimeOrder log o) (e : OutboxEntry) :
    InTimeOrder (log ++ [e]) (Outbox.append e o) where
  perm := (append_perm e o).trans ((h.perm.cons e).trans (List.perm_append_singleton e log).symm)
  sorted := pairwise_append e h.sorted
  stable t := by rw [filter_time_append h.sorted, List.filter_append, List.filter_append, h.stable t]

/-- The outbox after a change. -/
def change (o : Outbox) : OutboxChange → Outbox
  | .append e => o.append e
  | .deleteBefore cutoff => (o.deleteBefore cutoff).2

/-- **After any changes, the outbox holds what is live in the order of time.** -/
theorem inTimeOrder_foldl (changes : List OutboxChange) :
    InTimeOrder (live changes) (changes.foldl change []) := by
  -- By induction on the last change, which changes the log and the outbox alike.
  induction changes using List.reverseRecOn with
  | nil => exact ⟨.refl _, .nil, fun _ => rfl⟩
  | append_singleton changes change ih =>
    rw [List.foldl_append, List.foldl_cons, List.foldl_nil]
    cases change with
    | append e =>
      rw [live_append]
      exact ih.append e
    | deleteBefore cutoff =>
      rw [live_deleteBefore]
      exact ih.filter _

theorem isWanted_eq (after : Time) (channels : List String) (e : OutboxEntry) :
    isWanted after channels e =
      decide (after < e.time ∧ (channels = [] ∨ e.channel ∈ channels)) := by
  rw [isWanted, Bool.decide_and, Bool.decide_or, List.contains_eq_mem]
  cases channels <;> rfl

end Outbox

namespace Backend

open OutboxChange Outbox

/-- The store after a change of its outbox. -/
def change (b : Backend) : OutboxChange → Except StoreError Backend
  | .append e => b.append e
  | .deleteBefore cutoff => (b.deleteBefore cutoff).map Prod.snd

/-- The store after changes of its outbox, one after the other. -/
def changeAll (b : Backend) (changes : List OutboxChange) : Except StoreError Backend :=
  changes.foldlM change b

/-- What a store answers whose outbox keeps a log. It holds the entries of the log in the order of
their times, and finds those that are asked for. What is deleted is counted. -/
structure Keeps (b : Backend) (log : List OutboxEntry) : Prop where
  outbox : InTimeOrder log b.store.outbox
  since : ∀ after channels, ∃ es, b.since after channels = .ok es ∧
    InTimeOrder (log.filter fun e =>
      decide (after < e.time ∧ (channels = [] ∨ e.channel ∈ channels))) es
  deleteBefore : ∀ cutoff, ∃ b',
    b.deleteBefore cutoff = .ok (log.countP fun e => decide (e.time < cutoff), b') ∧
      InTimeOrder (log.filter fun e => !decide (e.time < cutoff)) b'.store.outbox
  outboxLength : b.outboxLength = .ok log.length

theorem attempt_of_up {b : Backend} (hup : b.down = []) {β : Type} (call : StoreCall) (result : β) :
    b.attempt call result = .ok result := by
  rw [attempt, hup]
  rfl

theorem deleteBefore_of_up {b : Backend} (hup : b.down = []) (cutoff : Time) :
    b.deleteBefore cutoff = .ok ((b.store.outbox.deleteBefore cutoff).1,
      { b with store.outbox := (b.store.outbox.deleteBefore cutoff).2 }) :=
  attempt_of_up hup _ _

theorem exists_change {b : Backend} (hup : b.down = []) (change : OutboxChange) :
    ∃ b', b.change change = .ok b' ∧ b'.down = [] ∧
      b'.store.outbox = Outbox.change b.store.outbox change := by
  cases change with
  | append e => exact ⟨_, attempt_of_up hup _ _, hup, rfl⟩
  | deleteBefore cutoff =>
    rw [Backend.change, deleteBefore_of_up hup]
    exact ⟨_, rfl, hup, rfl⟩

/-- A store that is in service changes its outbox. -/
theorem exists_changeAll {b : Backend} (hup : b.down = []) (changes : List OutboxChange) :
    ∃ b', b.changeAll changes = .ok b' ∧ b'.down = [] ∧
      b'.store.outbox = changes.foldl Outbox.change b.store.outbox := by
  induction changes generalizing b with
  | nil => exact ⟨b, rfl, hup, rfl⟩
  | cons change later ih =>
    obtain ⟨b₁, hb₁, hup₁, houtbox₁⟩ := exists_change hup change
    obtain ⟨b', hb', hup', houtbox⟩ := ih hup₁
    refine ⟨b', ?_, hup', ?_⟩
    · rw [changeAll, List.foldlM_cons, hb₁]
      exact hb'
    · rw [houtbox, houtbox₁, List.foldl_cons]

theorem keeps_of_inTimeOrder {b : Backend} (hup : b.down = []) {log : List OutboxEntry}
    (h : InTimeOrder log b.store.outbox) : b.Keeps log where
  outbox := h
  since after channels := by
    refine ⟨_, attempt_of_up hup _ _, ?_⟩
    simp only [← isWanted_eq]
    exact h.filter _
  deleteBefore cutoff := by
    rw [deleteBefore_of_up hup, Outbox.deleteBefore, h.perm.countP_eq]
    exact ⟨_, rfl, h.filter _⟩
  outboxLength := by rw [Backend.outboxLength, attempt_of_up hup, h.perm.length_eq]

end Backend

end Courier
