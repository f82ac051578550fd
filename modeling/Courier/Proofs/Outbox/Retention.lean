import Mathlib
import Courier.PollPolicy
import Courier.Proofs.Outbox.Numbered

/-!
## Entries past their age

An entry may stay in the outbox for some seconds, of which the settings may ask for more than there
are in all of time. The cutoff is therefore found in times that stop at the last of them. Nothing that
is dropped or kept depends on that: a length of time that is cut short still reaches back beyond the
beginning of the clock, where no entry is.

* `Time.toInt_clamp`: the nearest time to a number.
* `PollPolicy.toInt_cutoff`: the cutoff as a number.
* `PollPolicy.flush_exact`: what is dropped is what is past its age, told in numbers without bounds.
-/

namespace Courier

namespace Time

theorem toInt_first : first.toInt = -9223372036854775808 := rfl

/-- The nearest time to a number, which is the number itself if that is a time. -/
theorem toInt_clamp (n : Int) : (clamp n).toInt = max first.toInt (min n last.toInt) := by
  rw [clamp]
  split_ifs with hearly hlate
  · rw [toInt_first, toInt_last] at *
    omega
  · rw [toInt_first, toInt_last] at *
    omega
  · rw [toInt_first, toInt_last] at *
    rw [Int64.toInt_ofInt_of_le (by omega) (by omega)]
    omega

end Time

namespace PollPolicy

variable (p : PollPolicy) {now : Time} {b : Backend}

/-- The nanoseconds for which an entry may stay, as a number without bounds. -/
def retention : Int := p.settings.retentionSeconds * 10 ^ 9

/-- Whether an entry is past its age, told in numbers without bounds. -/
def IsPast (now : Time) (e : OutboxEntry) : Prop := e.time.toInt < now.toInt - p.retention

instance (now : Time) : DecidablePred (p.IsPast now) :=
  fun e => Int.decLt e.time.toInt (now.toInt - p.retention)

/-! ### The cutoff -/

theorem toInt_clamp_retentionSeconds :
    (Time.clamp p.settings.retentionSeconds).toInt =
      min (p.settings.retentionSeconds : Int) Time.last.toInt := by
  rw [Time.toInt_clamp, Time.toInt_first, Time.toInt_last]
  omega

/-- A product that is cut short is cut to the last time, whether or not a factor was. -/
theorem toInt_scale_retentionSeconds :
    ((Time.clamp p.settings.retentionSeconds).scale Time.second).toInt =
      min p.retention Time.last.toInt := by
  rw [Time.scale, Time.toInt_clamp, toInt_clamp_retentionSeconds, Time.toInt_first,
    Time.toInt_last, Time.second, retention]
  omega

/-- No time from the start of the clock on is so early that the difference is cut short. -/
theorem toInt_cutoff (hnow : 0 ≤ now.toInt) :
    (p.cutoff now).toInt = now.toInt - min p.retention Time.last.toInt := by
  have hlast : now.toInt ≤ Time.last.toInt := Int64.toInt_le now
  have hretention : 0 ≤ p.retention := by
    rw [retention]
    omega
  rw [cutoff, Time.before, Time.toInt_clamp, toInt_scale_retentionSeconds]
  rw [Time.toInt_first, Time.toInt_last] at *
  omega

/-- Whether or not the length of time is cut short, the cutoff tells which entries are past their
age. -/
theorem lt_cutoff_iff (hnow : 0 ≤ now.toInt) {e : OutboxEntry} (htime : 0 ≤ e.time.toInt) :
    e.time < p.cutoff now ↔ p.IsPast now e := by
  have hlast : now.toInt ≤ Time.last.toInt := Int64.toInt_le now
  rw [Int64.lt_iff_toInt_lt, toInt_cutoff p hnow, IsPast]
  omega

/-! ### What is dropped -/

theorem deleteBefore_cutoff (hnow : 0 ≤ now.toInt) {o : Outbox}
    (htimes : ∀ e ∈ o, 0 ≤ e.time.toInt) :
    o.deleteBefore (p.cutoff now) =
      (o.countP (p.IsPast now ·), o.filter fun e => !decide (p.IsPast now e)) := by
  have hpast : ∀ e ∈ o, decide (e.time < p.cutoff now) = decide (p.IsPast now e) :=
    fun e he => decide_eq_decide.mpr (lt_cutoff_iff p hnow (htimes e he))
  rw [Outbox.deleteBefore, List.filter_congr fun e he => congrArg not (hpast e he)]
  rw [List.countP_congr fun e he => by rw [hpast e he]]

/-- **Retention is exact.** For all the seconds that settings may ask for and up to the last time there
is, the entries that are dropped are those past their age in numbers without bounds; the others are
kept in their order, nothing else of the store changes, and the answer is how many fewer there are. An
outbox under numbered keys, cut at the first key of the cutoff, drops and keeps the same. On the way
nothing is cut short but a length of time beyond the last time, to that time. -/
theorem flush_exact (hup : b.down = []) (hnow : 0 ≤ now.toInt)
    (htimes : ∀ e ∈ b.store.outbox, 0 ≤ e.time.toInt) :
    (∃ removed kept, p.flush b now = .ok (removed, { b with store.outbox := kept }) ∧
      removed = b.store.outbox.countP (p.IsPast now ·) ∧
      kept = b.store.outbox.filter (fun e => !decide (p.IsPast now e)) ∧
      removed + kept.length = b.store.outbox.length ∧
      ∀ (n : NumberedOutbox) (count : Nat), n.Follows b.store.outbox count →
        (n.deleteBefore (p.cutoff now)).1 = removed ∧
          (n.deleteBefore (p.cutoff now)).2.Follows kept count) ∧
    (Time.clamp p.settings.retentionSeconds).toInt =
      min (p.settings.retentionSeconds : Int) Time.last.toInt ∧
    ((Time.clamp p.settings.retentionSeconds).scale Time.second).toInt =
      min p.retention Time.last.toInt ∧
    (p.cutoff now).toInt = now.toInt - min p.retention Time.last.toInt := by
  have hcut := deleteBefore_cutoff p hnow htimes
  refine ⟨⟨_, _, ?_, rfl, rfl, ?_, fun n count h => ⟨?_, ?_⟩⟩, toInt_clamp_retentionSeconds p,
    toInt_scale_retentionSeconds p, toInt_cutoff p hnow⟩
  · rw [flush, Backend.deleteBefore_of_up hup, hcut]
  · rw [List.countP_eq_length_filter]
    exact (List.length_eq_length_filter_add _).symm
  · rw [NumberedOutbox.Follows.deleteBefore_fst h, hcut]
  · have hfollows := NumberedOutbox.Follows.deleteBefore_snd h (p.cutoff now)
    rwa [hcut] at hfollows

/-- A state of polling in which entries may stay for some seconds. -/
def keepingFor (seconds : Nat) : PollPolicy where
  settings := { retentionSeconds := seconds }
  flushed := 0

/-- A store with an entry at the start of the clock, one just before 40 seconds and one at 40
seconds. -/
def agedStore : Backend where
  store := { outbox := [⟨"", [1], 0⟩, ⟨"ops", [2], 39999999999⟩, ⟨"ops", [3], 40000000000⟩] }

/-- After 100 seconds, 60 of them keep the entry at 40 seconds alone. More seconds than there are in
all of time keep everything, even at the last time there is. -/
theorem flush_exact_extremes :
    (∃ b, (keepingFor 60).flush agedStore 100000000000 = .ok (2, b) ∧
      b.store.outbox = [⟨"ops", [3], 40000000000⟩]) ∧
    ∃ b, (keepingFor (2 ^ 64 - 1)).flush agedStore Time.last = .ok (0, b) ∧
      b.store.outbox = agedStore.store.outbox := by
  have hnow : 0 ≤ (100000000000 : Time).toInt := by decide
  have hlast : 0 ≤ Time.last.toInt := by decide
  have htimes : ∀ e ∈ agedStore.store.outbox, 0 ≤ e.time.toInt := by decide
  constructor
  · obtain ⟨⟨removed, kept, hflush, hremoved, hkept, -⟩, -⟩ :=
      flush_exact (keepingFor 60) rfl hnow htimes
    obtain rfl : removed = 2 := by
      rw [hremoved]
      decide
    exact ⟨_, hflush, hkept⟩
  · obtain ⟨⟨removed, kept, hflush, hremoved, hkept, -⟩, -⟩ :=
      flush_exact (keepingFor (2 ^ 64 - 1)) rfl hlast htimes
    obtain rfl : removed = 0 := by
      rw [hremoved]
      decide
    exact ⟨_, hflush, hkept⟩

end PollPolicy

end Courier
