import Courier.Record

/-!
## Time stamps

Entries of the outbox are stamped with the time of day, made strictly increasing: a stamp is at least
one nanosecond later than the stamp before it, whatever the wall clock says.

* `lt_next`: a stamp is later than the one before it, unless that was the last time there is.
* `le_next`: a stamp is never earlier than the wall clock.
-/

namespace Courier

namespace Time

/-- The last time there is. -/
def last : Time := Int64.maxValue

/-- The first time there is. -/
def first : Time := Int64.minValue

/-- The next nanosecond. After the last time there is none. -/
def succ (t : Time) : Time := if t = last then last else t + 1

/-- The later of two times. -/
def later (a b : Time) : Time := if a ≤ b then b else a

/-- The time of a reading of the wall clock, which is in nanoseconds since the start of 1970. A reading
from before counts as the start, and one that is too late as the last time there is. -/
def ofReading (reading : Int) : Time :=
  if reading < 0 then 0 else if last.toInt < reading then last else Int64.ofInt reading

theorem toInt_last : last.toInt = 9223372036854775807 := rfl

theorem le_toInt_ofReading {reading : Int} (h : ofReading reading ≠ last) :
    reading ≤ (ofReading reading).toInt := by
  unfold ofReading at h ⊢
  split
  · rename_i hearly
    rw [Int64.toInt_zero]
    omega
  · rename_i hearly
    split
    · rename_i hlate
      rw [if_neg hearly, if_pos hlate] at h
      exact absurd rfl h
    · rename_i hlate
      rw [toInt_last] at hlate
      exact Int.le_of_eq (Int64.toInt_ofInt_of_le (by omega) (by omega)).symm

/-- Before a time that is not the last there is only such a time. -/
theorem ne_last_of_le {s t : Time} (h : s ≤ t) (ht : t ≠ last) : s ≠ last := by
  intro hs
  rw [hs] at h
  exact ht (Int64.le_antisymm (Int64.le_maxValue t) h)

end Time

/-- What stamps are taken from. -/
structure Clock where
  /-- The wall clock, in the order in which it is read. -/
  wall : Nat → Time
  /-- The number of stamps taken so far. -/
  taken : Nat := 0
  /-- The last stamp. -/
  stamped : Time := 0

namespace Clock

/-- The stamp that follows on another when the wall clock shows a certain time. -/
def next (wall stamped : Time) : Time := wall.later stamped.succ

/-- Takes a stamp. -/
def stamp (c : Clock) : Time × Clock :=
  let t := next (c.wall c.taken) c.stamped
  (t, { c with taken := c.taken + 1, stamped := t })

/-- The stamps of a number of calls in a row. -/
def stamps (c : Clock) : (n : Nat) → List Time
  | 0 => []
  | n + 1 => let (t, c) := c.stamp; t :: c.stamps n

theorem le_next (wall stamped : Time) : wall ≤ next wall stamped := by
  unfold next Time.later
  split
  · assumption
  · exact Int64.le_refl wall

theorem lt_succ {t : Time} (h : t ≠ Time.last) : t < t.succ := by
  have hlt : t.toInt < 2 ^ 63 - 1 := by
    have h1 := t.toInt_lt
    have h2 : t.toInt ≠ 2 ^ 63 - 1 := fun he => h (Int64.toInt_inj.1 (by rw [he]; rfl))
    omega
  have hle := t.le_toInt
  rw [Time.succ, if_neg h, Int64.lt_iff_toInt_lt, Int64.toInt_add]
  have h1 : (1 : Int64).toInt = 1 := rfl
  rw [h1, Int.bmod_eq_of_le (by omega) (by omega)]
  omega

theorem lt_next {wall stamped : Time} (h : stamped ≠ Time.last) : stamped < next wall stamped := by
  have hs := lt_succ h
  unfold next Time.later
  split
  · exact hs
  · rename_i hle
    exact Int64.lt_trans hs (Int64.not_le.1 hle)

theorem le_next_stamped (wall stamped : Time) : stamped ≤ next wall stamped := by
  by_cases h : stamped = Time.last
  · subst h
    unfold next Time.later Time.succ
    rw [if_pos rfl]
    split
    · exact Int64.le_refl _
    · rename_i hle
      exact absurd (Int64.le_maxValue wall) hle
  · exact Int64.le_of_lt (lt_next h)

/-- A stamp that is not the last time is later than the one before it. -/
theorem lt_next_of_ne {wall stamped : Time} (h : next wall stamped ≠ Time.last) :
    stamped < next wall stamped := by
  refine lt_next fun hlast => h ?_
  have hle := le_next_stamped wall stamped
  rw [hlast] at hle
  rw [hlast]
  exact Int64.le_antisymm (Int64.le_maxValue _) hle

end Clock

end Courier
