import Mathlib
import Courier.Clock

/-!
## Threads that share a clock

Any number of threads take stamps from one clock, each in a loop: it reads the wall clock once,
looks which stamp was the last, and puts its own in place of that, unless another thread was faster
or the exchange fails for no reason; then it looks again. What it saw may long have been replaced.
This does no harm, since an exchange takes place only where what it saw is still the last stamp: so
the stamps of all exchanges form one increasing sequence, whatever the wall clock shows.

* `SharedClock.Step`: one step of one thread.
* `SharedClock.sound_of_run`: what holds after every step.
* `SharedClock.stamps_increase`: a stamp is later than all that were handed out before it was taken.
-/

namespace Courier

/-- How far a thread has come with taking a stamp. -/
inductive Taking
  | idle
  /-- It has read the wall clock. -/
  | read (reading : Int)
  /-- It takes some stamp for the last one. -/
  | trying (reading : Int) (seen : Time)
  /-- It has made its exchange, and has not handed the stamp out yet. -/
  | holding (stamp : Time)

/-- What happens to stamps. -/
inductive StampEvent (ι : Type)
  /-- A stamp has become the last one, taken with a reading of the wall clock. -/
  | exchanged (thread : ι) (reading : Int) (stamp : Time)
  /-- A stamp has been handed out. -/
  | returned (thread : ι) (stamp : Time)

namespace StampEvent

variable {ι : Type}

def thread : StampEvent ι → ι
  | exchanged t _ _ => t
  | returned t _ => t

/-- The stamp that has become the last one. -/
def exchanged? : StampEvent ι → Option Time
  | exchanged _ _ stamp => some stamp
  | returned _ _ => none

/-- The stamp that has been handed out. -/
def returned? : StampEvent ι → Option Time
  | exchanged _ _ _ => none
  | returned _ stamp => some stamp

end StampEvent

/-- A clock, the threads that take stamps from it, and what has happened so far. -/
structure SharedClock (ι : Type) where
  /-- The last stamp. -/
  last : Time
  /-- The stamps before it. -/
  past : List Time := []
  threads : ι → Taking := fun _ => .idle
  log : List (StampEvent ι) := []

namespace SharedClock

open StampEvent

variable {ι : Type} {log earlier later : List (StampEvent ι)} {t u : ι} {stamp : Time}
  {s s' : SharedClock ι}

/-- What a thread may see as the last stamp: the last one, or one that has been replaced since. -/
def Shows (s : SharedClock ι) (seen : Time) : Prop := seen = s.last ∨ seen ∈ s.past

/-- The stamp that follows on the last one for a thread with a certain reading. -/
def next (s : SharedClock ι) (reading : Int) : Time := Clock.next (Time.ofReading reading) s.last

/-- One step of one thread. -/
inductive Step [DecidableEq ι] : SharedClock ι → SharedClock ι → Prop
  /-- A thread reads the wall clock, which may show anything. -/
  | read {s : SharedClock ι} (t : ι) (reading : Int) (h : s.threads t = .idle) :
      Step s { s with threads := Function.update s.threads t (.read reading) }
  /-- It looks which stamp is the last. -/
  | load {s : SharedClock ι} (t : ι) {reading : Int} {seen : Time} (h : s.threads t = .read reading)
      (hseen : s.Shows seen) :
      Step s { s with threads := Function.update s.threads t (.trying reading seen) }
  /-- It is right about the last stamp, and replaces it. -/
  | exchange {s : SharedClock ι} (t : ι) {reading : Int} (h : s.threads t = .trying reading s.last) :
      Step s {
        last := s.next reading
        past := s.last :: s.past
        threads := Function.update s.threads t (.holding (s.next reading))
        log := s.log ++ [.exchanged t reading (s.next reading)] }
  /-- The exchange fails, whether or not it was right, and it looks again. -/
  | fail {s : SharedClock ι} (t : ι) {reading : Int} {seen seen' : Time}
      (h : s.threads t = .trying reading seen) (hseen : s.Shows seen') :
      Step s { s with threads := Function.update s.threads t (.trying reading seen') }
  /-- It hands its stamp out. -/
  | hand {s : SharedClock ι} (t : ι) {stamp : Time} (h : s.threads t = .holding stamp) :
      Step s { s with
        threads := Function.update s.threads t .idle
        log := s.log ++ [.returned t stamp] }

/-- Any number of steps. -/
abbrev Run [DecidableEq ι] : SharedClock ι → SharedClock ι → Prop := Relation.ReflTransGen Step

/-! ### The record -/

/-- The latest thing that a thread has done is to make a certain stamp the last one. -/
def Took (log : List (StampEvent ι)) (t : ι) (stamp : Time) : Prop :=
  ∃ before reading between, log = before ++ .exchanged t reading stamp :: between ∧
    ∀ e ∈ between, e.thread ≠ t

theorem took_concat (log : List (StampEvent ι)) (t : ι) (reading : Int) (stamp : Time) :
    Took (log ++ [.exchanged t reading stamp]) t stamp :=
  ⟨log, reading, [], rfl, nofun⟩

theorem Took.concat {e : StampEvent ι} (h : Took log t stamp) (he : e.thread ≠ t) :
    Took (log ++ [e]) t stamp := by
  obtain ⟨before, reading, between, rfl, hbetween⟩ := h
  refine ⟨before, reading, between ++ [e], by rw [List.append_assoc]; rfl, ?_⟩
  exact List.forall_mem_append.mpr ⟨hbetween, List.forall_mem_singleton.mpr he⟩

theorem Took.mem (h : Took log t stamp) : stamp ∈ log.filterMap exchanged? := by
  obtain ⟨before, reading, between, rfl, -⟩ := h
  exact List.mem_filterMap.mpr ⟨.exchanged t reading stamp, by simp, rfl⟩

/-- Of a record with one more event at its end, what stands before an event is old, or it is the
record before. -/
theorem split_concat {e x : StampEvent ι} (h : log ++ [e] = earlier ++ x :: later) :
    (earlier = log ∧ x = e) ∨ ∃ later', log = earlier ++ x :: later' := by
  rcases List.eq_nil_or_concat later with rfl | ⟨later', last, rfl⟩
  · obtain ⟨rfl, hx⟩ := List.append_inj' h rfl
    exact .inl ⟨rfl, (List.singleton_inj.mp hx).symm⟩
  · have happend : earlier ++ x :: later'.concat last = (earlier ++ x :: later') ++ [last] := by
      simp
    rw [happend] at h
    exact .inr ⟨later', (List.append_inj' h rfl).1⟩

/-! ### What holds after every step -/

/-- What holds of a clock and the record of its stamps, however threads interfere. -/
structure Sound (s : SharedClock ι) : Prop where
  increasing : (s.log.filterMap exchanged?).Pairwise (· < ·)
  le_last : ∀ stamp ∈ s.log.filterMap exchanged?, stamp ≤ s.last
  reading_le : ∀ t reading stamp, .exchanged t reading stamp ∈ s.log → reading ≤ stamp.toInt
  took_of_returned : ∀ earlier t stamp later, s.log = earlier ++ .returned t stamp :: later →
    Took earlier t stamp
  took_of_holding : ∀ t stamp, s.threads t = .holding stamp → Took s.log t stamp
  holding_inj : ∀ t u stamp, s.threads t = .holding stamp → s.threads u = .holding stamp → t = u
  /-- A stamp that is held has not been handed out. -/
  holding_new : ∀ t stamp, s.threads t = .holding stamp → stamp ∉ s.log.filterMap returned?
  nodup : (s.log.filterMap returned?).Nodup

theorem sound_begin (first : Time) : Sound (ι := ι) { last := first } where
  increasing := .nil
  le_last := nofun
  reading_le := nofun
  took_of_returned earlier t stamp later h := by simp at h
  took_of_holding := nofun
  holding_inj := nofun
  holding_new := nofun
  nodup := .nil

/-- What has been handed out had been the last stamp before. -/
theorem Sound.mem_of_returned (h : Sound s) (hmem : stamp ∈ s.log.filterMap returned?) :
    stamp ∈ s.log.filterMap exchanged? := by
  obtain ⟨e, he, hstamp⟩ := List.mem_filterMap.mp hmem
  cases e with
  | exchanged => cases hstamp
  | returned t stamp' =>
    obtain rfl := Option.some.inj hstamp
    obtain ⟨earlier, later, hsplit⟩ := List.append_of_mem he
    have htook := (h.took_of_returned earlier t stamp' later hsplit).mem
    rw [hsplit, List.filterMap_append]
    exact List.mem_append_left _ htook

/-- Steps before the exchange change nothing that matters. -/
theorem Sound.of_same (h : Sound s) (hlast : s'.last = s.last) (hlog : s'.log = s.log)
    (hheld : ∀ t stamp, s'.threads t = .holding stamp → s.threads t = .holding stamp) :
    Sound s' where
  increasing := hlog ▸ h.increasing
  le_last := by rw [hlog, hlast]; exact h.le_last
  reading_le := hlog ▸ h.reading_le
  took_of_returned := hlog ▸ h.took_of_returned
  took_of_holding t stamp ht := hlog ▸ h.took_of_holding t stamp (hheld t stamp ht)
  holding_inj t u stamp ht hu := h.holding_inj t u stamp (hheld t stamp ht) (hheld u stamp hu)
  holding_new t stamp ht := hlog ▸ h.holding_new t stamp (hheld t stamp ht)
  nodup := hlog ▸ h.nodup

variable [DecidableEq ι]

/-- Of threads one of which does not hold a stamp, only the others do. -/
theorem holding_of_update {phase : Taking} (hphase : ∀ stamp, phase ≠ .holding stamp)
    (h : Function.update s.threads t phase u = .holding stamp) :
    u ≠ t ∧ s.threads u = .holding stamp := by
  by_cases hu : u = t
  · rw [hu, Function.update_self] at h
    exact absurd h (hphase stamp)
  · rw [Function.update_of_ne hu] at h
    exact ⟨hu, h⟩

theorem Sound.exchange (h : Sound s) {reading : Int} (ht : s.threads t = .trying reading s.last)
    (hlast : s.next reading ≠ Time.last) :
    Sound {
      last := s.next reading
      past := s.last :: s.past
      threads := Function.update s.threads t (.holding (s.next reading))
      log := s.log ++ [.exchanged t reading (s.next reading)] } := by
  have hlt : s.last < s.next reading := Clock.lt_next_of_ne hlast
  -- All stamps so far are behind the new one.
  have hbehind : ∀ stamp ∈ s.log.filterMap exchanged?, stamp < s.next reading :=
    fun stamp hmem => Int64.lt_of_le_of_lt (h.le_last stamp hmem) hlt
  have hexchanged : (s.log ++ [exchanged t reading (s.next reading)]).filterMap exchanged? =
      s.log.filterMap exchanged? ++ [s.next reading] := by
    rw [List.filterMap_append]
    rfl
  have hreturned : (s.log ++ [exchanged t reading (s.next reading)]).filterMap returned? =
      s.log.filterMap returned? := by
    rw [List.filterMap_append]
    exact List.append_nil _
  -- Whoever holds a stamp is the thread with the new one, or has held it before.
  have hcases : ∀ u stamp,
      Function.update s.threads t (.holding (s.next reading)) u = .holding stamp →
        (u = t ∧ stamp = s.next reading) ∨ (u ≠ t ∧ s.threads u = .holding stamp) := by
    intro u stamp hu
    by_cases hsame : u = t
    · rw [hsame, Function.update_self] at hu
      exact .inl ⟨hsame, (Taking.holding.inj hu).symm⟩
    · rw [Function.update_of_ne hsame] at hu
      exact .inr ⟨hsame, hu⟩
  have hheld : ∀ u stamp, s.threads u = .holding stamp → stamp < s.next reading :=
    fun u stamp hu => hbehind stamp (h.took_of_holding u stamp hu).mem
  constructor
  · rw [hexchanged]
    exact List.pairwise_append.mpr ⟨h.increasing, List.pairwise_singleton _ _,
      fun stamp hmem _ hnew => List.mem_singleton.mp hnew ▸ hbehind stamp hmem⟩
  · rw [hexchanged]
    refine List.forall_mem_append.mpr ⟨fun stamp hmem => Int64.le_of_lt (hbehind stamp hmem), ?_⟩
    exact List.forall_mem_singleton.mpr (Int64.le_refl _)
  · intro u reading' stamp hmem
    rcases List.mem_append.mp hmem with hold | hnew
    · exact h.reading_le u reading' stamp hold
    · obtain ⟨rfl, rfl, rfl⟩ := StampEvent.exchanged.inj (List.mem_singleton.mp hnew)
      have hwall := Clock.le_next (Time.ofReading reading') s.last
      have hreading := Time.le_toInt_ofReading (Time.ne_last_of_le hwall hlast)
      exact Int.le_trans hreading (Int64.le_iff_toInt_le.mp hwall)
  · intro earlier u stamp later hsplit
    rcases split_concat hsplit with ⟨-, hother⟩ | ⟨later', hold⟩
    · cases hother
    · exact h.took_of_returned earlier u stamp later' hold
  · intro u stamp hu
    rcases hcases u stamp hu with ⟨rfl, rfl⟩ | ⟨hne, hold⟩
    · exact took_concat _ _ _ _
    · exact (h.took_of_holding u stamp hold).concat (Ne.symm hne)
  · intro u w stamp hu hw
    rcases hcases u stamp hu with ⟨rfl, rfl⟩ | ⟨-, hu⟩
    · rcases hcases w _ hw with ⟨rfl, -⟩ | ⟨-, hw⟩
      · rfl
      · exact (Int64.lt_irrefl (hheld w _ hw)).elim
    · rcases hcases w stamp hw with ⟨-, rfl⟩ | ⟨-, hw⟩
      · exact (Int64.lt_irrefl (hheld u _ hu)).elim
      · exact h.holding_inj u w stamp hu hw
  · intro u stamp hu
    rw [hreturned]
    rcases hcases u stamp hu with ⟨-, rfl⟩ | ⟨-, hold⟩
    · exact fun hmem => Int64.lt_irrefl (hbehind _ (h.mem_of_returned hmem))
    · exact h.holding_new u stamp hold
  · rw [hreturned]
    exact h.nodup

theorem Sound.hand (h : Sound s) (ht : s.threads t = .holding stamp) :
    Sound { s with
      threads := Function.update s.threads t .idle
      log := s.log ++ [.returned t stamp] } := by
  have hexchanged : (s.log ++ [returned t stamp]).filterMap exchanged? =
      s.log.filterMap exchanged? := by
    rw [List.filterMap_append]
    exact List.append_nil _
  have hreturned : (s.log ++ [returned t stamp]).filterMap returned? =
      s.log.filterMap returned? ++ [stamp] := by
    rw [List.filterMap_append]
    rfl
  have hcases : ∀ u stamp', Function.update s.threads t .idle u = .holding stamp' →
      u ≠ t ∧ s.threads u = .holding stamp' := fun u stamp' => holding_of_update (by nofun)
  constructor
  · exact hexchanged ▸ h.increasing
  · exact hexchanged ▸ h.le_last
  · intro u reading stamp' hmem
    rcases List.mem_append.mp hmem with hold | hnew
    · exact h.reading_le u reading stamp' hold
    · cases List.mem_singleton.mp hnew
  · intro earlier u stamp' later hsplit
    rcases split_concat hsplit with ⟨rfl, hsame⟩ | ⟨later', hold⟩
    · obtain ⟨rfl, rfl⟩ := StampEvent.returned.inj hsame
      exact h.took_of_holding u stamp' ht
    · exact h.took_of_returned earlier u stamp' later' hold
  · intro u stamp' hu
    obtain ⟨hne, hold⟩ := hcases u stamp' hu
    exact (h.took_of_holding u stamp' hold).concat (Ne.symm hne)
  · exact fun u w stamp' hu hw => h.holding_inj u w stamp' (hcases u _ hu).2 (hcases w _ hw).2
  · intro u stamp' hu
    obtain ⟨hne, hold⟩ := hcases u stamp' hu
    rw [hreturned, List.mem_append, List.mem_singleton]
    rintro (hmem | rfl)
    · exact h.holding_new u stamp' hold hmem
    · exact hne (h.holding_inj u t stamp' hold ht)
  · rw [hreturned]
    exact List.nodup_append.mpr ⟨h.nodup, List.nodup_singleton _, fun a ha b hb hab =>
      h.holding_new t stamp ht (List.mem_singleton.mp hb ▸ hab ▸ ha)⟩

theorem sound_of_step (h : Sound s) (hstep : Step s s') (hlast : s'.last ≠ Time.last) :
    Sound s' := by
  cases hstep with
  | read t reading _ => exact h.of_same rfl rfl fun u stamp hu => (holding_of_update (by nofun) hu).2
  | load t _ _ => exact h.of_same rfl rfl fun u stamp hu => (holding_of_update (by nofun) hu).2
  | exchange t ht => exact h.exchange ht hlast
  | fail t _ _ => exact h.of_same rfl rfl fun u stamp hu => (holding_of_update (by nofun) hu).2
  | hand t ht => exact h.hand ht

/-- The last stamp is never set back. -/
theorem Step.last_le (h : Step s s') : s.last ≤ s'.last := by
  cases h with
  | exchange => exact Clock.le_next_stamped _ _
  | _ => exact Int64.le_refl _

/-- **What holds after every step**, as long as the clock has not run out. -/
theorem sound_of_run {first : Time} (hrun : Run { last := first } s) (hlast : s.last ≠ Time.last) :
    Sound s := by
  induction hrun with
  | refl => exact sound_begin first
  | tail _ hstep ih =>
    exact sound_of_step (ih (Time.ne_last_of_le hstep.last_le hlast)) hstep hlast

/-- **Stamps increase across threads.** Any number of threads take stamps, their steps in any order,
and the wall clock shows each of them whatever it likes. As long as the clock has not run to the
last time there is, every stamp that is handed out was made the last one by its thread with a
reading of the wall clock that is no later than the stamp, and is later than all stamps that were
handed out before that. No stamp is handed out twice. -/
theorem stamps_increase {first : Time} (hrun : Run { last := first } s)
    (hlast : s.last ≠ Time.last) :
    (∀ earlier t stamp later, s.log = earlier ++ .returned t stamp :: later →
      ∃ before reading between, earlier = before ++ .exchanged t reading stamp :: between ∧
        (∀ e ∈ between, e.thread ≠ t) ∧ reading ≤ stamp.toInt ∧
        ∀ u stamp', .returned u stamp' ∈ before → stamp' < stamp) ∧
    (s.log.filterMap returned?).Nodup := by
  have h := sound_of_run hrun hlast
  refine ⟨fun earlier t stamp later hsplit => ?_, h.nodup⟩
  obtain ⟨before, reading, between, rfl, hbetween⟩ := h.took_of_returned earlier t stamp later hsplit
  refine ⟨before, reading, between, rfl, hbetween, ?_, fun u stamp' hmem => ?_⟩
  · exact h.reading_le t reading stamp (by rw [hsplit]; simp)
  · -- The other stamp was exchanged before it was handed out, and so before this one.
    obtain ⟨b, b', rfl⟩ := List.append_of_mem hmem
    have htook := (h.took_of_returned b u stamp'
      (b' ++ .exchanged t reading stamp :: (between ++ .returned t stamp :: later))
      (by rw [hsplit]; simp)).mem
    have hincreasing := h.increasing
    rw [hsplit, List.append_assoc, List.append_assoc, List.filterMap_append] at hincreasing
    refine (List.pairwise_append.mp hincreasing).2.2 stamp' htook stamp ?_
    exact List.mem_filterMap.mpr ⟨.exchanged t reading stamp, by simp, rfl⟩

/-- Two threads. While the first looks for the last stamp, the second takes one with an earlier
reading; and later it takes another, when the wall clock has gone back. -/
def contended : SharedClock Bool where
  last := 6
  past := [5, 3, 0]
  log := [.exchanged true 3 3, .exchanged false 5 5, .returned false 5, .returned true 3,
    .exchanged true 2 6, .returned true 6]

theorem run_contended : Run { last := 0 } contended := by
  have hread : Run (ι := Bool) { last := 0 } _ :=
    ((Relation.ReflTransGen.single (.read false 5 rfl)).tail (.load false rfl (.inl rfl))).tail
      (.read true 3 rfl)
  have hfirst := (hread.tail (.load true rfl (.inl rfl))).tail (.exchange true rfl)
  -- The other thread is late, and looks again.
  have hsecond := (hfirst.tail (.fail false rfl (.inl rfl))).tail (.exchange false rfl)
  have hhanded := (hsecond.tail (.hand false rfl)).tail (.hand true rfl)
  -- What it sees now is out of date.
  have hagain := (hhanded.tail (.read true 2 rfl)).tail
    (.load true rfl (.inr List.mem_cons_self))
  have hthird := (hagain.tail (.fail true rfl (.inl rfl))).tail (.exchange true rfl)
  have hend := hthird.tail (.hand true rfl)
  convert hend using 1
  unfold contended
  congr 1
  funext t
  cases t <;> rfl

/-- Six and all other stamps: the last one is taken with a reading from before two stamps that had
been handed out. -/
theorem stamps_increase_contended :
    Run { last := 0 } contended ∧ contended.last ≠ Time.last ∧
      (∃ before reading between,
        [exchanged true 3 3, exchanged false 5 5, returned false 5, returned true 3,
          exchanged true 2 6] = before ++ exchanged true reading 6 :: between ∧
        (∀ e ∈ between, e.thread ≠ true) ∧ reading ≤ (6 : Time).toInt ∧
        ∀ u stamp', returned u stamp' ∈ before → stamp' < 6) ∧
      ([5, 3, 6] : List Time).Nodup := by
  have hlast : contended.last ≠ Time.last := by decide
  obtain ⟨hlater, hnodup⟩ := stamps_increase run_contended hlast
  exact ⟨run_contended, hlast, hlater _ true 6 [] rfl, hnodup⟩

end SharedClock

end Courier
