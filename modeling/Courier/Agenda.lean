/-!
## Jobs that act at given times

An agenda holds jobs with the times at which they act next. Time passes from one such time to the next;
jobs that are due at the same time act in the order in which they were entered.

* `Agenda.run`: lets every job act that is due by a deadline. A job that acts again does so at a later
  time, so the number of times is bounded.
-/

namespace Courier

/-- A job and when it acts next. -/
structure Appointment (κ : Type) where
  due : Nat
  job : κ

namespace Agenda

variable {κ σ : Type}

/-- The appointments with one more, after those that are not later. -/
def insert (a : Appointment κ) : List (Appointment κ) → List (Appointment κ)
  | [] => [a]
  | b :: rest => if a.due < b.due then a :: b :: rest else b :: insert a rest

/-- The time that is left to all jobs up to a deadline, counting each of them on its own. -/
def timeLeft (deadline : Nat) : List (Appointment κ) → Nat
  | [] => 0
  | a :: rest => deadline + 1 - a.due + timeLeft deadline rest

theorem timeLeft_insert (deadline : Nat) (a : Appointment κ) (as : List (Appointment κ)) :
    timeLeft deadline (insert a as) = deadline + 1 - a.due + timeLeft deadline as := by
  induction as with
  | nil => rfl
  | cons b rest ih =>
    unfold insert
    split
    · rfl
    · simp only [timeLeft] at *
      omega

/-- Lets every job act that is due by a deadline. To act is to change the state, and to say when to act
again as which job, if ever. -/
def run (act : (now : Nat) → κ → σ → Option (Appointment κ) × σ) (deadline : Nat)
    (as : List (Appointment κ)) (s : σ) : List (Appointment κ) × σ :=
  match as with
  | [] => ([], s)
  | a :: rest =>
    if _h : deadline < a.due then (a :: rest, s)
    else
      match act a.due a.job s with
      | (none, s) => run act deadline rest s
      | (some next, s) =>
        run act deadline (insert { next with due := max next.due (a.due + 1) } rest) s
termination_by timeLeft deadline as
decreasing_by
  · simp only [timeLeft]
    omega
  · rw [timeLeft_insert]
    simp only [timeLeft]
    omega

end Agenda

/-- Jobs with the times at which they act, and the time. -/
structure Agenda (κ : Type) where
  now : Nat := 0
  waiting : List (Appointment κ) := []

namespace Agenda

variable {κ σ : Type}

/-- Enters a job that acts after some time. -/
def add (a : Agenda κ) (delay : Nat) (job : κ) : Agenda κ :=
  { a with waiting := insert ⟨a.now + delay, job⟩ a.waiting }

/-- Strikes the jobs that a test finds. -/
def strike (a : Agenda κ) (p : κ → Bool) : Agenda κ :=
  { a with waiting := a.waiting.filter fun w => !p w.job }

/-- Lets some time pass. -/
def wait (a : Agenda κ) (time : Nat) (act : (now : Nat) → κ → σ → Option (Appointment κ) × σ)
    (s : σ) : Agenda κ × σ :=
  let (waiting, s) := run act (a.now + time) a.waiting s
  ({ now := a.now + time, waiting := waiting }, s)

end Agenda

end Courier
