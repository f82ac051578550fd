import Courier.Record

/-!
## The outbox

Envelopes that wait to be picked up, in the order of their time stamps; those of equal time stand in
the order in which they came.

* `append_perm`, `pairwise_append`: an entry is added to the others, in its place.
-/

namespace Courier

/-- Entries in the order of their time stamps. -/
abbrev Outbox := List OutboxEntry

namespace Outbox

/-- The outbox with an entry added, after those that are not later. -/
def append (e : OutboxEntry) : Outbox → Outbox
  | [] => [e]
  | d :: rest => if e.time < d.time then e :: d :: rest else d :: append e rest

/-- Whether an entry is asked for: it is later than a time, and its channel is listed, if any is. -/
def isWanted (after : Time) (channels : List String) (e : OutboxEntry) : Bool :=
  decide (after < e.time) && (channels.isEmpty || channels.contains e.channel)

/-- The entries later than a time, in some channels or, if none is listed, in all. -/
def since (o : Outbox) (after : Time) (channels : List String) : List OutboxEntry :=
  o.filter (isWanted after channels)

/-- The number of entries earlier than a time, and the outbox without them. -/
def deleteBefore (o : Outbox) (cutoff : Time) : Nat × Outbox :=
  (o.countP fun e => decide (e.time < cutoff), o.filter fun e => !decide (e.time < cutoff))

theorem append_perm (e : OutboxEntry) (o : Outbox) : (append e o).Perm (e :: o) := by
  induction o with
  | nil => exact .refl _
  | cons d rest ih =>
    unfold append
    split
    · exact .refl _
    · exact (ih.cons d).trans (.swap _ _ _)

theorem pairwise_append (e : OutboxEntry) {o : Outbox} (h : o.Pairwise fun a b => a.time ≤ b.time) :
    (append e o).Pairwise fun a b => a.time ≤ b.time := by
  induction o with
  | nil => simp [append]
  | cons d rest ih =>
    obtain ⟨hd, hrest⟩ := List.pairwise_cons.1 h
    unfold append
    split
    · rename_i hlt
      refine List.pairwise_cons.2 ⟨fun x hx => ?_, h⟩
      rcases List.mem_cons.1 hx with rfl | hx
      · exact Int64.le_of_lt hlt
      · exact Int64.le_trans (Int64.le_of_lt hlt) (hd x hx)
    · rename_i hlt
      refine List.pairwise_cons.2 ⟨fun x hx => ?_, ih hrest⟩
      rcases List.mem_cons.1 ((append_perm e rest).mem_iff.1 hx) with rfl | hx
      · exact Int64.not_lt.1 hlt
      · exact hd x hx

end Outbox

end Courier
