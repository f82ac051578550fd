import Mathlib
import Courier.Proofs.Outbox.Log
import Courier.Proofs.Table

/-!
## The outbox under numbered keys

An outbox can be kept in a table as well, each entry under its time and the number of entries that
came before it: the numbers keep entries of equal time apart, and in the order in which they came.
Questions about times are then questions about ranges of keys. As long as there are numbers left, an
outbox that is kept in this way and the list of its entries in the order of time answer the same.

* `OutboxKey`: times and numbers in lexicographic order.
* `NumberedOutbox.Follows`: a table holds the entries of an outbox, and its numbers are used in turn.
* `Follows.append`, `Follows.deleteBefore_snd`: a change of both.
* `follows_foldl`: any changes, as long as there are numbers.
* `Backend.changeAll_keeps`: a store is a log in the order of time, and so is a table of this kind.
-/

namespace Courier

/-- The time of an entry and the number of entries that came before it. -/
structure OutboxKey where
  time : Time
  number : UInt64
deriving DecidableEq

namespace OutboxKey

instance : LT OutboxKey := ⟨fun a b => a.time < b.time ∨ a.time = b.time ∧ a.number < b.number⟩

instance : LE OutboxKey := ⟨fun a b => a.time < b.time ∨ a.time = b.time ∧ a.number ≤ b.number⟩

instance : DecidableLT OutboxKey := fun a b =>
  inferInstanceAs (Decidable (a.time < b.time ∨ a.time = b.time ∧ a.number < b.number))

theorem lt_iff {a b : OutboxKey} :
    a < b ↔ a.time < b.time ∨ a.time = b.time ∧ a.number < b.number := Iff.rfl

theorem le_iff {a b : OutboxKey} :
    a ≤ b ↔ a.time < b.time ∨ a.time = b.time ∧ a.number ≤ b.number := Iff.rfl

theorem le_iff_toInt {a b : OutboxKey} :
    a ≤ b ↔ a.time.toInt < b.time.toInt ∨
      a.time.toInt = b.time.toInt ∧ a.number.toNat ≤ b.number.toNat := by
  rw [le_iff, Int64.lt_iff_toInt_lt, Int64.toInt_inj, UInt64.le_iff_toNat_le]

theorem lt_iff_toInt {a b : OutboxKey} :
    a < b ↔ a.time.toInt < b.time.toInt ∨
      a.time.toInt = b.time.toInt ∧ a.number.toNat < b.number.toNat := by
  rw [lt_iff, Int64.lt_iff_toInt_lt, Int64.toInt_inj, UInt64.lt_iff_toNat_lt]

instance : Std.IsLinearOrder OutboxKey where
  le_refl a := by
    rw [le_iff_toInt]
    omega
  le_trans a b c hab hbc := by
    rw [le_iff_toInt] at *
    omega
  le_antisymm a b hab hba := by
    rw [le_iff_toInt] at hab hba
    have htime : a.time = b.time := Int64.toInt_inj.mp (by omega)
    have hnumber : a.number = b.number := UInt64.toNat_inj.mp (by omega)
    rw [show a = ⟨a.time, a.number⟩ from rfl, htime, hnumber]
  le_total a b := by
    rw [le_iff_toInt, le_iff_toInt]
    omega

instance : Std.LawfulOrderLT OutboxKey where
  lt_iff a b := by
    rw [lt_iff_toInt, le_iff_toInt, le_iff_toInt]
    omega

/-- The first key of a time. -/
def first (time : Time) : OutboxKey := ⟨time, 0⟩

/-- The last key of a time. -/
def last (time : Time) : OutboxKey := ⟨time, UInt64.ofNat (UInt64.size - 1)⟩

theorem lt_first_iff {time : Time} {k : OutboxKey} : k < first time ↔ k.time < time := by
  rw [lt_iff, first]
  refine ⟨fun h => h.resolve_right fun hnumber => ?_, .inl⟩
  exact UInt64.not_lt_zero hnumber.2

theorem last_lt_iff {time : Time} {k : OutboxKey} : last time < k ↔ time < k.time := by
  rw [lt_iff, last]
  refine ⟨fun h => h.resolve_right fun hnumber => ?_, .inl⟩
  have hlast : UInt64.size - 1 < k.number.toNat := UInt64.lt_iff_toNat_lt.mp hnumber.2
  have hsize : k.number.toNat < UInt64.size := k.number.toNat_lt
  omega

end OutboxKey

/-- An outbox whose entries are kept in a table, with the number for the next of them. -/
structure NumberedOutbox where
  entries : Table OutboxKey OutboxEntry := .empty
  next : UInt64 := 0

namespace NumberedOutbox

/-- The outbox with an entry added, under its time and the next number. -/
def append (e : OutboxEntry) (n : NumberedOutbox) : NumberedOutbox :=
  ⟨n.entries.insert ⟨e.time, n.next⟩ e, n.next + 1⟩

/-- The entries behind the last key of a time, in some channels or, if none is listed, in all. -/
def since (n : NumberedOutbox) (after : Time) (channels : List String) : List OutboxEntry :=
  (n.entries.filter fun k _ => decide (OutboxKey.last after < k)).values.filter fun e =>
    channels.isEmpty || channels.contains e.channel

/-- The number of entries before the first key of a time, and the outbox without them. -/
def deleteBefore (n : NumberedOutbox) (cutoff : Time) : Nat × NumberedOutbox :=
  ((n.entries.filter fun k _ => decide (k < OutboxKey.first cutoff)).size,
    { n with entries := n.entries.filter fun k _ => !decide (k < OutboxKey.first cutoff) })

/-- The number of entries. -/
def length (n : NumberedOutbox) : Nat := n.entries.size

/-- The outbox after a change. -/
def change (n : NumberedOutbox) : OutboxChange → NumberedOutbox
  | .append e => n.append e
  | .deleteBefore cutoff => (n.deleteBefore cutoff).2

/-- A table that holds the entries of an outbox under their own times, out of a count of entries that
were ever added: their numbers are below the count, and the next number is the count itself, as far as
it is a word. -/
structure Follows (n : NumberedOutbox) (o : Outbox) (count : Nat) : Prop where
  values : n.entries.values = o
  next : n.next = UInt64.ofNat count
  time : ∀ d ∈ n.entries.entries, d.1.time = d.2.time
  number : ∀ d ∈ n.entries.entries, d.1.number.toNat < count

/-! ### Entries -/

/-- Under a number above all others, an entry comes behind those that are not later. -/
theorem map_snd_insertEntry {number : UInt64} (e : OutboxEntry)
    {es : List (OutboxKey × OutboxEntry)} (htime : ∀ d ∈ es, d.1.time = d.2.time)
    (hnumber : ∀ d ∈ es, d.1.number < number) :
    (Table.insertEntry ⟨e.time, number⟩ e es).map Prod.snd =
      Outbox.append e (es.map Prod.snd) := by
  induction es with
  | nil => rfl
  | cons d rest ih =>
    obtain ⟨hdtime, hrest⟩ := List.forall_mem_cons.mp htime
    obtain ⟨hdnumber, hnumber⟩ := List.forall_mem_cons.mp hnumber
    -- The number is no help against the new entry, so the times decide.
    have hlt : (⟨e.time, number⟩ : OutboxKey) < d.1 ↔ e.time < d.2.time := by
      rw [OutboxKey.lt_iff, hdtime]
      exact ⟨fun h => h.resolve_right fun heq => UInt64.lt_asymm hdnumber heq.2, .inl⟩
    have hne : (⟨e.time, number⟩ : OutboxKey) ≠ d.1 := by
      intro heq
      rw [← heq] at hdnumber
      exact UInt64.lt_irrefl _ hdnumber
    unfold Table.insertEntry
    rw [if_neg hne, List.map_cons, Outbox.append]
    by_cases h : e.time < d.2.time
    · rw [if_pos (hlt.mpr h), if_pos h, List.map_cons, List.map_cons]
    · rw [if_neg (mt hlt.mp h), if_neg h, List.map_cons, ih hrest hnumber]

variable {n : NumberedOutbox} {o : Outbox} {count : Nat}

/-- A test of keys that looks at their times alone tests the entries themselves. -/
theorem Follows.values_filter (h : Follows n o count) {p : OutboxKey → Bool} {q : Time → Bool}
    (hp : ∀ k, p k = q k.time) :
    (n.entries.filter fun k _ => p k).values = o.filter fun e => q e.time := by
  have hq : n.entries.entries.filter (fun d => p d.1) =
      n.entries.entries.filter fun d => q d.2.time := by
    refine List.filter_congr fun d hd => ?_
    rw [hp, h.time d hd]
  show (n.entries.entries.filter fun d => p d.1).map Prod.snd = _
  rw [hq, ← h.values, Table.values, List.filter_map]
  rfl

/-! ### Answers -/

theorem Follows.since (h : Follows n o count) (after : Time) (channels : List String) :
    n.since after channels = o.since after channels := by
  have hvalues := h.values_filter (p := fun k => decide (OutboxKey.last after < k))
    (q := fun t => decide (after < t)) fun k => decide_eq_decide.mpr OutboxKey.last_lt_iff
  rw [NumberedOutbox.since, hvalues, List.filter_filter, Outbox.since]
  exact List.filter_congr fun e _ => Bool.and_comm _ _

theorem Follows.deleteBefore_fst (h : Follows n o count) (cutoff : Time) :
    (n.deleteBefore cutoff).1 = (o.deleteBefore cutoff).1 := by
  have hvalues := h.values_filter (p := fun k => decide (k < OutboxKey.first cutoff))
    (q := fun t => decide (t < cutoff)) fun k => decide_eq_decide.mpr OutboxKey.lt_first_iff
  rw [NumberedOutbox.deleteBefore, Outbox.deleteBefore, List.countP_eq_length_filter, ← hvalues,
    Table.values, List.length_map, Table.size]

theorem Follows.length (h : Follows n o count) : n.length = o.length := by
  rw [NumberedOutbox.length, Table.size, ← h.values, Table.values, List.length_map]

/-! ### Changes -/

theorem Follows.append (h : Follows n o count) (hcount : count < UInt64.size) (e : OutboxEntry) :
    Follows (n.append e) (Outbox.append e o) (count + 1) := by
  have hnext : n.next.toNat = count := by rw [h.next, UInt64.toNat_ofNat_of_lt' hcount]
  have hnumber : ∀ d ∈ n.entries.entries, d.1.number < n.next := by
    intro d hd
    rw [UInt64.lt_iff_toNat_lt, hnext]
    exact h.number d hd
  refine ⟨?_, ?_, ?_, ?_⟩
  · rw [← h.values]
    exact map_snd_insertEntry e h.time hnumber
  · rw [NumberedOutbox.append, h.next, UInt64.ofNat_add]
    rfl
  · intro d hd
    rcases Table.mem_insertEntry hd with rfl | hd
    · rfl
    · exact h.time d hd
  · intro d hd
    rcases Table.mem_insertEntry hd with rfl | hd
    · exact Nat.lt_succ_of_le (Nat.le_of_eq hnext)
    · exact Nat.lt_succ_of_lt (h.number d hd)

theorem Follows.deleteBefore_snd (h : Follows n o count) (cutoff : Time) :
    Follows (n.deleteBefore cutoff).2 (o.deleteBefore cutoff).2 count where
  values := h.values_filter (q := fun t => !decide (t < cutoff)) fun _ =>
    congrArg not (decide_eq_decide.mpr OutboxKey.lt_first_iff)
  next := h.next
  time d hd := h.time d (List.mem_of_mem_filter hd)
  number d hd := h.number d (List.mem_of_mem_filter hd)

/-- A table follows an outbox from the start, as long as there are numbers for the entries. -/
theorem follows_foldl {changes : List OutboxChange}
    (hcount : changes.countP OutboxChange.isAppend ≤ UInt64.size) :
    Follows (changes.foldl change {}) (changes.foldl Outbox.change [])
      (changes.countP OutboxChange.isAppend) := by
  induction changes using List.reverseRecOn with
  | nil => exact ⟨rfl, rfl, List.forall_mem_nil _, List.forall_mem_nil _⟩
  | append_singleton changes last ih =>
    rw [List.countP_append, List.countP_singleton] at hcount ⊢
    have h := ih (by omega)
    rw [List.foldl_append, List.foldl_append]
    cases last with
    | append e => exact h.append (by simpa [OutboxChange.isAppend] using hcount) e
    | deleteBefore cutoff => exact h.deleteBefore_snd cutoff

end NumberedOutbox

namespace Backend

/-- What a store answers that answers as a numbered outbox does. -/
structure AnswersAs (b : Backend) (n : NumberedOutbox) : Prop where
  since : ∀ after channels, b.since after channels = .ok (n.since after channels)
  deleteBefore : ∀ cutoff, ∃ b', b.deleteBefore cutoff = .ok ((n.deleteBefore cutoff).1, b')
  outboxLength : b.outboxLength = .ok n.length

theorem answersAs_of_follows {b : Backend} (hup : b.down = []) {n : NumberedOutbox} {count : Nat}
    (h : n.Follows b.store.outbox count) : b.AnswersAs n where
  since after channels := by rw [h.since, Backend.since, attempt_of_up hup]
  deleteBefore cutoff := by
    rw [h.deleteBefore_fst, deleteBefore_of_up hup]
    exact ⟨_, rfl⟩
  outboxLength := by rw [h.length, Backend.outboxLength, attempt_of_up hup]

/-- **The outbox is a log in the order of time.** After any changes, a store holds the live entries in
the order of their times and finds, deletes and counts them by that. An outbox under numbered keys
answers the same as long as there are numbers for the entries. -/
theorem changeAll_keeps {b : Backend} (hup : b.down = []) (hempty : b.store.outbox = [])
    (changes : List OutboxChange) :
    ∃ b', b.changeAll changes = .ok b' ∧ b'.Keeps (OutboxChange.live changes) ∧
      (changes.countP OutboxChange.isAppend ≤ UInt64.size →
        b'.AnswersAs (changes.foldl NumberedOutbox.change {})) := by
  obtain ⟨b', hb', hup', houtbox⟩ := exists_changeAll hup changes
  rw [hempty] at houtbox
  refine ⟨b', hb', keeps_of_inTimeOrder hup' ?_, fun hcount => ?_⟩
  · rw [houtbox]
    exact Outbox.inTimeOrder_foldl changes
  · have hfollows := NumberedOutbox.follows_foldl hcount
    rw [← houtbox] at hfollows
    exact answersAs_of_follows hup' hfollows

/-- An entry from the end of time, two of one time, and two from the beginning of time, one of which
comes only after the others of that time are deleted. -/
theorem changeAll_keeps_extremes :
    ∃ b, ({} : Backend).changeAll [.append ⟨"dev", [1], Time.last⟩, .append ⟨"ops", [2], 5⟩,
        .append ⟨"", [3], Time.first⟩, .append ⟨"", [4], 5⟩, .deleteBefore 5,
        .append ⟨"ops", [5], Time.first⟩] = .ok b ∧
      b.Keeps [⟨"dev", [1], Time.last⟩, ⟨"ops", [2], 5⟩, ⟨"", [4], 5⟩,
        ⟨"ops", [5], Time.first⟩] ∧
      b.AnswersAs ([OutboxChange.append ⟨"dev", [1], Time.last⟩, .append ⟨"ops", [2], 5⟩,
        .append ⟨"", [3], Time.first⟩, .append ⟨"", [4], 5⟩, .deleteBefore 5,
        .append ⟨"ops", [5], Time.first⟩].foldl NumberedOutbox.change {}) := by
  obtain ⟨b, hb, hkeeps, hanswers⟩ := changeAll_keeps (b := {}) rfl rfl
    [.append ⟨"dev", [1], Time.last⟩, .append ⟨"ops", [2], 5⟩, .append ⟨"", [3], Time.first⟩,
      .append ⟨"", [4], 5⟩, .deleteBefore 5, .append ⟨"ops", [5], Time.first⟩]
  exact ⟨b, hb, hkeeps, hanswers (by decide)⟩

end Backend

end Courier
