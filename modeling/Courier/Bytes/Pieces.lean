import Mathlib
import Courier.Bytes

/-!
## Pieces of byte strings

How many pieces a byte string falls into, and how a string that was put together of full pieces
falls apart again.

* `chunks_append`: a full piece in front is cut off.
* `length_pieces`: the number of pieces is the length divided by theirs, rounded up, and at least
  one.
* `length_le_of_mem_pieces`: no piece is longer than asked for.
* `nil_notMem_chunks`, `length_of_mem_dropLast`: no piece is empty, and all but the last are full.
-/

namespace Courier.Bytes

/-- A nonempty string gives a first piece, and the rest is cut up after it. -/
theorem chunks_of_ne_nil {n : Nat} (hn : 0 < n) {bs : Bytes} (h : bs ≠ []) :
    chunks n bs = bs.take n :: chunks n (bs.drop n) := by
  obtain ⟨b, rest, rfl⟩ := List.exists_cons_of_ne_nil h
  rw [chunks, Nat.max_eq_left hn]

/-- A full piece is cut off, and so is a shorter one after which nothing comes. -/
theorem chunks_append {n : Nat} (hn : 0 < n) {front rest : Bytes}
    (h : front.length = n ∨ front ≠ [] ∧ front.length ≤ n ∧ rest = []) :
    chunks n (front ++ rest) = front :: chunks n rest := by
  rcases h with h | ⟨hne, hle, hrest⟩
  · have hne : front ++ rest ≠ [] := by
      intro hnil
      rw [(List.append_eq_nil_iff.mp hnil).1, List.length_nil] at h
      omega
    rw [chunks_of_ne_nil hn hne, List.take_left' h, List.drop_left' h]
  · subst hrest
    rw [List.append_nil, chunks_of_ne_nil hn hne, List.take_of_length_le hle,
      List.drop_of_length_le hle]

theorem length_chunks {n : Nat} (hn : 0 < n) (bs : Bytes) :
    (chunks n bs).length = (bs.length + n - 1) / n := by
  induction hl : bs.length using Nat.strong_induction_on generalizing bs with
  | _ l ih =>
  by_cases hne : bs = []
  · subst hne
    rw [← hl, chunks, List.length_nil, List.length_nil, Nat.zero_add, Nat.div_eq_of_lt (by omega)]
  · have hpos : 0 < bs.length := List.length_pos_of_ne_nil hne
    have hstep : l + n - 1 = l - 1 + n := by omega
    rw [chunks_of_ne_nil hn hne, List.length_cons,
      ih _ (by rw [← hl, List.length_drop]; omega) _ rfl, List.length_drop, hl, hstep,
      Nat.add_div_right _ hn, Nat.add_right_cancel_iff]
    rcases Nat.lt_or_ge l n with hlt | hge
    · rw [Nat.sub_eq_zero_of_le hlt.le, Nat.zero_add, Nat.div_eq_of_lt (by omega),
        Nat.div_eq_of_lt (by omega)]
    · congr 1
      omega

theorem length_pieces {n : Nat} (hn : 0 < n) (bs : Bytes) :
    (pieces n bs).length = max 1 ((bs.length + n - 1) / n) := by
  unfold pieces
  split
  · rename_i hempty
    rw [List.isEmpty_iff.mp hempty, List.length_nil, Nat.zero_add, Nat.div_eq_of_lt (by omega)]
    rfl
  · rename_i hne
    have hpos : 0 < bs.length := List.length_pos_of_ne_nil (by simpa using hne)
    rw [length_chunks hn, Nat.max_eq_right]
    exact Nat.div_pos (by omega) hn

theorem length_le_of_mem_chunks {n : Nat} (hn : 0 < n) {bs piece : Bytes}
    (h : piece ∈ chunks n bs) : piece.length ≤ n := by
  induction hl : bs.length using Nat.strong_induction_on generalizing bs with
  | _ l ih =>
  by_cases hne : bs = []
  · subst hne
    simp [chunks] at h
  · have hpos : 0 < bs.length := List.length_pos_of_ne_nil hne
    rw [chunks_of_ne_nil hn hne] at h
    rcases List.mem_cons.mp h with rfl | h
    · rw [List.length_take]
      exact Nat.min_le_left _ _
    · exact ih _ (by rw [List.length_drop]; omega) h rfl

theorem length_le_of_mem_pieces {n : Nat} (hn : 0 < n) {bs piece : Bytes}
    (h : piece ∈ pieces n bs) : piece.length ≤ n := by
  unfold pieces at h
  split at h
  · rw [List.mem_singleton.mp h]
    exact Nat.zero_le n
  · exact length_le_of_mem_chunks hn h

theorem nil_notMem_chunks (n : Nat) (bs : Bytes) : [] ∉ chunks n bs := by
  fun_induction chunks n bs with
  | case1 => exact List.not_mem_nil
  | case2 b rest ih =>
    intro h
    rcases List.mem_cons.mp h with hnil | h
    · rw [eq_comm, List.take_eq_nil_iff] at hnil
      rcases hnil with hzero | hcons
      · omega
      · cases hcons
    · exact ih h

/-- A piece after which another comes is full. -/
theorem length_of_mem_dropLast {n : Nat} (hn : 0 < n) {bs piece : Bytes}
    (h : piece ∈ (chunks n bs).dropLast) : piece.length = n := by
  induction hl : bs.length using Nat.strong_induction_on generalizing bs with
  | _ l ih =>
  by_cases hne : bs = []
  · subst hne
    simp [chunks] at h
  · have hpos : 0 < bs.length := List.length_pos_of_ne_nil hne
    rw [chunks_of_ne_nil hn hne] at h
    by_cases hrest : bs.drop n = []
    · rw [hrest, chunks] at h
      cases h
    · have hmore : chunks n (bs.drop n) ≠ [] := by
        rw [chunks_of_ne_nil hn hrest]
        exact List.cons_ne_nil _ _
      rw [List.dropLast_cons_of_ne_nil hmore] at h
      rcases List.mem_cons.mp h with rfl | h
      · have hlt : n < bs.length := by simpa using hrest
        rw [List.length_take, Nat.min_eq_left hlt.le]
      · exact ih _ (by rw [List.length_drop]; omega) h rfl

end Courier.Bytes
