import Mathlib
import Courier.Proofs.Codec.Reads

/-!
## Numbers of variable length as they are read

A reader takes a number off the front of a byte string by the bytes up to the first one without the
top bit, and looks at nothing after them. Several byte strings read as one number, since empty
groups may be put on top of it. The written form is the shortest of them, and the only one of its
length.

* `Varint.exists_reads`: what is taken off reads as the number whatever comes after it.
* `Varint.decode_append_of_error`: a fault other than a lack of bytes stays.
* `Varint.minimal_iff`: among the byte strings that read as a number, the shortest is the written
  form.
-/

namespace Courier

open Reader

namespace Varint

variable {left n : Nat} {b : UInt8} {bs x rest : Bytes}

/-! ### One group -/

/-- What a number says about its first byte: it is the whole number, or the least group of it. -/
theorem decodeWithin_cons_eq_ok (h : decodeWithin (left + 1) (b :: bs) = .ok (n, rest)) :
    (b.toNat < 128 ∧ n = b.toNat ∧ rest = bs ∧ (left = 0 → n ≤ 1)) ∨
      (128 ≤ b.toNat ∧ ∃ high, decodeWithin left bs = .ok (high, rest) ∧
        n = b.toNat % 128 + 128 * high) := by
  simp only [decodeWithin] at h
  split at h
  · cases h
  · rename_i hlast
    split at h
    · rename_i hsmall
      cases h
      exact .inl ⟨hsmall, Nat.mod_eq_of_lt hsmall, rfl, fun hleft => by omega⟩
    · rename_i hlarge
      cases hhigh : decodeWithin left bs with
      | error e =>
        rw [hhigh] at h
        cases h
      | ok r =>
        rw [hhigh] at h
        cases h
        exact .inr ⟨Nat.not_lt.mp hlarge, r.1, rfl, rfl⟩

theorem decodeWithin_cons_of_lt (h : b.toNat < 128) (hlast : left = 0 → b.toNat ≤ 1) :
    decodeWithin (left + 1) (b :: bs) = .ok (b.toNat, bs) := by
  have hmod : b.toNat % 128 = b.toNat := Nat.mod_eq_of_lt h
  simp only [decodeWithin, hmod]
  rw [if_neg (by omega), if_pos h]

theorem decodeWithin_cons_of_le {high : Nat} (h : 128 ≤ b.toNat)
    (hhigh : decodeWithin left bs = .ok (high, rest)) :
    decodeWithin (left + 1) (b :: bs) = .ok (b.toNat % 128 + 128 * high, rest) := by
  -- No byte is left after the last one, so this one is not the last.
  have hleft : left ≠ 0 := by
    rintro rfl
    cases hhigh
  simp only [decodeWithin]
  rw [if_neg (by omega), if_neg (Nat.not_lt.mpr h), hhigh]
  rfl

/-! ### Whole numbers -/

theorem exists_decodeWithin (h : decodeWithin left bs = .ok (n, rest)) :
    ∃ x, bs = x ++ rest ∧ ∀ t, decodeWithin left (x ++ t) = .ok (n, t) := by
  induction left generalizing n bs with
  | zero => cases h
  | succ left ih =>
    cases bs with
    | nil => cases h
    | cons b bs =>
      rcases decodeWithin_cons_eq_ok h with ⟨hsmall, rfl, rfl, hlast⟩ | ⟨hlarge, high, hhigh, rfl⟩
      · exact ⟨[b], rfl, fun t => decodeWithin_cons_of_lt hsmall hlast⟩
      · obtain ⟨x, rfl, hx⟩ := ih hhigh
        exact ⟨b :: x, rfl, fun t => decodeWithin_cons_of_le hlarge (hx t)⟩

/-- Seven bits of a number stand in each byte, and one in the last. -/
theorem lt_of_decodeWithin (h : decodeWithin (left + 1) bs = .ok (n, rest)) :
    n < 2 * 128 ^ left := by
  induction left generalizing n bs with
  | zero =>
    cases bs with
    | nil => cases h
    | cons b bs =>
      rcases decodeWithin_cons_eq_ok h with ⟨_, _, _, hlast⟩ | ⟨_, high, hhigh, _⟩
      · have := hlast rfl
        omega
      · cases hhigh
  | succ left ih =>
    cases bs with
    | nil => cases h
    | cons b bs =>
      have hpos : 0 < 128 ^ left := Nat.pow_pos (by decide)
      rw [Nat.pow_succ]
      rcases decodeWithin_cons_eq_ok h with ⟨_, _, _, _⟩ | ⟨_, high, hhigh, rfl⟩
      · omega
      · have := ih hhigh
        omega

/-- No number is read off fewer bytes than it is written in, and off as many only in that form. -/
theorem length_le_of_decodeWithin (h : decodeWithin left (x ++ rest) = .ok (n, rest)) :
    length n ≤ x.length ∧ (x.length = length n → x = encode n) := by
  induction left generalizing n x with
  | zero => cases h
  | succ left ih =>
    cases x with
    | nil =>
      have := length_lt_of_decodeWithin h
      rw [List.nil_append] at this
      omega
    | cons b x =>
      rcases decodeWithin_cons_eq_ok h with ⟨hsmall, rfl, hrest, _⟩ | ⟨hlarge, high, hhigh, rfl⟩
      · have hnil : x = [] := by simpa using hrest
        subst hnil
        rw [length, encode, if_pos hsmall, if_pos hsmall, UInt8.ofNat_toNat]
        exact ⟨Nat.le_refl 1, fun _ => rfl⟩
      · obtain ⟨hle, heq⟩ := ih hhigh
        have hpos := length_pos high
        have hlow : b.toNat % 128 + 128 = b.toNat := by
          have := b.toNat_lt
          omega
        rw [length, encode, List.length_cons]
        split
        · exact ⟨by omega, fun hlength => by omega⟩
        · have hdiv : (b.toNat % 128 + 128 * high) / 128 = high := by omega
          have hmod : (b.toNat % 128 + 128 * high) % 128 = b.toNat % 128 := by omega
          rw [hdiv, hmod, hlow, UInt8.ofNat_toNat]
          exact ⟨by omega, fun hlength => by rw [heq (by omega)]⟩

/-- **What is taken off reads as the number whatever comes after it.** -/
theorem exists_reads (h : varint bs = .ok (n, rest)) : ∃ x, bs = x ++ rest ∧ Reads varint x n :=
  exists_decodeWithin h

theorem lt_of_reads (h : Reads varint x n) : n < UInt64.size :=
  lt_of_decodeWithin (h [])

theorem length_le_of_reads (h : Reads varint x n) : length n ≤ x.length :=
  (length_le_of_decodeWithin (h [])).1

theorem eq_encode_of_reads (h : Reads varint x n) (hlength : x.length = length n) : x = encode n :=
  (length_le_of_decodeWithin (h [])).2 hlength

theorem length_mono {m : Nat} (h : m ≤ n) : length m ≤ length n := by
  fun_induction length n generalizing m with
  | case1 n hn => rw [length, if_pos (by omega)]
  | case2 n hn ih =>
    by_cases hm : m < 128
    · rw [length, if_pos hm]
      exact Nat.le_add_left 1 _
    · rw [length, if_neg hm]
      exact Nat.succ_le_succ (ih (Nat.div_le_div_right h))

/-! ### The shortest form -/

/-- No fewer bytes read as the same number. -/
def Minimal (x : Bytes) : Prop :=
  ∀ n y, Reads varint x n → Reads varint y n → x.length ≤ y.length

/-- **Among the byte strings that read as a number, the shortest is the written form.** -/
theorem minimal_iff (h : Reads varint x n) : Minimal x ↔ x = encode n := by
  constructor
  · intro hminimal
    have hwritten : Reads varint (encode n) n := reads_varint (lt_of_reads h)
    have hle := hminimal n _ h hwritten
    rw [length_encode] at hle
    exact eq_encode_of_reads h (Nat.le_antisymm hle (length_le_of_reads h))
  · rintro rfl m y hm hy
    obtain rfl : m = n := by
      have hboth := (hm []).symm.trans (h [])
      cases hboth
      rfl
    rw [length_encode]
    exact length_le_of_reads hy

/-! ### Faults -/

theorem decodeWithin_append_of_error {e : CodecError} (h : decodeWithin left bs = .error e)
    (he : e ≠ .inputTooShort) (t : Bytes) : decodeWithin left (bs ++ t) = .error e := by
  induction left generalizing bs with
  | zero => exact h
  | succ left ih =>
    cases bs with
    | nil =>
      cases h
      exact absurd rfl he
    | cons b bs =>
      simp only [List.cons_append, decodeWithin] at h ⊢
      split
      · rename_i hlast
        rwa [if_pos hlast] at h
      · rename_i hlast
        rw [if_neg hlast] at h
        split
        · rename_i hsmall
          rw [if_pos hsmall] at h
          cases h
        · rename_i hlarge
          rw [if_neg hlarge] at h
          cases hhigh : decodeWithin left bs with
          | ok r =>
            rw [hhigh] at h
            cases h
          | error e' =>
            rw [hhigh] at h
            obtain rfl := Except.error.inj h
            rw [ih hhigh]
            rfl

/-- A number is faulty, or there are fewer bytes than a number may take. -/
theorem error_cases {e : CodecError} (h : decodeWithin left bs = .error e) :
    e = .varintOverflow ∨ e = .inputTooShort ∧ bs.length < left := by
  induction left generalizing bs with
  | zero => exact .inl (Except.error.inj h).symm
  | succ left ih =>
    cases bs with
    | nil => exact .inr ⟨(Except.error.inj h).symm, Nat.succ_pos left⟩
    | cons b bs =>
      simp only [decodeWithin] at h
      split at h
      · exact .inl (Except.error.inj h).symm
      · split at h
        · cases h
        · cases hhigh : decodeWithin left bs with
          | ok r =>
            rw [hhigh] at h
            cases h
          | error e' =>
            rw [hhigh] at h
            obtain rfl := Except.error.inj h
            exact (ih hhigh).imp_right fun hshort => ⟨hshort.1, Nat.succ_lt_succ hshort.2⟩

/-- **A fault other than a lack of bytes stays.** -/
theorem decode_append_of_error {e : CodecError} (h : decode bs = .error e)
    (he : e ≠ .inputTooShort) (t : Bytes) : decode (bs ++ t) = .error e :=
  decodeWithin_append_of_error h he t

end Varint

end Courier
