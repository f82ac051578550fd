import Mathlib
import Courier.Bytes

/-!
## Numbers in byte strings

What the digits of a number say about it, and what a byte string says as a number.

* `toNat_ofNat_mod`: as many digits as the width are written, and all of them read back.
* `ofNat_toNat`: a byte string is the written form of its number.
* `toNat_lt`: a byte string of a given length is below the power of 256 with that exponent.
-/

namespace Courier.Bytes

theorem foldl_eq (bs : Bytes) (n : Nat) :
    bs.foldl (fun n b => n * 256 + b.toNat) n = n * 256 ^ bs.length + toNat bs := by
  induction bs generalizing n with
  | nil => simp [toNat]
  | cons b bs ih =>
    simp only [toNat, List.foldl_cons, List.length_cons] at *
    rw [ih, ih (0 * 256 + b.toNat)]
    simp [Nat.pow_succ, Nat.add_mul, Nat.mul_assoc, Nat.mul_comm 256, Nat.add_assoc]

theorem toNat_cons (b : UInt8) (bs : Bytes) :
    toNat (b :: bs) = b.toNat * 256 ^ bs.length + toNat bs := by
  have := foldl_eq bs b.toNat
  simpa [toNat] using this

theorem toNat_lt (bs : Bytes) : toNat bs < 256 ^ bs.length := by
  induction bs with
  | nil => simp [toNat]
  | cons b bs ih =>
    rw [toNat_cons, List.length_cons, Nat.pow_succ]
    have hb : b.toNat ≤ 255 := Nat.le_of_lt_succ b.toNat_lt
    have : b.toNat * 256 ^ bs.length ≤ 255 * 256 ^ bs.length := Nat.mul_le_mul_right _ hb
    omega

/-- The digits of `n` below the width are all that is written. -/
theorem toNat_ofNat_mod (width n : Nat) : toNat (ofNat width n) = n % 256 ^ width := by
  induction width with
  | zero => simp [ofNat, toNat, Nat.mod_one]
  | succ width ih =>
    have h : 2 ^ (8 * width) = 256 ^ width := Nat.pow_mul 2 8 width
    rw [ofNat, toNat_cons, length_ofNat, ih, Nat.shiftRight_eq_div_pow, h, Nat.pow_succ, Nat.mod_mul]
    simp [Nat.mul_comm, Nat.add_comm]

/-- Byte strings of one length are told apart by their numbers. -/
theorem toNat_inj {bs cs : Bytes} (hlen : bs.length = cs.length) (h : toNat bs = toNat cs) :
    bs = cs := by
  induction bs generalizing cs with
  | nil => exact (List.eq_nil_of_length_eq_zero hlen.symm).symm
  | cons b bs ih =>
    cases cs with
    | nil => cases hlen
    | cons c cs =>
      have hrest : bs.length = cs.length := Nat.succ.inj hlen
      rw [toNat_cons, toNat_cons, hrest] at h
      have hb := toNat_lt bs
      have hc := toNat_lt cs
      rw [hrest] at hb
      have hpos : 0 < 256 ^ cs.length := Nat.pow_pos (by decide)
      rw [Nat.mul_comm, Nat.mul_comm c.toNat] at h
      -- The first digit is the quotient, and the rest is the remainder.
      have hdiv := congrArg (· / 256 ^ cs.length) h
      have hmod := congrArg (· % 256 ^ cs.length) h
      simp only [Nat.mul_add_div hpos, Nat.div_eq_of_lt hb, Nat.div_eq_of_lt hc,
        Nat.add_zero] at hdiv
      simp only [Nat.mul_add_mod, Nat.mod_eq_of_lt hb, Nat.mod_eq_of_lt hc] at hmod
      rw [UInt8.toNat_inj.mp hdiv, ih hrest hmod]

/-- A byte string is the written form of its number. -/
theorem ofNat_toNat (bs : Bytes) : ofNat bs.length (toNat bs) = bs := by
  refine toNat_inj (length_ofNat _ _) ?_
  rw [toNat_ofNat_mod, Nat.mod_eq_of_lt (toNat_lt bs)]

/-- A number that fits its width reads back. -/
theorem toNat_ofNat {width n : Nat} (h : n < 256 ^ width) : toNat (ofNat width n) = n := by
  rw [toNat_ofNat_mod, Nat.mod_eq_of_lt h]

end Courier.Bytes
