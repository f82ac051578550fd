import Courier.Codec.Error

/-!
## Numbers of variable length

A number is written in groups of seven bits, the least significant group first, one group a byte;
the top bit is set on every byte but the last. A number of 64 bits takes at most ten bytes.

* `length_encode`: `length` is the number of bytes written.
* `decode_encode`: a number of 64 bits reads back, whatever follows it.
-/

namespace Courier.Varint

/-- The most bytes that a number of 64 bits takes. -/
def maxLength : Nat := 10

/-- The written form of a number. -/
def encode (n : Nat) : Bytes :=
  if n < 128 then [UInt8.ofNat n] else UInt8.ofNat (n % 128 + 128) :: encode (n / 128)

/-- The length of the written form. -/
def length (n : Nat) : Nat := if n < 128 then 1 else length (n / 128) + 1

/-- Reads a number off the front of some bytes, of which at most `left` belong to it. Only one bit
of the last of ten bytes is left for a number of 64 bits. -/
def decodeWithin : (left : Nat) → Bytes → Except CodecError (Nat × Bytes)
  | 0, _ => .error .varintOverflow
  | _ + 1, [] => .error .inputTooShort
  | left + 1, b :: rest =>
    let low := b.toNat % 128
    if left = 0 ∧ 1 < low then .error .varintOverflow
    else if b.toNat < 128 then .ok (low, rest)
    else (decodeWithin left rest).map fun (high, rest) => (low + 128 * high, rest)

/-- Reads a number of at most 64 bits off the front of some bytes. -/
def decode (bs : Bytes) : Except CodecError (Nat × Bytes) := decodeWithin maxLength bs

/-- A number below 128 is one byte. -/
theorem encode_of_lt {n : Nat} (h : n < 128) : encode n = [UInt8.ofNat n] := by
  rw [encode, if_pos h]

@[simp] theorem length_encode (n : Nat) : (encode n).length = length n := by
  fun_induction encode n with
  | case1 n h => simp [length, h]
  | case2 n h ih => rw [length]; simp [h, ih]

theorem length_pos (n : Nat) : 0 < length n := by
  unfold length
  split <;> omega

theorem decodeWithin_encode {left n : Nat} (h : n >>> (7 * left) < 2) (rest : Bytes) :
    decodeWithin (left + 1) (encode n ++ rest) = .ok (n, rest) := by
  induction left generalizing n with
  | zero =>
    have h2 : n < 2 := by simpa using h
    have : n = 0 ∨ n = 1 := by omega
    rcases this with rfl | rfl <;> simp [encode, decodeWithin]
  | succ left ih =>
    unfold encode
    split
    · rename_i hs
      have : n % 256 = n := by omega
      simp [decodeWithin, this, Nat.mod_eq_of_lt hs, hs]
    · rename_i hs
      have h1 : (n % 128 + 128) % 256 = n % 128 + 128 := by omega
      have h2 : (n / 128) >>> (7 * left) < 2 := by
        rwa [Nat.mul_succ, Nat.add_comm, Nat.shiftRight_add, Nat.shiftRight_eq_div_pow n] at h
      have h3 : (n % 128 + 128) % 128 = n % 128 := by omega
      have h4 : ¬ n % 128 + 128 < 128 := by omega
      simp [decodeWithin, h1, ih h2, Except.map, h3, h4, Nat.mod_add_div]

/-- A number of 64 bits reads back. -/
theorem decode_encode {n : Nat} (h : n < UInt64.size) (rest : Bytes) :
    decode (encode n ++ rest) = .ok (n, rest) :=
  @decodeWithin_encode 9 n (by rw [Nat.shiftRight_eq_div_pow]; unfold UInt64.size at h; omega) rest

/-- A number takes at least one byte. -/
theorem length_lt_of_decodeWithin {left n : Nat} {bs rest : Bytes}
    (h : decodeWithin left bs = .ok (n, rest)) : rest.length < bs.length := by
  induction left generalizing n bs rest with
  | zero => simp [decodeWithin] at h
  | succ left ih =>
    cases bs with
    | nil => simp [decodeWithin] at h
    | cons b bs =>
      simp only [decodeWithin] at h
      split at h
      · cases h
      · split at h
        · cases h; simp
        · cases hd : decodeWithin left bs with
          | error e => simp [hd, Except.map] at h
          | ok r =>
            obtain ⟨high, rest'⟩ := r
            simp only [hd, Except.map, Except.ok.injEq, Prod.mk.injEq] at h
            have := ih hd
            simp only [List.length_cons, ← h.2]
            omega

end Courier.Varint
