/-!
## Words in byte arrays

The hash functions and ciphers of this library work on 32-bit words cut out of byte arrays. This
module holds the rotations and the two byte orders; a read past the end of an array yields zeros.
-/

namespace Courier.Crypto

/-- The bits of `x` moved `n` places up, the ones pushed out coming back in below. -/
@[inline] def rotateLeft (x n : UInt32) : UInt32 := (x <<< n) ||| (x >>> (32 - n))

/-- The bits of `x` moved `n` places down, the ones pushed out coming back in above. -/
@[inline] def rotateRight (x n : UInt32) : UInt32 := (x >>> n) ||| (x <<< (32 - n))

/-- The byte at a position, zero past the end. -/
@[inline] def byteAt (a : ByteArray) (i : Nat) : UInt8 := if h : i < a.size then a[i] else 0

/-- The word at a position, least significant byte first. -/
@[inline] def wordLE (a : ByteArray) (i : Nat) : UInt32 :=
  (byteAt a i).toUInt32 ||| ((byteAt a (i + 1)).toUInt32 <<< 8) |||
    ((byteAt a (i + 2)).toUInt32 <<< 16) ||| ((byteAt a (i + 3)).toUInt32 <<< 24)

/-- The word at a position, most significant byte first. -/
@[inline] def wordBE (a : ByteArray) (i : Nat) : UInt32 :=
  ((byteAt a i).toUInt32 <<< 24) ||| ((byteAt a (i + 1)).toUInt32 <<< 16) |||
    ((byteAt a (i + 2)).toUInt32 <<< 8) ||| (byteAt a (i + 3)).toUInt32

/-- Appends a word, least significant byte first. -/
@[inline] def pushLE (a : ByteArray) (w : UInt32) : ByteArray :=
  (((a.push w.toUInt8).push (w >>> 8).toUInt8).push (w >>> 16).toUInt8).push (w >>> 24).toUInt8

/-- Appends a word, most significant byte first. -/
@[inline] def pushBE (a : ByteArray) (w : UInt32) : ByteArray :=
  (((a.push (w >>> 24).toUInt8).push (w >>> 16).toUInt8).push (w >>> 8).toUInt8).push w.toUInt8

/-- Appends the low `n` bytes of a number, least significant first. -/
def pushNatLE (a : ByteArray) : (n : Nat) → (v : Nat) → ByteArray
  | 0, _ => a
  | n + 1, v => pushNatLE (a.push (UInt8.ofNat v)) n (v / 256)

/-- The number in `n` bytes from a position, least significant first. -/
def natLE (a : ByteArray) (start n : Nat) : Nat :=
  Nat.fold n (fun i _ v => v * 256 + (byteAt a (start + (n - 1 - i))).toNat) 0

/-- An array of `n` zero bytes. -/
def zeros (n : Nat) : ByteArray := ⟨Array.replicate n 0⟩

theorem size_pushLE (a : ByteArray) (w : UInt32) : (pushLE a w).size = a.size + 4 := by
  simp [pushLE, ByteArray.size_push]

theorem size_pushBE (a : ByteArray) (w : UInt32) : (pushBE a w).size = a.size + 4 := by
  simp [pushBE, ByteArray.size_push]

theorem size_pushNatLE (a : ByteArray) (n v : Nat) : (pushNatLE a n v).size = a.size + n := by
  induction n generalizing a v with
  | zero => rfl
  | succ n ih => rw [pushNatLE, ih, ByteArray.size_push]; omega

end Courier.Crypto
