import Courier.Crypto.Word

/-!
## The BLAKE round

The mixing of sixteen working words that both hash functions of the BLAKE family used here share,
and the eight words their chains start from.
-/

namespace Courier.Crypto.Blake

/-- The words every unkeyed chain starts from. -/
def initial : Array UInt32 := #[
  0x6a09e667, 0xbb67ae85, 0x3c6ef372, 0xa54ff53a, 0x510e527f, 0x9b05688c, 0x1f83d9ab, 0x5be0cd19]

/-- Mixes two message words into four of the sixteen working words. -/
def mix (v : Array UInt32) (a b c d : Nat) (x y : UInt32) : Array UInt32 :=
  let va := v.getD a 0 + v.getD b 0 + x
  let vd := rotateRight (v.getD d 0 ^^^ va) 16
  let vc := v.getD c 0 + vd
  let vb := rotateRight (v.getD b 0 ^^^ vc) 12
  let va := va + vb + y
  let vd := rotateRight (vd ^^^ va) 8
  let vc := vc + vd
  let vb := rotateRight (vb ^^^ vc) 7
  (((v.setIfInBounds a va).setIfInBounds b vb).setIfInBounds c vc).setIfInBounds d vd

/-- One round: the columns, then the diagonals, of the square of working words, each taking two of
the sixteen message words in turn. -/
def round (v m : Array UInt32) : Array UInt32 :=
  let v := mix v 0 4 8 12 (m.getD 0 0) (m.getD 1 0)
  let v := mix v 1 5 9 13 (m.getD 2 0) (m.getD 3 0)
  let v := mix v 2 6 10 14 (m.getD 4 0) (m.getD 5 0)
  let v := mix v 3 7 11 15 (m.getD 6 0) (m.getD 7 0)
  let v := mix v 0 5 10 15 (m.getD 8 0) (m.getD 9 0)
  let v := mix v 1 6 11 12 (m.getD 10 0) (m.getD 11 0)
  let v := mix v 2 7 8 13 (m.getD 12 0) (m.getD 13 0)
  mix v 3 4 9 14 (m.getD 14 0) (m.getD 15 0)

/-- The sixteen message words of the block at a position, zeros past the end of the input. -/
def blockWords (input : ByteArray) (start : Nat) : Array UInt32 :=
  Nat.fold 16 (fun i _ w => w.push (wordLE input (start + 4 * i))) #[]

end Courier.Crypto.Blake
