import Courier.Crypto.Word

/-!
## ChaCha20

A stream cipher: sixteen words, of which four are constants, eight the key, one a block counter and
three the nonce, are mixed in twenty rounds into 64 bytes of key stream.
-/

namespace Courier.Crypto.ChaCha20

/-- The quarter round on four of the sixteen words. -/
def quarterRound (s : Array UInt32) (a b c d : Nat) : Array UInt32 :=
  let va := s.getD a 0 + s.getD b 0
  let vd := rotateLeft (s.getD d 0 ^^^ va) 16
  let vc := s.getD c 0 + vd
  let vb := rotateLeft (s.getD b 0 ^^^ vc) 12
  let va := va + vb
  let vd := rotateLeft (vd ^^^ va) 8
  let vc := vc + vd
  let vb := rotateLeft (vb ^^^ vc) 7
  (((s.setIfInBounds a va).setIfInBounds b vb).setIfInBounds c vc).setIfInBounds d vd

/-- A round on the columns and a round on the diagonals. -/
def doubleRound (s : Array UInt32) : Array UInt32 :=
  let s := quarterRound s 0 4 8 12
  let s := quarterRound s 1 5 9 13
  let s := quarterRound s 2 6 10 14
  let s := quarterRound s 3 7 11 15
  let s := quarterRound s 0 5 10 15
  let s := quarterRound s 1 6 11 12
  let s := quarterRound s 2 7 8 13
  quarterRound s 3 4 9 14

/-- The words of a key of 32 bytes, a block number and a nonce of 12 bytes. -/
def start (key nonce : ByteArray) (counter : UInt32) : Array UInt32 :=
  #[0x61707865, 0x3320646e, 0x79622d32, 0x6b206574,
    wordLE key 0, wordLE key 4, wordLE key 8, wordLE key 12,
    wordLE key 16, wordLE key 20, wordLE key 24, wordLE key 28,
    counter, wordLE nonce 0, wordLE nonce 4, wordLE nonce 8]

/-- The sixteen words of key stream of one block. -/
def block (key nonce : ByteArray) (counter : UInt32) : Array UInt32 :=
  let s := start key nonce counter
  let mixed := Nat.fold 10 (fun _ _ t => doubleRound t) s
  mixed.mapIdx fun i x => x + s.getD i 0

/-- The first 32 bytes of the key stream of block zero. -/
def firstHalf (key nonce : ByteArray) : ByteArray :=
  let words := block key nonce 0
  Nat.fold 8 (fun i _ out => pushLE out (words.getD i 0)) (ByteArray.emptyWithCapacity 32)

/-- Combines one block of key stream with the input from a position. -/
def mixBlock (words : Array UInt32) (input : ByteArray) (from_ : Nat) (out : ByteArray) :
    ByteArray :=
  Nat.fold (min 64 (input.size - from_)) (fun i _ out =>
    let w := words.getD (i / 4) 0
    let k := (w >>> UInt32.ofNat (8 * (i % 4))).toUInt8
    out.push (byteAt input (from_ + i) ^^^ k)) out

/-- The input combined with the key stream from block one on. The same call undoes it. -/
def xor (key nonce input : ByteArray) : ByteArray :=
  Nat.fold ((input.size + 63) / 64) (fun i _ out =>
    mixBlock (block key nonce (UInt32.ofNat (i + 1))) input (64 * i) out)
    (ByteArray.emptyWithCapacity input.size)

end Courier.Crypto.ChaCha20
