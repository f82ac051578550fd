import Courier.Crypto.Word

/-!
## SHA-256

The hash function with a digest of 256 bits. A message is padded to whole blocks of 64 bytes, and
each block is compressed into a chain of eight words.
-/

namespace Courier.Crypto.Sha256

/-- The eight chained words. -/
structure State where
  (a b c d e f g h : UInt32)

/-- The chain before the first block. -/
def State.initial : State where
  a := 0x6a09e667
  b := 0xbb67ae85
  c := 0x3c6ef372
  d := 0xa54ff53a
  e := 0x510e527f
  f := 0x9b05688c
  g := 0x1f83d9ab
  h := 0x5be0cd19

/-- One constant for each of the sixty-four rounds. -/
def roundConstants : Array UInt32 := #[
  0x428a2f98, 0x71374491, 0xb5c0fbcf, 0xe9b5dba5, 0x3956c25b, 0x59f111f1, 0x923f82a4, 0xab1c5ed5,
  0xd807aa98, 0x12835b01, 0x243185be, 0x550c7dc3, 0x72be5d74, 0x80deb1fe, 0x9bdc06a7, 0xc19bf174,
  0xe49b69c1, 0xefbe4786, 0x0fc19dc6, 0x240ca1cc, 0x2de92c6f, 0x4a7484aa, 0x5cb0a9dc, 0x76f988da,
  0x983e5152, 0xa831c66d, 0xb00327c8, 0xbf597fc7, 0xc6e00bf3, 0xd5a79147, 0x06ca6351, 0x14292967,
  0x27b70a85, 0x2e1b2138, 0x4d2c6dfc, 0x53380d13, 0x650a7354, 0x766a0abb, 0x81c2c92e, 0x92722c85,
  0xa2bfe8a1, 0xa81a664b, 0xc24b8b70, 0xc76c51a3, 0xd192e819, 0xd6990624, 0xf40e3585, 0x106aa070,
  0x19a4c116, 0x1e376c08, 0x2748774c, 0x34b0bcb5, 0x391c0cb3, 0x4ed8aa4a, 0x5b9cca4f, 0x682e6ff3,
  0x748f82ee, 0x78a5636f, 0x84c87814, 0x8cc70208, 0x90befffa, 0xa4506ceb, 0xbef9a3f7, 0xc67178f2]

/-- The words fed to the rounds: the sixteen of the block, then each from four before it. -/
def schedule (block : ByteArray) (start : Nat) : Array UInt32 :=
  let input := Nat.fold 16 (fun i _ w => w.push (wordBE block (start + 4 * i))) #[]
  Nat.fold 48 (fun i _ w =>
    let w15 := w.getD (i + 1) 0
    let w2 := w.getD (i + 14) 0
    let s0 := rotateRight w15 7 ^^^ rotateRight w15 18 ^^^ (w15 >>> 3)
    let s1 := rotateRight w2 17 ^^^ rotateRight w2 19 ^^^ (w2 >>> 10)
    w.push (w.getD i 0 + s0 + w.getD (i + 9) 0 + s1)) input

/-- One round, with its scheduled word and constant already added up. -/
def State.round (s : State) (kw : UInt32) : State :=
  let s1 := rotateRight s.e 6 ^^^ rotateRight s.e 11 ^^^ rotateRight s.e 25
  let choice := (s.e &&& s.f) ^^^ ((~~~ s.e) &&& s.g)
  let t1 := s.h + s1 + choice + kw
  let s0 := rotateRight s.a 2 ^^^ rotateRight s.a 13 ^^^ rotateRight s.a 22
  let majority := (s.a &&& s.b) ^^^ (s.a &&& s.c) ^^^ (s.b &&& s.c)
  { a := t1 + (s0 + majority), b := s.a, c := s.b, d := s.c
    e := s.d + t1, f := s.e, g := s.f, h := s.g }

/-- Word by word addition. -/
def State.add (s t : State) : State where
  a := s.a + t.a
  b := s.b + t.b
  c := s.c + t.c
  d := s.d + t.d
  e := s.e + t.e
  f := s.f + t.f
  g := s.g + t.g
  h := s.h + t.h

/-- The chain after the block that starts at a position. -/
def State.compress (s : State) (message : ByteArray) (start : Nat) : State :=
  let w := schedule message start
  let worked := Nat.fold 64 (fun i _ t => t.round (roundConstants.getD i 0 + w.getD i 0)) s
  s.add worked

/-- The message, a one bit, zeros up to eight bytes short of a block, and the length in bits. -/
def pad (message : ByteArray) : ByteArray :=
  let n := message.size
  -- 55 bytes and the mark are the most that share a block with the length.
  let filled := message.push 0x80 ++ zeros ((119 - n % 64) % 64)
  let bits := 8 * n
  pushBE (pushBE filled (UInt32.ofNat (bits >>> 32))) (UInt32.ofNat bits)

/-- The 32-byte digest of a message. -/
def hash (message : ByteArray) : ByteArray :=
  let padded := pad message
  let s := Nat.fold (padded.size / 64) (fun i _ s => s.compress padded (64 * i)) State.initial
  [s.a, s.b, s.c, s.d, s.e, s.f, s.g, s.h].foldl pushBE (ByteArray.emptyWithCapacity 32)

/-- Padding ends on a block. -/
theorem size_pad (message : ByteArray) : (pad message).size % 64 = 0 := by
  simp only [pad, size_pushBE, ByteArray.size_append, ByteArray.size_push, zeros]
  simp only [ByteArray.size, Array.size_replicate]
  omega

theorem size_hash (message : ByteArray) : (hash message).size = 32 := by
  simp only [hash, List.foldl_cons, List.foldl_nil, size_pushBE]
  rfl

end Courier.Crypto.Sha256
