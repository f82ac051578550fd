import Courier.Crypto.Aead
import Courier.Crypto.Aes

/-!
## AES in Galois/counter mode

An authenticated cipher with 256-bit keys, with the message number in the last eight bytes of the
nonce, most significant byte first. The tag is a polynomial in the field of `2 ^ 128` elements,
encrypted with block one of the counter; the plaintext starts at block two.
-/

namespace Courier.Crypto.AesGcm

/-- An element of the field of `2 ^ 128` elements: the coefficient of `x ^ 0` is the top bit of the
first half. -/
structure Element where
  (high low : UInt64)

namespace Element

/-- The sum of the products of `x` over the bits of a factor that are still to be read. -/
def mulLoop : (bits : Nat) → (zh zl vh vl xh xl : UInt64) → Element
  | 0, zh, zl, _, _, _, _ => ⟨zh, zl⟩
  | bits + 1, zh, zl, vh, vl, xh, xl =>
    let set := xh >>> 63
    let zh' := if set = 0 then zh else zh ^^^ vh
    let zl' := if set = 0 then zl else zl ^^^ vl
    let carry : UInt64 := if vl &&& 1 = 0 then 0 else 0xe100000000000000
    mulLoop bits zh' zl' ((vh >>> 1) ^^^ carry) ((vl >>> 1) ||| (vh <<< 63))
      ((xh <<< 1) ||| (xl >>> 63)) (xl <<< 1)

/-- The product in the field modulo `x ^ 128 + x ^ 7 + x ^ 2 + x + 1`. -/
def mul (x y : Element) : Element := mulLoop 128 0 0 y.high y.low x.high x.low

/-- The sum in the field. -/
def add (x y : Element) : Element := ⟨x.high ^^^ y.high, x.low ^^^ y.low⟩

/-- The element in the 16 bytes at a position. -/
def ofBytes (a : ByteArray) (i : Nat) : Element where
  high := ((wordBE a i).toUInt64 <<< 32) ||| (wordBE a (i + 4)).toUInt64
  low := ((wordBE a (i + 8)).toUInt64 <<< 32) ||| (wordBE a (i + 12)).toUInt64

end Element

/-- The polynomial with the 16-byte blocks of `a` as coefficients, evaluated at `h`. -/
def ghash (h : Element) (a : ByteArray) : Element :=
  Nat.fold (a.size / 16) (fun i _ acc => (acc.add (Element.ofBytes a (16 * i))).mul h) ⟨0, 0⟩

/-- The counter block of a message: four zero bytes, the message number, the block number. -/
def counterBlock (number : Nat) (block : UInt32) : Aes.Block :=
  ⟨0, UInt32.ofNat (number >>> 32), UInt32.ofNat number, block⟩

/-- Combines one block of key stream with the input from a position. -/
def mixBlock (k : Aes.Block) (input : ByteArray) (from_ : Nat) (out : ByteArray) : ByteArray :=
  Nat.fold (min 16 (input.size - from_)) (fun i _ out =>
    let w := if i < 8 then (if i < 4 then k.c0 else k.c1) else (if i < 12 then k.c2 else k.c3)
    out.push (byteAt input (from_ + i) ^^^ Aes.byteOf w (UInt32.ofNat (i % 4)))) out

/-- The input combined with the key stream. The same call undoes it. -/
def stream (key : ByteArray) (number : Nat) (input : ByteArray) : ByteArray :=
  let keys := Aes.expandKey key
  Nat.fold ((input.size + 15) / 16) (fun i _ out =>
    let k := Aes.encryptBlock keys (counterBlock number (UInt32.ofNat (i + 2)))
    mixBlock k input (16 * i) out) (ByteArray.emptyWithCapacity input.size)

/-- The tag over associated data and ciphertext, each padded, and their lengths in bits. -/
def tag (key : ByteArray) (number : Nat) (associated body : ByteArray) : ByteArray :=
  let keys := Aes.expandKey key
  let h := Aes.encryptBlock keys ⟨0, 0, 0, 0⟩
  let point : Element :=
    ⟨(h.c0.toUInt64 <<< 32) ||| h.c1.toUInt64, (h.c2.toUInt64 <<< 32) ||| h.c3.toUInt64⟩
  let sum := ghash point (Aead.padded associated ++ Aead.padded body)
  let lengths : Element := ⟨UInt64.ofNat (8 * associated.size), UInt64.ofNat (8 * body.size)⟩
  let t := (sum.add lengths).mul point
  let k := Aes.encryptBlock keys (counterBlock number 1)
  [(t.high >>> 32).toUInt32 ^^^ k.c0, t.high.toUInt32 ^^^ k.c1, (t.low >>> 32).toUInt32 ^^^ k.c2,
    t.low.toUInt32 ^^^ k.c3].foldl pushBE (ByteArray.emptyWithCapacity 16)

/-- The cipher. -/
def cipher : Aead := Aead.ofStream stream tag

end Courier.Crypto.AesGcm
