import Courier.Crypto.Word

/-!
## AES with 256-bit keys

The forward cipher with fourteen rounds. Bytes are elements of the field of 256 elements modulo
`x ^ 8 + x ^ 4 + x ^ 3 + x + 1`; the substitution table is computed from inversion in it.
-/

namespace Courier.Crypto.Aes

/-- The product by `x` in the field. -/
def double (b : UInt8) : UInt8 := (b <<< 1) ^^^ (if b &&& 0x80 = 0 then 0 else 0x1b)

/-- The product in the field, over the eight bits of the first factor. -/
def mul (a b : UInt8) : UInt8 :=
  let step := fun (i : Nat) (_ : i < 8) (s : UInt8 × UInt8) =>
    let (sum, b) := s
    (if a >>> UInt8.ofNat i &&& 1 = 0 then sum else sum ^^^ b, double b)
  (Nat.fold 8 step (0, b)).1

/-- The inverse in the field, as the 254th power; zero goes to zero. -/
def inverse (b : UInt8) : UInt8 :=
  let b2 := mul b b
  let b3 := mul b2 b
  let b6 := mul b3 b3
  let b12 := mul b6 b6
  let b15 := mul b12 b3
  let b30 := mul b15 b15
  let b60 := mul b30 b30
  let b63 := mul b60 b3
  let b126 := mul b63 b63
  let b127 := mul b126 b
  mul b127 b127

/-- The substitution of a byte: an affine map of its inverse. -/
def substitute (b : UInt8) : UInt8 :=
  let v := inverse b
  let turn (n : UInt8) : UInt8 := (v <<< n) ||| (v >>> (8 - n))
  v ^^^ turn 1 ^^^ turn 2 ^^^ turn 3 ^^^ turn 4 ^^^ 0x63

/-- The substitution of every byte. -/
def table : ByteArray := ⟨Array.ofFn fun i : Fin 256 => substitute (UInt8.ofNat i)⟩

/-- The substitution read from the table. -/
@[inline] def sub (b : UInt8) : UInt8 := byteAt table b.toNat

/-- A column of mixed bytes for each substituted byte, as the word of its products by 2, 1, 1
and 3. -/
def columns : Array UInt32 := Array.ofFn fun i : Fin 256 =>
  let s := substitute (UInt8.ofNat i)
  let t := double s
  (t.toUInt32 <<< 24) ||| (s.toUInt32 <<< 16) ||| (s.toUInt32 <<< 8) ||| (t ^^^ s).toUInt32

/-- One byte of a word, counted from the most significant. -/
@[inline] def byteOf (w : UInt32) (i : UInt32) : UInt8 := (w >>> (24 - 8 * i)).toUInt8

/-- The substitution of each byte of a word. -/
def subWord (w : UInt32) : UInt32 :=
  ((sub (byteOf w 0)).toUInt32 <<< 24) ||| ((sub (byteOf w 1)).toUInt32 <<< 16) |||
    ((sub (byteOf w 2)).toUInt32 <<< 8) ||| (sub (byteOf w 3)).toUInt32

/-- The sixty round-key words of a key of 32 bytes. -/
def expandKey (key : ByteArray) : Array UInt32 :=
  let first := Nat.fold 8 (fun i _ w => w.push (wordBE key (4 * i))) #[]
  let step := fun (i : Nat) (_ : i < 52) (s : Array UInt32 × UInt8) =>
    let (w, rcon) := s
    let last := w.getD (i + 7) 0
    if i % 8 = 0 then
      let turned := subWord (rotateLeft last 8) ^^^ (rcon.toUInt32 <<< 24)
      (w.push (w.getD i 0 ^^^ turned), double rcon)
    else if i % 8 = 4 then (w.push (w.getD i 0 ^^^ subWord last), rcon)
    else (w.push (w.getD i 0 ^^^ last), rcon)
  (Nat.fold 52 step (first, 1)).1

/-- A block of four column words. -/
structure Block where
  (c0 c1 c2 c3 : UInt32)

/-- One column after substitution, row shift and column mixing. -/
@[inline] def mixColumn (a b c d key : UInt32) : UInt32 :=
  columns.getD (byteOf a 0).toNat 0 ^^^
    rotateRight (columns.getD (byteOf b 1).toNat 0) 8 ^^^
    rotateRight (columns.getD (byteOf c 2).toNat 0) 16 ^^^
    rotateRight (columns.getD (byteOf d 3).toNat 0) 24 ^^^ key

/-- One column after substitution and row shift alone, as in the last round. -/
@[inline] def shiftColumn (a b c d key : UInt32) : UInt32 :=
  (((sub (byteOf a 0)).toUInt32 <<< 24) ||| ((sub (byteOf b 1)).toUInt32 <<< 16) |||
    ((sub (byteOf c 2)).toUInt32 <<< 8) ||| (sub (byteOf d 3)).toUInt32) ^^^ key

/-- The encryption of one block under expanded round keys. -/
def encryptBlock (keys : Array UInt32) (s : Block) : Block :=
  let key (i : Nat) : UInt32 := keys.getD i 0
  let s : Block := ⟨s.c0 ^^^ key 0, s.c1 ^^^ key 1, s.c2 ^^^ key 2, s.c3 ^^^ key 3⟩
  let s := Nat.fold 13 (fun r _ (s : Block) =>
    let k := 4 * (r + 1)
    { c0 := mixColumn s.c0 s.c1 s.c2 s.c3 (key k)
      c1 := mixColumn s.c1 s.c2 s.c3 s.c0 (key (k + 1))
      c2 := mixColumn s.c2 s.c3 s.c0 s.c1 (key (k + 2))
      c3 := mixColumn s.c3 s.c0 s.c1 s.c2 (key (k + 3)) : Block }) s
  { c0 := shiftColumn s.c0 s.c1 s.c2 s.c3 (key 56)
    c1 := shiftColumn s.c1 s.c2 s.c3 s.c0 (key 57)
    c2 := shiftColumn s.c2 s.c3 s.c0 s.c1 (key 58)
    c3 := shiftColumn s.c3 s.c0 s.c1 s.c2 (key 59) }

end Courier.Crypto.Aes
