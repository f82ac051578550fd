import Courier.Bytes
import Courier.Text.Numeral

/-!
## Hexadecimal text

Each byte is two digits, the high half first. Writing uses the lower-case letters, reading takes
both cases.
-/

namespace Courier.Hex

/-- The digit of a value below sixteen. -/
def digit (n : Nat) : Char := Nat.digitChar n

/-- The two digits of a byte. -/
def ofByte (b : UInt8) : List Char := [digit (b.toNat / 16), digit (b.toNat % 16)]

/-- The text of a byte string. -/
def encode (bs : Bytes) : String := String.ofList (bs.flatMap ofByte)

/-- The bytes of a list of digits, put after the bytes read before, which are held in reverse. -/
def decodeAfter (read : Bytes) : List Char → Option Bytes
  | [] => some read.reverse
  | [_] => none
  | c :: d :: rest =>
    match Text.hexDigit? c, Text.hexDigit? d with
    | some high, some low => decodeAfter (UInt8.ofNat (16 * high + low) :: read) rest
    | _, _ => none

/-- The byte string that a text writes, if it is an even number of digits. -/
def decode? (s : String) : Option Bytes := decodeAfter [] s.toList

/-- A byte as `0x` and two digits. -/
def literal (b : UInt8) : String := "0x" ++ encode [b]

end Courier.Hex
