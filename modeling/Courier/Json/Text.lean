import Courier.Bytes
import Courier.Parser
import Courier.Text.Hex

/-!
## Texts in JSON

A text stands in double quotes. Control characters, quotes and backslashes in it are escaped. An escape
by number gives 16 bits, and a character beyond them takes two such escapes, of which neither may
stand alone.

* `Json.string`: reads a text.
* `Json.quote`: writes one.
-/

namespace Courier.Json

open Courier.Parser

/-- The byte of an ASCII character. -/
def ascii (c : Char) : UInt8 := UInt8.ofNat c.toNat

/-- A given ASCII character. -/
def mark (c : Char) : Parser UInt8 Unit := token (ascii c)

/-- A byte that stands for itself in a text. -/
def isPlain (b : UInt8) : Bool := 0x20 ≤ b && b != ascii '"' && b != ascii '\\'

/-! ### Reading -/

/-- The number that four hexadecimal digits write. -/
def hex4 : Parser UInt8 Nat := do
  let digits ← exactly 4 fun b => (Text.hexDigit? (Char.ofNat b.toNat)).isSome
  return (Text.digits? 16 (digits.map fun b => Char.ofNat b.toNat)).getD 0

/-- The second of two escapes that give one character, after the first with its number. -/
def secondHalf (first : Nat) : Parser UInt8 Char := do
  mark '\\'
  mark 'u'
  let second ← hex4
  require (0xdc00 ≤ second && second < 0xe000)
  return Char.ofNat (0x10000 + (first - 0xd800) * 0x400 + (second - 0xdc00))

/-- The character that an escape by number stands for. -/
def numbered : Parser UInt8 Char := do
  let n ← hex4
  if 0xd800 ≤ n && n < 0xdc00 then secondHalf n
  else do
    require (n < 0xdc00 || 0xe000 ≤ n)
    return Char.ofNat n

/-- The character that a letter after a backslash stands for. -/
def named? (b : UInt8) : Option Char :=
  [('"', '"'), ('\\', '\\'), ('/', '/'), ('b', '\x08'), ('f', '\x0c'), ('n', '\n'), ('r', '\r'),
    ('t', '\t')].findSome? fun (letter, c) => if ascii letter == b then some c else none

/-- The bytes of the character that an escape stands for. -/
def escaped : Parser UInt8 Bytes := do
  mark '\\'
  let b ← one fun _ => true
  let c ← if b == ascii 'u' then numbered else (named? b : Option Char)
  return Bytes.ofString (String.singleton c)

/-- A text. -/
def string : Parser UInt8 String := do
  mark '"'
  let parts ← many ((do return [← one isPlain]) <|> escaped)
  mark '"'
  Bytes.toString? parts.flatten

/-! ### Writing -/

/-- The form of a character inside a text. -/
def escape (c : Char) : List Char :=
  match c with
  | '"' => ['\\', '"']
  | '\\' => ['\\', '\\']
  | '\x08' => ['\\', 'b']
  | '\x0c' => ['\\', 'f']
  | '\n' => ['\\', 'n']
  | '\r' => ['\\', 'r']
  | '\t' => ['\\', 't']
  | c => if c.toNat < 0x20 then ['\\', 'u', '0', '0'] ++ Hex.ofByte (UInt8.ofNat c.toNat) else [c]

/-- A text in quotes. -/
def quote (s : String) : String := String.ofList ('"' :: (s.toList.flatMap escape ++ ['"']))

end Courier.Json
