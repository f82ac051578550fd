import Courier.Text.Printable

/-!
## Quoted text in messages

A text inside a message stands in double quotes. Quotes, backslashes and line ends in it are
escaped, and so is every character that would not show.
-/

namespace Courier.Text

/-- The digits of a code point, in lower-case hexadecimal without leading zeros. -/
def codePoint (c : Char) : List Char := Nat.toDigits 16 c.toNat

/-- A character inside quotes. -/
def escape (c : Char) : List Char :=
  match c with
  | '\x00' => ['\\', '0']
  | '\t' => ['\\', 't']
  | '\r' => ['\\', 'r']
  | '\n' => ['\\', 'n']
  | '"' => ['\\', '"']
  | '\\' => ['\\', '\\']
  | c =>
    if isExtender c || !isPrintable c then ['\\', 'u', '\x7b'] ++ codePoint c ++ ['\x7d']
    else [c]

/-- A text in quotes. -/
def quoted (s : String) : String := String.ofList ('"' :: (s.toList.flatMap escape ++ ['"']))

end Courier.Text
