import Courier.Toml.Blank
import Courier.Toml.Value

/-!
## Plain values of a document

Quoted texts, numbers, dates and truth values. A whole number has 64 bits; a fraction is the nearest
double, and one too large for a double is refused. Digits may be grouped by single underscores
between them.
-/

namespace Courier.Toml

open Courier.Parser

/-! ### Quoted texts -/

/-- A character that stands for itself in a text with escapes. -/
def isPlain (c : Char) : Bool :=
  isBlank c || (0x20 ≤ c.toNat && c.toNat ≠ 0x7f && c ≠ '"' && c ≠ '\\')

/-- A character that stands for itself in a text without escapes. -/
def isLiteral (c : Char) : Bool := c == '\t' || (0x20 ≤ c.toNat && c.toNat ≠ 0x7f && c ≠ '\'')

/-- A hexadecimal digit. -/
def isHexDigit (c : Char) : Bool := (Text.hexDigit? c).isSome

/-- The character with a number of `n` hexadecimal digits. -/
def codePoint (n : Nat) : Parser Char Char := do
  let digits ← exactly n isHexDigit
  let v := (Text.digits? 16 digits).getD 0
  require (v < 0xd800 || (0xe000 ≤ v && v < 0x110000))
  return Char.ofNat v

/-- The character that an escape stands for. -/
def escaped : Parser Char Char := do
  token '\\'
  match ← one fun _ => true with
  | 'b' => return '\x08'
  | 't' => return '\t'
  | 'n' => return '\n'
  | 'f' => return '\x0c'
  | 'r' => return '\r'
  | '"' => return '"'
  | '\\' => return '\\'
  | 'u' => codePoint 4
  | 'U' => codePoint 8
  | _ => failure

/-- A text of one line with escapes. -/
def basicText : Parser Char (List Char) := do
  token '"'
  let cs ← many (one isPlain <|> escaped)
  token '"'
  return cs

/-- A text of one line without escapes. -/
def literalText : Parser Char (List Char) := do
  token '\''
  let cs ← run isLiteral
  token '\''
  return cs

/-- One or two quotes that do not end a text of many lines. -/
def innerQuotes (quote : Char) : Parser Char (List Char) := do
  let quotes ← run1 (· == quote)
  require (quotes.length < 3)
  return quotes

/-- The quotes that end a text of many lines: three, after up to two that belong to the text. -/
def closingQuotes (quote : Char) : Parser Char (List Char) := do
  let quotes ← run1 (· == quote)
  require (3 ≤ quotes.length && quotes.length ≤ 5)
  return quotes.drop 3

/-- A line end of a text, which is a line feed however it was written. -/
def textNewline : Parser Char (List Char) := do
  newline
  return ['\n']

/-- A backslash before a line end, which takes all blanks and line ends after it out of the text. -/
def continuation : Parser Char (List Char) := do
  token '\\'
  blanks
  newline
  discard (many (discard (one isBlank) <|> newline))
  return []

/-- A text of many lines between three quotes on either side. -/
def multiline (quote : Char) (part : Parser Char (List Char)) : Parser Char (List Char) := do
  word [quote, quote, quote]
  discard (optional newline)
  let parts ← many (part <|> textNewline <|> innerQuotes quote)
  let last ← closingQuotes quote
  return parts.flatten ++ last

/-- Characters with escapes in a text of many lines. -/
def basicPart : Parser Char (List Char) :=
  run1 isPlain <|> continuation <|> (do return [← escaped])

/-- A quoted text of any of the four forms. -/
def text : Parser Char String := do
  let cs ← multiline '"' basicPart <|> multiline '\'' (run1 isLiteral) <|> basicText <|>
    literalText
  return String.ofList cs

/-! ### Numbers -/

/-- A decimal digit. -/
def isDigit (c : Char) : Bool := (Text.digit? c).isSome

/-- Digits of a class with single underscores between them. -/
def grouped (p : Char → Bool) : Parser Char (List Char) := do
  let first ← one p
  let rest ← many (one p <|> (do token '_'; one p))
  return first :: rest

/-- A sign that may be missing: whether it is a minus. -/
def sign : Parser Char Bool := (do token '-'; return true) <|> (do token '+'; return false) <|> return false

/-- The digits of a decimal whole number, which has no leading zero. -/
def wholeDigits : Parser Char (List Char) := do
  let digits ← grouped isDigit
  require (digits.length = 1 || digits.head? ≠ some '0')
  return digits

/-- Whether a number has 64 bits. -/
def fits (n : Int) : Bool := Int64.minValue.toInt ≤ n && n ≤ Int64.maxValue.toInt

/-- A whole number after `0x`, `0o` or `0b`. -/
def based (mark : Char) (base : Nat) : Parser Char Int := do
  word ['0', mark]
  let digits ← grouped fun c => (Text.digits? base [c]).isSome
  return Int.ofNat ((Text.digits? base digits).getD 0)

/-- A decimal whole number. -/
def decimalInteger : Parser Char Int := do
  let negative ← sign
  let digits ← wholeDigits
  let n := Int.ofNat ((Text.digits? 10 digits).getD 0)
  return if negative then -n else n

/-- A whole number of 64 bits. -/
def integer : Parser Char Value := do
  let n ← based 'x' 16 <|> based 'o' 8 <|> based 'b' 2 <|> decimalInteger
  require (fits n)
  return .integer n

/-- The double nearest to `m * 10 ^ e`. Exponents beyond the range of doubles are cut short. -/
def nearest (m : Nat) (e : Int) : Float :=
  let size : Int := (Nat.toDigits 10 m).length
  if m = 0 || size + e < -400 then 0
  else if 400 < size + e then 1.0 / 0.0
  else Float.ofScientific m (e < 0) e.natAbs

/-- The digits after a point. -/
def fraction : Parser Char (List Char) := do
  token '.'
  grouped isDigit

/-- A power of ten after the letter `e`. -/
def power : Parser Char Int := do
  discard (one fun c => c == 'e' || c == 'E')
  let negative ← sign
  let digits ← grouped isDigit
  let n := Int.ofNat ((Text.digits? 10 digits).getD 0)
  return if negative then -n else n

/-- A fraction in digits. -/
def decimalFloat : Parser Char Value := do
  let negative ← sign
  let whole ← wholeDigits
  let places ← optional fraction
  let exponent ← optional power
  require (places.isSome || exponent.isSome)
  let places := places.getD []
  let m := (Text.digits? 10 (whole ++ places)).getD 0
  let x := nearest m (exponent.getD 0 - places.length)
  require (negative || !x.isInf)
  return .float (if negative then -x else x)

/-- An infinity or a number that is none. -/
def specialFloat : Parser Char Value := do
  let negative ← sign
  (do
    word ['i', 'n', 'f']
    return .float (if negative then -1.0 / 0.0 else 1.0 / 0.0)) <|> (do
    word ['n', 'a', 'n']
    return .float (0.0 / 0.0))

/-! ### Dates and truth values -/

/-- A number of exactly `n` digits in a range. -/
def numberIn (n low high : Nat) : Parser Char Nat := do
  let digits ← exactly n isDigit
  let v := (Text.digits? 10 digits).getD 0
  require (low ≤ v && v ≤ high)
  return v

/-- The number of days in a month. -/
def daysIn (year month : Nat) : Nat :=
  if month = 2 then
    if year % 4 = 0 && (year % 100 ≠ 0 || year % 400 = 0) then 29 else 28
  else if month = 4 || month = 6 || month = 9 || month = 11 then 30
  else 31

/-- A day of the calendar. -/
def date : Parser Char Unit := do
  let year ← numberIn 4 0 9999
  token '-'
  let month ← numberIn 2 1 12
  token '-'
  discard (numberIn 2 1 (daysIn year month))

/-- A time of day. -/
def time : Parser Char Unit := do
  discard (numberIn 2 0 23)
  token ':'
  discard (numberIn 2 0 59)
  token ':'
  discard (numberIn 2 0 60)
  discard (optional (do token '.'; run1 isDigit))

/-- The distance of a clock from universal time. -/
def offset : Parser Char Unit :=
  discard (one fun c => c == 'Z' || c == 'z') <|> do
    discard (one fun c => c == '+' || c == '-')
    discard (numberIn 2 0 23)
    token ':'
    discard (numberIn 2 0 59)

/-- A date, a time of day, or both. -/
def datetime : Parser Char Value := do
  (do
    date
    discard (optional (do
      discard (one fun c => c == 'T' || c == 't' || c == ' ')
      time
      discard (optional offset)))) <|> time
  return .datetime

/-- A truth value. -/
def boolean : Parser Char Value :=
  (do word ['t', 'r', 'u', 'e']; return .boolean true) <|>
    (do word ['f', 'a', 'l', 's', 'e']; return .boolean false)

/-- A plain value. -/
def scalar : Parser Char Value :=
  (do return .string (← text)) <|> datetime <|> decimalFloat <|> specialFloat <|> integer <|>
    boolean

end Courier.Toml
