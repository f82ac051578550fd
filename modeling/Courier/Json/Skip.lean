import Courier.Json.Text

/-!
## Values in JSON that are passed over

A value of no interest still has to be well formed. Its texts need not say anything: their bytes and
the numbers of their escapes may be any.
-/

namespace Courier.Json

open Courier.Parser

/-- Blanks and line ends. -/
def blanks : Parser UInt8 Unit :=
  discard (run fun b => b == 0x20 || b == 0x09 || b == 0x0a || b == 0x0d)

/-- A decimal digit. -/
def isDigit (b : UInt8) : Bool := ascii '0' ≤ b && b ≤ ascii '9'

/-- The digits of a whole number, of which the first of several is not zero. -/
def whole : Parser UInt8 Bytes :=
  (do mark '0'; return [ascii '0']) <|> (do
    let first ← one fun b => isDigit b && b != ascii '0'
    let rest ← run isDigit
    return first :: rest)

/-- Passes over an escape. -/
def skipEscape : Parser UInt8 Unit := do
  mark '\\'
  -- Whether the number is half of a pair is of no interest in a text of no interest.
  (do mark 'u'; discard hex4) <|> discard (one fun b => (named? b).isSome)

/-- Passes over a text. -/
def skipText : Parser UInt8 Unit := do
  mark '"'
  discard (many (discard (one isPlain) <|> skipEscape))
  mark '"'

/-- Passes over a number. -/
def skipNumber : Parser UInt8 Unit := do
  discard (optional (mark '-'))
  discard whole
  discard (optional (do mark '.'; discard (run1 isDigit)))
  discard (optional (do
    mark 'e' <|> mark 'E'
    discard (optional (mark '+' <|> mark '-'))
    discard (run1 isDigit)))

/-- Passes over parts between two brackets, with commas between them. -/
def skipGroup (first last : Char) (part : Parser UInt8 Unit) : Parser UInt8 Unit := do
  mark first
  blanks
  mark last <|> do
    discard (separated (do part; blanks) (do mark ','; blanks))
    mark last

/-- Passes over a value with so many levels of brackets at most. -/
def skipWithin : (levels : Nat) → Parser UInt8 Unit
  | 0 => failure
  | levels + 1 =>
    skipText <|> skipNumber
      <|> word (['n', 'u', 'l', 'l'].map ascii)
      <|> word (['t', 'r', 'u', 'e'].map ascii)
      <|> word (['f', 'a', 'l', 's', 'e'].map ascii)
      <|> skipGroup '[' ']' (skipWithin levels)
      <|> skipGroup '\x7b' '\x7d' (do
        skipText
        blanks
        mark ':'
        blanks
        skipWithin levels)

/-- Passes over a value. Each level of brackets takes a byte, so that the number of bytes bounds their
number. -/
def skip : Parser UInt8 Unit := do
  skipWithin ((← get).length + 1)

end Courier.Json
