import Courier.Parser
import Courier.Text.Numeral

/-!
## Blanks, line ends and comments of documents
-/

namespace Courier.Toml

open Courier.Parser

/-- A blank inside a line. -/
def isBlank (c : Char) : Bool := c == ' ' || c == '\t'

/-- A character of a comment. -/
def isCommentChar (c : Char) : Bool := c == '\t' || (0x20 ≤ c.toNat && c.toNat ≠ 0x7f)

/-- Blanks, of which there may be none. -/
def blanks : Parser Char Unit := discard (run isBlank)

/-- A line end. -/
def newline : Parser Char Unit := token '\n' <|> word ['\r', '\n']

/-- A comment up to the end of its line. -/
def comment : Parser Char Unit := do
  token '#'
  discard (run isCommentChar)

/-- What may stand between the end of a statement and the next line. -/
def lineEnd : Parser Char Unit := do
  blanks
  discard (optional comment)
  newline <|> finish

/-- Blanks, line ends and comments between the elements of a list. -/
def gaps : Parser Char Unit := do
  blanks
  discard (many (do discard (optional comment); newline; blanks))

end Courier.Toml
