import Courier.Text.Shortest
import Courier.Toml.Value

/-!
## Writing documents

The settings of each table come first, one a line, and then the tables in it, each under its header
and after an empty line. A text is quoted so that it needs no escapes, if it can be.
-/

namespace Courier.Toml

/-! ### Texts -/

/-- How a text is quoted. -/
inductive Quoting
  /-- Between double quotes, with escapes. -/
  | basic
  /-- Between single quotes, as it is. -/
  | literal
  /-- Between three double quotes, with escapes except for line feeds and up to two quotes. -/
  | basicLines
  /-- Between three single quotes, as it is. -/
  | literalLines
deriving DecidableEq

namespace Quoting

/-- What stands on either side of the text. -/
def delimiter : Quoting → String
  | basic => "\""
  | literal => "'"
  | basicLines => "\"\"\""
  | literalLines => "'''"

/-- Whether the text may go over several lines. -/
def isLines : Quoting → Bool
  | basic | literal => false
  | basicLines | literalLines => true

/-- Whether escapes stand for characters. -/
def hasEscapes : Quoting → Bool
  | basic | basicLines => true
  | literal | literalLines => false

end Quoting

/-- The longest run of a character. -/
def longestRun (c : Char) (cs : List Char) : Nat :=
  (cs.foldl (fun (longest, current) d =>
    let current := if d = c then current + 1 else 0
    (max longest current, current)) (0, 0)).1

/-- Whether a character needs an escape wherever it stands. -/
def isControl (c : Char) : Bool := (c.toNat < 0x20 && c ≠ '\t' && c ≠ '\n') || c.toNat = 0x7f

/-- The first way to quote a text that needs no escape in it, in the order of double quotes, single
quotes, three double quotes and three single quotes. If there is none, the text has escapes. -/
def quotingFor (cs : List Char) : Quoting :=
  let lines := cs.contains '\n'
  let controls := cs.any isControl
  let escapes := controls || cs.contains '\\'
  if !escapes && !lines && !cs.contains '"' then .basic
  else if !controls && !lines && !cs.contains '\'' then .literal
  else if !escapes && longestRun '"' cs ≤ 2 then .basicLines
  else if !controls && longestRun '\'' cs ≤ 2 then .literalLines
  else if lines then .basicLines
  else .basic

/-- Four hexadecimal digits. -/
def fourDigits (n : Nat) : List Char :=
  let digits := (Nat.toDigits 16 n).map Char.toUpper
  List.replicate (4 - digits.length) '0' ++ digits

/-- A character other than a quote between double quotes. -/
def escapeChar (lines : Bool) (c : Char) : List Char :=
  match c with
  | '\x08' => ['\\', 'b']
  | '\t' => ['\\', 't']
  | '\n' => if lines then ['\n'] else ['\\', 'n']
  | '\x0c' => ['\\', 'f']
  | '\r' => ['\\', 'r']
  | '\\' => ['\\', '\\']
  | c => if isControl c then ['\\', 'u'] ++ fourDigits c.toNat else [c]

/-- The characters of a text between double quotes, of which so many quotes in a row have just been
written as they are. Three of them would end a text of several lines, and one any other. -/
def escapeAll (lines : Bool) : (quotes : Nat) → List Char → List Char
  | _, [] => []
  | quotes, '"' :: rest =>
    if lines && quotes < 2 then '"' :: escapeAll lines (quotes + 1) rest
    else '\\' :: '"' :: escapeAll lines 0 rest
  | _, c :: rest => escapeChar lines c ++ escapeAll lines 0 rest

/-- A quoted text. One of several lines begins on a line of its own. -/
def quote (s : String) : String :=
  let q := quotingFor s.toList
  let inner := if q.hasEscapes then String.ofList (escapeAll q.isLines 0 s.toList) else s
  let first := if q.isLines && s.toList.contains '\n' then "\n" else ""
  q.delimiter ++ first ++ inner ++ q.delimiter

/-! ### Values and documents -/

/-- A fraction, which always shows a point. -/
def floatText (x : Float) : String :=
  let s := Text.Shortest.float x
  if s.toList.all fun c => c.isDigit || c == '-' then s ++ ".0" else s

mutual

/-- A value on the right of a setting. The elements of a list stand on lines of their own. -/
def Value.text : Value → String
  | .string v => quote v
  | .integer v => toString v
  | .float v => floatText v
  | .boolean v => if v then "true" else "false"
  | .datetime => ""
  | .array [] => "[]"
  | .array elements => "[\n" ++ Value.lines elements ++ "]"
  | .table entries => "\x7b" ++ Value.inlineEntries entries ++ " \x7d"

/-- The elements of a list, each on its line. -/
def Value.lines : List Value → String
  | [] => ""
  | v :: rest => "    " ++ v.text ++ ",\n" ++ Value.lines rest

/-- The settings of a table in a line. -/
def Value.inlineEntries : List (String × Value) → String
  | [] => ""
  | [(name, v)] => " " ++ name ++ " = " ++ v.text
  | (name, v) :: rest => " " ++ name ++ " = " ++ v.text ++ "," ++ Value.inlineEntries rest

end

/-- The settings of a table that are no tables themselves. -/
def settingLines (entries : List (String × Value)) : String :=
  String.join (entries.filterMap fun (name, v) => match v with
    | .table _ => none
    | v => some (name ++ " = " ++ v.text ++ "\n"))

/-- A document of tables with settings, one level deep. -/
def write (entries : List (String × Value)) : String :=
  let sections := entries.filterMap fun (name, v) => match v with
    | .table inner => some ("[" ++ name ++ "]\n" ++ settingLines inner)
    | _ => none
  let settings := settingLines entries
  String.intercalate "\n" (if settings.isEmpty then sections else settings :: sections)

end Courier.Toml
