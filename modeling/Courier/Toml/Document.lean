import Courier.Toml.Scalar

/-!
## Reading documents

A document is a list of statements: settings under a key of one or more names, headers that open a
table, and headers that add a table to a list. A table is opened once, and a key set once; a table
that only came about on the way to another may still be opened.
-/

namespace Courier.Toml

open Courier.Parser

/-! ### Trees under construction -/

/-- A value of a document that is still being read. -/
inductive Node
  /-- A value that nothing can be added to. -/
  | leaf (v : Value)
  /-- A table: whether it only came about on the way to another, and whether a key with several
  names brought it about. -/
  | table (implicit dotted : Bool) (entries : List (String × Node))
  /-- A list of tables, the latest first. -/
  | tables (elements : List (List (String × Node)))

/-- The entries of a table under construction. -/
abbrev Entries := List (String × Node)

/-- Applies a change to the table under a path. Tables on the way that are missing come about. With
`dotted` the path belongs to a key rather than to a header, and must not enter a table that a header
opened. -/
def Entries.modify (dotted : Bool) (f : (dotted : Bool) → Entries → Option Entries) :
    (path : List String) → (here : Bool) → Entries → Option Entries
  | [], here, entries => f here entries
  | name :: path, _, entries =>
    match find? name entries with
    | none => do
      let inner ← Entries.modify dotted f path dotted []
      return put name (.table true dotted inner) entries
    | some (.leaf _) => none
    | some (.tables []) => none
    | some (.tables (latest :: earlier)) => do
      let latest ← Entries.modify dotted f path false latest
      return put name (.tables (latest :: earlier)) entries
    | some (.table implicit isDotted inner) =>
      -- Headers may go through any table, keys only through those that came about on the way.
      if dotted && !implicit then none
      else do
        let inner ← Entries.modify dotted f path isDotted inner
        return put name (.table implicit isDotted inner) entries

/-- Sets a key in a table. A key of several names ends in a table that such keys brought about. -/
def Entries.set (path : List String) (name : String) (v : Value) (entries : Entries) :
    Option Entries :=
  Entries.modify true (fun dotted entries =>
    -- One name sets in a table that no key brought about, several names only in one that a key did.
    if dotted == path.isEmpty then none
    else match find? name entries with
      | some _ => none
      | none => some (entries ++ [(name, .leaf v)])) path false entries

/-- Opens a table with a header. -/
def Entries.openTable (path : List String) (name : String) (entries : Entries) : Option Entries :=
  Entries.modify false (fun _ entries =>
    match find? name entries with
    | none => some (entries ++ [(name, .table false false [])])
    | some (.table true false inner) => some (put name (.table false false inner) entries)
    | some _ => none) path false entries

/-- Adds a table to a list with a header. -/
def Entries.openElement (path : List String) (name : String) (entries : Entries) :
    Option Entries :=
  Entries.modify false (fun _ entries =>
    match find? name entries with
    | none => some (entries ++ [(name, .tables [[]])])
    | some (.tables elements) => some (put name (.tables ([] :: elements)) entries)
    | some _ => none) path false entries

mutual

/-- The value of a finished tree. -/
def Node.value : Node → Value
  | .leaf v => v
  | .table _ _ entries => .table (Node.values entries)
  | .tables elements => .array (Node.elements elements).reverse

/-- The values of finished entries. -/
def Node.values : List (String × Node) → List (String × Value)
  | [] => []
  | (name, node) :: rest => (name, node.value) :: Node.values rest

/-- The values of a finished list of tables. -/
def Node.elements : List (List (String × Node)) → List Value
  | [] => []
  | entries :: rest => .table (Node.values entries) :: Node.elements rest

end

/-! ### Keys and values -/

/-- The most names in one key, and the most lists and tables that a value is nested in. -/
def depthLimit : Nat := 80

/-- A character of an unquoted name. -/
def isNameChar (c : Char) : Bool := c.isAlphanum || c == '_' || c == '-'

/-- One name of a key. -/
def keyName : Parser Char String := do
  let cs ← basicText <|> literalText <|> run1 isNameChar
  return String.ofList cs

/-- A key: all names but the last, and the last. -/
def key : Parser Char (List String × String) := do
  let names ← separated (do blanks; let name ← keyName; blanks; return name) (token '.')
  require (names.length < depthLimit)
  return (names.dropLast, names.getLastD "")

/-- A list, given what reads its elements. -/
def array (element : Parser Char Value) : Parser Char Value := do
  token '['
  let elements ← optional (separated (do gaps; let v ← element; gaps; return v) (token ','))
  -- A comma may follow the last element, but not stand alone.
  discard (optional (do require elements.isSome; token ','))
  gaps
  token ']'
  return .array (elements.getD [])

/-- A table in a line, given what reads its values. -/
def inlineTable (element : Parser Char Value) : Parser Char Value := do
  token '\x7b'
  let settings ← optional (separated (do
    let (path, name) ← key
    token '='
    blanks
    let v ← element
    blanks
    return (path, name, v)) (token ','))
  blanks
  token '\x7d'
  let entries ← (settings.getD []).foldlM (fun entries (path, name, v) =>
    match Entries.set path name v entries with
    | some entries => return entries
    | none => failure) ([] : Entries)
  return (Node.table false false entries).value

/-- A value nested in less than the given number of lists and tables. -/
def value : (levels : Nat) → Parser Char Value
  | 0 => failure
  | levels + 1 => do
    match ← peek? with
    | some '[' => require (0 < levels); array (value levels)
    | some '\x7b' => require (0 < levels); inlineTable (value levels)
    | _ => scalar

/-! ### Statements -/

/-- A statement of a document. -/
inductive Statement
  | blank
  | set (path : List String) (name : String) (v : Value)
  | table (path : List String) (name : String)
  | element (path : List String) (name : String)

/-- A statement and the rest of its line. -/
def statement : Parser Char Statement := do
  blanks
  match ← peek? with
  | none => failure
  | some '#' => comment; newline <|> finish; return .blank
  | some '\n' => newline; return .blank
  | some '\r' => newline; return .blank
  | some '[' =>
    -- Two brackets first: one alone would take the other for the start of a name.
    (do
      word ['[', '[']
      let (path, name) ← key
      word [']', ']']
      lineEnd
      return .element path name) <|> (do
      token '['
      let (path, name) ← key
      token ']'
      lineEnd
      return .table path name)
  | some _ =>
    let (path, name) ← key
    token '='
    blanks
    let v ← value depthLimit
    lineEnd
    return .set path name v

/-- A document under construction, and the path of the table that settings go to. -/
structure Draft where
  entries : Entries
  location : List String

/-- The draft after a statement. -/
def Draft.add (d : Draft) : Statement → Option Draft
  | .blank => some d
  | .set path name v => do
    let entries ← Entries.modify false (fun _ => Entries.set path name v) d.location false d.entries
    return { d with entries }
  | .table path name => do
    return ⟨← Entries.openTable path name d.entries, path ++ [name]⟩
  | .element path name => do
    return ⟨← Entries.openElement path name d.entries, path ++ [name]⟩

/-- The statements of a whole text. -/
def statements : Parser Char (List Statement) := do
  let all ← many statement
  blanks
  finish
  return all

/-- The table that a document writes, if it is well formed. A mark of the byte order may precede
it. -/
def read? (text : String) : Option Value := do
  let cs := match text.toList with
    | '\ufeff' :: rest => rest
    | cs => cs
  let (all, _) ← statements cs
  let d ← all.foldlM Draft.add ⟨[], []⟩
  return .table (Node.values d.entries)

end Courier.Toml
