/-!
## Documents of settings

What a TOML document says, once its spelling is forgotten: tables of named values, lists, and plain
values. A date is kept only as the fact that a date stands there.
-/

namespace Courier.Toml

/-- A value of a document. -/
inductive Value
  | string (v : String)
  | integer (v : Int)
  | float (v : Float)
  | boolean (v : Bool)
  | datetime
  | array (elements : List Value)
  | table (entries : List (String × Value))
deriving Inhabited

/-- The entry with a name, if there is one. -/
def find? {α : Type} (name : String) (entries : List (String × α)) : Option α :=
  (entries.find? fun e => e.1 == name).map Prod.snd

/-- The entries with one of them set, in its old place or at the end. -/
def put {α : Type} (name : String) (a : α) : List (String × α) → List (String × α)
  | [] => [(name, a)]
  | e :: rest => if e.1 == name then (name, a) :: rest else e :: put name a rest

end Courier.Toml
