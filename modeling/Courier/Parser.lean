/-!
## Parsing

A parser takes a part off the front of a list of tokens, which are characters or bytes, or fails. This
module holds the few parsers that others are made of.
-/

namespace Courier

/-- Takes a part off the front of a list of tokens, or fails. -/
abbrev Parser (τ α : Type) := StateT (List τ) Option α

namespace Parser

variable {τ : Type}

/-- The next token, which stays in place. -/
def peek? : Parser τ (Option τ) := do
  return (← get).head?

/-- A token of a class. -/
def one (p : τ → Bool) : Parser τ τ := fun
  | [] => none
  | c :: rest => if p c then some (c, rest) else none

/-- A given token. -/
def token [BEq τ] (c : τ) : Parser τ Unit := do
  discard (one (· == c))

/-- Given tokens in a row. -/
def word [BEq τ] (cs : List τ) : Parser τ Unit := cs.forM token

/-- The longest run of tokens of a class. -/
def run (p : τ → Bool) : Parser τ (List τ) := fun cs => some (cs.span p)

/-- A run of at least one token of a class. -/
def run1 (p : τ → Bool) : Parser τ (List τ) := do
  let first ← one p
  let rest ← run p
  return first :: rest

/-- A part repeated while it can be taken, a given number of times at most. -/
def manyWithin {α : Type} (p : Parser τ α) : (limit : Nat) → Parser τ (List α)
  | 0 => return []
  | limit + 1 => (do
      let a ← p
      let rest ← manyWithin p limit
      return a :: rest) <|> return []

/-- A part repeated while it can be taken. Each takes at least one token, so that the number of
tokens bounds their number. -/
def many {α : Type} (p : Parser τ α) : Parser τ (List α) := do
  manyWithin p (← get).length

/-- Parts with a separator between each two. -/
def separated {α β : Type} (p : Parser τ α) (separator : Parser τ β) :
    Parser τ (List α) := do
  let first ← p
  let rest ← many (do discard separator; p)
  return first :: rest

/-- The end of the tokens. -/
def finish : Parser τ Unit := fun
  | [] => some ((), [])
  | _ => none

/-- What a parser makes of all the tokens. -/
def all? {α : Type} (p : Parser τ α) (ts : List τ) : Option α :=
  match p ts with
  | some (a, []) => some a
  | _ => none

/-- Exactly `n` tokens of a class. -/
def exactly (n : Nat) (p : τ → Bool) : Parser τ (List τ) :=
  match n with
  | 0 => return []
  | n + 1 => do
    let c ← one p
    let rest ← exactly n p
    return c :: rest

/-- Goes on only if a condition holds. -/
def require (b : Bool) : Parser τ Unit := if b then return () else failure

end Parser

end Courier
