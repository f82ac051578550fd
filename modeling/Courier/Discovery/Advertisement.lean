import Courier.Json.Skip

/-!
## Advertisements

A node that looks for others announces itself by its name, the address at which to poll it and a
random rank. An announcement is a JSON object of these three, or a list of them in this order.
Members that are not known are passed over.
-/

namespace Courier

/-- An announcement of a node. -/
structure Advertisement where
  /-- What the node is known by. -/
  node : String
  /-- Where the node is polled. -/
  address : String
  rank : UInt64
deriving DecidableEq, Inhabited

namespace Advertisement

open Courier.Parser Json

/-! ### Reading -/

/-- The members of an announcement that are there so far. -/
structure Draft where
  node : Option String := none
  address : Option String := none
  rank : Option UInt64 := none

/-- A rank: a whole number of 64 bits. -/
def readRank : Parser UInt8 UInt64 := do
  let digits ← whole
  let n := (Text.digits? 10 (digits.map fun b => Char.ofNat b.toNat)).getD 0
  require (decide (n < UInt64.size))
  return UInt64.ofNat n

/-- A member, which must not have been there before. -/
def readMember (d : Draft) : Parser UInt8 Draft := do
  let name ← string
  blanks
  mark ':'
  blanks
  if name = "node" then
    require d.node.isNone
    return { d with node := ← string }
  else if name = "addr" then
    require d.address.isNone
    return { d with address := ← string }
  else if name = "rank" then
    require d.rank.isNone
    return { d with rank := ← readRank }
  else
    skip
    return d

/-- The members after those that are there so far, a given number of them at most. -/
def readMembers (d : Draft) : (limit : Nat) → Parser UInt8 Draft
  | 0 => failure
  | limit + 1 => do
    let d ← readMember d
    blanks
    (do mark '\x7d'; return d) <|> (do
      mark ','
      blanks
      readMembers d limit)

/-- An announcement as an object. -/
def readObject : Parser UInt8 Advertisement := do
  mark '\x7b'
  blanks
  let d ← readMembers {} (← get).length
  return ⟨← d.node, ← d.address, ← d.rank⟩

/-- An announcement as a list. -/
def readList : Parser UInt8 Advertisement := do
  mark '['
  blanks
  let node ← string
  blanks
  mark ','
  blanks
  let address ← string
  blanks
  mark ','
  blanks
  let rank ← readRank
  blanks
  mark ']'
  return ⟨node, address, rank⟩

/-- The announcement that a byte string writes, if it writes one. -/
def decode? (bs : Bytes) : Option Advertisement :=
  Parser.all? (do
    blanks
    let a ← readObject <|> readList
    blanks
    return a) bs

/-! ### Writing -/

/-- The announcement as a JSON object without blanks. -/
def encode (a : Advertisement) : String :=
  "\x7b\"node\":" ++ quote a.node ++ ",\"addr\":" ++ quote a.address ++ ",\"rank\":" ++
    toString a.rank.toNat ++ "\x7d"

end Advertisement

end Courier
