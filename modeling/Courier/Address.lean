import Courier.Parser
import Courier.Record
import Courier.Settings
import Courier.Text.Numeral
import Courier.Text.Quoted

/-!
## Network addresses

Addresses of the two internet protocols and the ports on them, as text. An address of the longer kind
is written with its longest run of zero groups left out, and one that stands for an address of the
shorter kind ends in that.

* `SocketAddress.read?`, `SocketAddress.text`: an address with a port.
* `DiscoverySettings.group`: where nodes announce themselves.
* `reachableUri`: where a node tells others to poll it.
-/

namespace Courier

/-- An address of four bytes. -/
structure Ipv4 where
  a : Nat
  b : Nat
  c : Nat
  d : Nat
deriving DecidableEq, Repr

/-- An internet address. -/
inductive IpAddress
  | v4 (address : Ipv4)
  /-- Eight groups of 16 bits. -/
  | v6 (groups : List Nat)
deriving DecidableEq, Repr

/-- An internet address and a port. -/
structure SocketAddress where
  ip : IpAddress
  port : Nat
deriving DecidableEq, Repr

/-! ### Reading -/

namespace Address

open Courier.Parser

/-- A number below a bound in digits of a base, at most so many of them if a limit is given. -/
def number (base bound : Nat) (limit : Option Nat) : Parser Char Nat := do
  let digits ← run1 fun c => (Text.digits? base [c]).isSome
  require (match limit with
    | none => true
    | some n => decide (digits.length ≤ n))
  let n ← Text.digits? base digits
  require (decide (n < bound))
  return n

/-- A byte in decimal digits, without leading zeros. -/
def octet : Parser Char Nat := do
  let digits := (← get).takeWhile fun c => (Text.digit? c).isSome
  require (digits.length ≤ 1 || digits.head? != some '0')
  number 10 256 (some 3)

/-- An address of four bytes. -/
def ipv4 : Parser Char Ipv4 := do
  let a ← octet
  token '.'
  let b ← octet
  token '.'
  let c ← octet
  token '.'
  let d ← octet
  return ⟨a, b, c, d⟩

/-- The two groups that hold four bytes. -/
def Ipv4.groups (i : Ipv4) : List Nat := [256 * i.a + i.b, 256 * i.c + i.d]

/-- A colon in front of all groups but the first. -/
def separator (isFirst : Bool) : Parser Char Unit := if isFirst then return () else token ':'

/-- At most so many groups with colons between them, and whether the last two were written as four
bytes. -/
def groups (isFirst : Bool) : (limit : Nat) → Parser Char (List Nat × Bool)
  | 0 => return ([], false)
  | limit + 1 => do
    let embedded ← optional (do
      require (decide (1 ≤ limit))
      separator isFirst
      ipv4)
    match embedded with
    | some i => return (Ipv4.groups i, true)
    | none =>
      match ← optional (do separator isFirst; number 16 65536 (some 4)) with
      | none => return ([], false)
      | some g =>
        let (rest, isEmbedded) ← groups false limit
        return (g :: rest, isEmbedded)

/-- An address of eight groups, where two colons stand for the groups that are missing. -/
def ipv6 : Parser Char (List Nat) := do
  let (head, isEmbedded) ← groups true 8
  if head.length = 8 then return head
  else do
    -- Four bytes end an address, so that nothing may follow them.
    require !isEmbedded
    token ':'
    token ':'
    let (tail, _) ← groups true (7 - head.length)
    return head ++ List.replicate (8 - head.length - tail.length) 0 ++ tail

/-- A port. -/
def port : Parser Char Nat := do
  token ':'
  number 10 65536 none

/-- An address of eight groups in brackets, where a number of a zone may follow it. -/
def bracketed : Parser Char (List Nat) := do
  token '['
  let g ← ipv6
  discard (optional (do token '%'; number 10 UInt32.size none))
  token ']'
  return g

/-- An address with a port. -/
def socket : Parser Char SocketAddress :=
  (do
    let i ← ipv4
    return ⟨.v4 i, ← port⟩)
  <|> (do
    let g ← bracketed
    return ⟨.v6 g, ← port⟩)

end Address

/-- The address of four bytes that a text writes. -/
def Ipv4.read? (s : String) : Option Ipv4 := Address.ipv4.all? s.toList

/-- The address with a port that a text writes. -/
def SocketAddress.read? (s : String) : Option SocketAddress := Address.socket.all? s.toList

/-! ### Writing -/

/-- Four numbers with points between them. -/
def Ipv4.text (i : Ipv4) : String :=
  ".".intercalate [toString i.a, toString i.b, toString i.c, toString i.d]

namespace Address

/-- Groups in hexadecimal with colons between them. -/
def groupsText (gs : List Nat) : String :=
  ":".intercalate (gs.map fun g => String.ofList (Nat.toDigits 16 g))

/-- The number of zeros that a list of groups begins with. -/
def zeros (gs : List Nat) : Nat := (gs.takeWhile (· == 0)).length

/-- The place and the length of the longest run of zeros, the first of several. -/
def longestRun (gs : List Nat) : Nat × Nat :=
  (List.range gs.length).foldl (fun best i =>
    let n := zeros (gs.drop i)
    if best.2 < n then (i, n) else best) (0, 0)

/-- The text of eight groups. -/
def ipv6Text (gs : List Nat) : String :=
  match gs with
  | [0, 0, 0, 0, 0, 0xffff, high, low] =>
    "::ffff:" ++ Ipv4.text ⟨high / 256, high % 256, low / 256, low % 256⟩
  | gs =>
    let (start, n) := longestRun gs
    if n ≤ 1 then groupsText gs
    else groupsText (gs.take start) ++ "::" ++ groupsText (gs.drop (start + n))

end Address

/-- The text of an address with a port. -/
def SocketAddress.text (s : SocketAddress) : String :=
  (match s.ip with
    | .v4 i => i.text
    | .v6 gs => "[" ++ Address.ipv6Text gs ++ "]") ++ ":" ++ toString s.port

/-! ### Classes of addresses -/

/-- Whether an address stands for a group of hosts. -/
def Ipv4.isMulticast (i : Ipv4) : Bool := 224 ≤ i.a && i.a ≤ 239

/-- Whether an address stands for no host in particular. -/
def IpAddress.isUnspecified : IpAddress → Bool
  | .v4 i => i == ⟨0, 0, 0, 0⟩
  | .v6 gs => gs.all (· == 0)

/-! ### Where nodes find each other -/

/-- Why there is no address for discovery. -/
inductive DiscoveryError
  | badGroup (text : String)
  | notMulticast (address : Ipv4)
  | badAddress (text : String)
  /-- The address under which others see this host cannot be told. -/
  | noRoute (reason : String)
deriving DecidableEq, Repr

/-- The wording of the error. -/
def DiscoveryError.message : DiscoveryError → String
  | .badGroup text => "bad multicast group " ++ Text.quoted text
  | .notMulticast address => address.text ++ " is not a multicast address"
  | .badAddress text => "bad public address " ++ Text.quoted text
  | .noRoute reason => reason

/-- Where nodes announce themselves. -/
def DiscoverySettings.group (s : DiscoverySettings) : Except DiscoveryError SocketAddress :=
  match Ipv4.read? s.multicastGroup with
  | none => .error (.badGroup s.multicastGroup)
  | some i => if i.isMulticast then .ok ⟨.v4 i, s.port⟩ else .error (.notMulticast i)

/-- Where a node that listens at an address tells others to poll it. If the address is no host's in
particular, it is the one under which the group would see this host. -/
def reachableUri (listen : String) (outbound : Except DiscoveryError IpAddress) :
    Except DiscoveryError String :=
  match SocketAddress.read? listen with
  | none => .error (.badAddress listen)
  | some s =>
    let ip := if s.ip.isUnspecified then outbound else .ok s.ip
    ip.map fun ip => defaultScheme ++ "://" ++ SocketAddress.text ⟨ip, s.port⟩

end Courier
