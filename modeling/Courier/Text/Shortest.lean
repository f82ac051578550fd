/-!
## The shortest decimal of a binary fraction

A floating-point number stands for every real number that rounds to it. Its text has the fewest
digits of any decimal in that interval, and of two such decimals the nearer one; it is written
positionally, however large or small the number is.
-/

namespace Courier.Text.Shortest

/-- A positive number `significand * 2 ^ exponent` of a binary format, with the quarters of a unit
that its interval reaches down and up from it. -/
structure Binary where
  significand : Nat
  exponent : Int
  /-- Two quarters, or one where the format is twice as fine below. -/
  down : Nat
  up : Nat := 2
  /-- Whether the ends of the interval round to the number as well. -/
  closed : Bool

/-- Digits times a power of ten. -/
structure Decimal where
  digits : Nat
  exponent : Int
deriving DecidableEq, Repr

/-- The sides of a comparison of `x * 2 ^ p` with `y * 10 ^ s` after clearing the fractions. -/
def sides (x : Nat) (p : Int) (y : Nat) (s : Int) : Nat × Nat :=
  ((x <<< p.toNat) * Nat.pow 10 (-s).toNat, (y * Nat.pow 10 s.toNat) <<< (-p).toNat)

/-- Whether `d * 10 ^ s` lies in the interval of a number. -/
def Binary.holds (b : Binary) (d : Nat) (s : Int) : Bool :=
  let (low, x) := sides (4 * b.significand - b.down) (b.exponent - 2) d s
  let (high, y) := sides (4 * b.significand + b.up) (b.exponent - 2) d s
  if b.closed then low ≤ x && y ≤ high else low < x && y < high

/-- The decimal with the given exponent of its last digit that lies in the interval, if one does; of
two the nearer, the upper one of two equally near. -/
def Binary.onGrid (b : Binary) (s : Int) : Option Decimal :=
  let (x, unit) := sides b.significand b.exponent 1 s
  let below := x / unit
  let above := below + 1
  let lower := if 0 < below && b.holds below s then some ⟨below, s⟩ else none
  let upper := if b.holds above s then some ⟨above, s⟩ else none
  match lower, upper with
  -- The number stands `x - below * unit` above the lower one, in units of their distance.
  | some l, some u => if 2 * (x - below * unit) < unit then some l else some u
  | some l, none => some l
  | none, u => u

/-- The exponent of the first digit: the greatest `e` with `10 ^ e` at most the number, searched
downwards from a bound. -/
def Binary.magnitude (b : Binary) : (steps : Nat) → (e : Int) → Int
  | 0, e => e
  | steps + 1, e =>
    let (x, unit) := sides b.significand b.exponent 1 e
    if unit ≤ x then e else b.magnitude steps (e - 1)

/-- The shortest decimal of a number, looked for with one digit first and seventeen last. The search
starts a place above the first digit, where the power of ten stands that a number just below it may
be written as. -/
def Binary.shortest (b : Binary) : Decimal :=
  let e := b.magnitude 700 310
  -- Seventeen digits always suffice for a double, so that the last resort is never taken.
  ((List.range 18).findSome? fun (n : Nat) => b.onGrid (e + 1 - n)).getD ⟨b.significand, 0⟩

/-- The text of a decimal without an exponent. -/
def Decimal.text (d : Decimal) : String :=
  let digits := Nat.toDigits 10 d.digits
  if 0 ≤ d.exponent then
    String.ofList (digits ++ List.replicate d.exponent.toNat '0')
  else
    let places := (-d.exponent).toNat
    let padded := List.replicate (places + 1 - digits.length) '0' ++ digits
    let whole := padded.length - places
    String.ofList (padded.take whole ++ '.' :: padded.drop whole)

/-- The number that the bits of a double stand for, without its sign. -/
def ofBits (bits : Nat) : Binary :=
  let fraction := bits % (1 <<< 52)
  let biased : Nat := (bits >>> 52) % 2048
  if biased = 0 then
    { significand := fraction, exponent := -1074, down := 2, closed := fraction % 2 == 0 }
  else
    { significand := (1 <<< 52) + fraction, exponent := (biased : Int) - 1075
      -- Below a power of two the format is twice as fine.
      down := if fraction = 0 && 1 < biased then 1 else 2, closed := fraction % 2 == 0 }

/-- The text of a double. -/
def float (x : Float) : String :=
  if x.isNaN then "NaN"
  else
    let bits := x.toBits.toNat
    let sign := if bits >>> 63 = 1 then "-" else ""
    let magnitude := bits % (1 <<< 63)
    if x.isInf then sign ++ "inf"
    else if magnitude = 0 then sign ++ "0"
    else sign ++ (ofBits magnitude).shortest.text

end Courier.Text.Shortest
