import Courier.Crypto.Word

/-!
## Key agreement on Curve25519

A scalar, clamped to a fixed shape, times the point with a given first coordinate on the curve
`y ^ 2 = x ^ 3 + 486662 * x ^ 2 + x` over the field of `2 ^ 255 - 19` elements, computed on first
coordinates alone with the Montgomery ladder.
-/

namespace Courier.Crypto.X25519

/-- The size of the field. -/
def prime : Nat := (1 <<< 255) - 19

/-- Twice the quarter of the curve's coefficient less one half, as the ladder uses it. -/
def a24 : Nat := 121665

/-- The sum in the field. -/
@[inline] def add (a b : Nat) : Nat := (a + b) % prime

/-- The difference in the field, for `b` below the prime. -/
@[inline] def sub (a b : Nat) : Nat := (a + prime - b) % prime

/-- The product in the field. -/
@[inline] def mul (a b : Nat) : Nat := a * b % prime

/-- The value `a ^ (2 ^ n)` in the field. -/
def squareTimes (a : Nat) : (n : Nat) → Nat
  | 0 => a
  | n + 1 => squareTimes (mul a a) n

/-- The inverse in the field, as the power with exponent `2 ^ 255 - 21`; zero goes to zero. -/
def inverse (z : Nat) : Nat :=
  let z2 := mul z z
  let z9 := mul (squareTimes z2 2) z
  let z11 := mul z9 z2
  -- The name `en` stands for the power with exponent `2 ^ n - 1`.
  let e5 := mul (mul z11 z11) z9
  let e10 := mul (squareTimes e5 5) e5
  let e20 := mul (squareTimes e10 10) e10
  let e40 := mul (squareTimes e20 20) e20
  let e50 := mul (squareTimes e40 10) e10
  let e100 := mul (squareTimes e50 50) e50
  let e200 := mul (squareTimes e100 100) e100
  let e250 := mul (squareTimes e200 50) e50
  mul (squareTimes e250 5) z11

/-- The first coordinates, as fractions, of two points that differ by the base point. -/
structure Ladder where
  (x2 z2 x3 z3 : Nat)

/-- Doubles the first point and adds the two. -/
def Ladder.step (u : Nat) (s : Ladder) : Ladder :=
  let a := add s.x2 s.z2
  let aa := mul a a
  let b := sub s.x2 s.z2
  let bb := mul b b
  let e := sub aa bb
  let da := mul (sub s.x3 s.z3) a
  let cb := mul (add s.x3 s.z3) b
  let sum := add da cb
  let difference := sub da cb
  { x2 := mul aa bb
    z2 := mul e (aa + a24 * e)
    x3 := mul sum sum
    z3 := mul u (mul difference difference) }

/-- The two points in the other order. -/
def Ladder.swap (s : Ladder) : Ladder := ⟨s.x3, s.z3, s.x2, s.z2⟩

/-- The ladder over the bits of `k` below position `n`, from the top. -/
def climb (u k : Nat) : (n : Nat) → Ladder → Ladder
  | 0, s => s
  | n + 1, s =>
    climb u k n (if k.testBit n then (s.swap.step u).swap else s.step u)

/-- The scalar with its low three bits and top bit cleared and its next bit set. -/
def clamp (scalar : Nat) : Nat := scalar % (1 <<< 254) / 8 * 8 + (1 <<< 254)

/-- The first coordinate of a clamped scalar times a point, both of 32 bytes, least significant
first. The top bit of the point is ignored. -/
def scalarMult (scalar point : ByteArray) : ByteArray :=
  let u := natLE point 0 32 % (1 <<< 255) % prime
  let s := climb u (clamp (natLE scalar 0 32)) 255 ⟨1, 0, u, 1⟩
  pushNatLE (ByteArray.emptyWithCapacity 32) 32 (mul s.x2 (inverse s.z2))

/-- The base point, of first coordinate nine. -/
def basePoint : ByteArray := pushNatLE ByteArray.empty 32 9

/-- A clamped scalar times the base point. -/
def scalarMultBase (scalar : ByteArray) : ByteArray := scalarMult scalar basePoint

theorem size_scalarMult (scalar point : ByteArray) : (scalarMult scalar point).size = 32 := by
  simp only [scalarMult, size_pushNatLE]
  rfl

end Courier.Crypto.X25519
