import Courier.Key

/-!
## Randomness

Whatever a node draws at random comes from a supply of secrets, each of which is handed out once:
the secrets of handshakes, and numbers made of the first bytes of a secret.
-/

namespace Courier

/-- A supply of secrets. -/
structure Entropy where
  /-- The secrets in the order in which they are drawn. -/
  secret : Nat → Key
  /-- The number of secrets drawn so far. -/
  drawn : Nat := 0

namespace Entropy

/-- The next secret. -/
def draw (e : Entropy) : Key × Entropy := (e.secret e.drawn, { e with drawn := e.drawn + 1 })

/-- A random number of 32 bits. -/
def draw32 (e : Entropy) : UInt32 × Entropy :=
  let (k, e) := e.draw
  (UInt32.ofNat (Bytes.toNat (k.bytes.take 4)), e)

/-- A random number of 64 bits. -/
def draw64 (e : Entropy) : UInt64 × Entropy :=
  let (k, e) := e.draw
  (UInt64.ofNat (Bytes.toNat (k.bytes.take 8)), e)

/-- A random fraction of one, in steps of 2⁻⁵³. -/
def drawFraction (e : Entropy) : Float × Entropy :=
  let (n, e) := e.draw64
  (Float.scaleB (Float.ofNat (n >>> 11).toNat) (-53), e)

end Entropy

end Courier
