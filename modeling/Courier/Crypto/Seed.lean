import Courier.Crypto.Sha256
import Courier.Entropy

/-!
## Secrets grown from a seed

A supply of secrets for runs that are to be repeated: each secret is the digest of the seed and of
its number. Whoever knows the seed knows all of them.
-/

namespace Courier

/-- The supply that grows from a seed. -/
def Entropy.ofSeed (seed : Nat) : Entropy where
  secret number :=
    let text := Bytes.ofNat 8 seed ++ Bytes.ofNat 8 number
    .ofPadded (Bytes.ofByteArray (Crypto.Sha256.hash text.toByteArray))

end Courier
