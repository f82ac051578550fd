import Courier.Cryptography

/-!
## The two keys of a node

Mail is sealed to the content key, which may be exchanged for that of another identity while the node
runs. Bundles are sealed to the routing key, by which peers know the node and which stays.
-/

namespace Courier

/-- The keys of a node. -/
structure Identity where
  content : Keypair
  routing : Keypair
deriving DecidableEq, Inhabited

/-- Takes another content key: the one before it, and the keys from then on. -/
def Identity.swapContent (i : Identity) (next : Keypair) : Keypair × Identity :=
  (i.content, { i with content := next })

end Courier
