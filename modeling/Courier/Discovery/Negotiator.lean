import Courier.Discovery.Advertisement
import Courier.Entropy
import Courier.Table

/-!
## Who polls whom

Of two nodes that hear each other, the one of lower rank is to poll the other, and with equal ranks
both are. A node draws a new rank for every announcement it makes, and decides about another node when
it hears of it for the first time.
-/

namespace Courier

/-- Whether a node of one rank is to poll a node that announces another. -/
def shouldInitiate (own peer : UInt64) : Bool := decide (own ≤ peer)

/-- What a node makes of an announcement. -/
inductive Decision
  /-- To poll the other node. -/
  | initiate
  /-- To be polled by it. -/
  | wait
  /-- Nothing: it is the node's own, or the other node was decided on before. -/
  | ignore
deriving DecidableEq, Repr

/-- The name of a decision in reports. -/
def Decision.name : Decision → String
  | .initiate => "Initiate"
  | .wait => "Wait"
  | .ignore => "Ignore"

/-- A node that announces itself and hears others. -/
structure Negotiator where
  node : String
  /-- The rank last announced, or the first one drawn. -/
  rank : UInt64
  /-- What was decided about each node heard of. -/
  decided : Table String Decision := .empty

namespace Negotiator

/-- A node with a random rank. -/
def create (node : String) (e : Entropy) : Negotiator × Entropy :=
  let (rank, e) := e.draw64
  ({ node := node, rank := rank }, e)

/-- The announcement of a node at an address, under a new rank. -/
def advertise (n : Negotiator) (address : String) (rank : UInt64) : Advertisement × Negotiator :=
  (⟨n.node, address, rank⟩, { n with rank := rank })

/-- Decides what to make of an announcement. -/
def observe (n : Negotiator) (a : Advertisement) : Decision × Negotiator :=
  if a.node = n.node ∨ n.decided.contains a.node then (.ignore, n)
  else
    let decision := if shouldInitiate n.rank a.rank then Decision.initiate else .wait
    (decision, { n with decided := n.decided.insert a.node decision })

end Negotiator

end Courier
