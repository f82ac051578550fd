import Courier.Address
import Courier.Bytes.Digits
import Courier.Crypto.Noise
import Courier.Crypto.Seed
import Courier.Discovery.Negotiator
import Courier.KeyFile
import Courier.Mesh
import Courier.Proofs.Bundle.Pickup
import Courier.Proofs.Codec.Canonical
import Courier.Proofs.Codec.Framing
import Courier.Proofs.Discovery.Election
import Courier.Proofs.Envelope.Exact
import Courier.Proofs.Exchange.FrameLimits
import Courier.Proofs.Exchange.NoLostUpdate
import Courier.Proofs.Node.Fitting
import Courier.Proofs.RecentCache
import Courier.Proofs.Router.Opening
import Courier.Proofs.Router.Posting
import Courier.Proofs.SealedBox.Addressed
import Courier.Proofs.SealedBox.Truncation
import Courier.Proofs.Stream.AnyOrder
import Courier.Settings.File
import Courier.Stream.Loop
import Courier.Tcp.Client
import Courier.Tcp.Server
import Courier.Proofs.Node.Echo
import Courier.Proofs.Router.Redirection
import Courier.Proofs.Stream.Ledger
import Courier.Proofs.Router.Labels
import Courier.Proofs.Node.EndToEnd
import Courier.Proofs.Node.Serving
import Courier.Proofs.Exchange.Writers
import Courier.Proofs.Router.Arriving
import Courier.Proofs.Router.Recollection
import Courier.Proofs.Router.Forwarding
import Courier.Proofs.Node.Tagging
import Courier.Proofs.Router.Outcome
import Courier.Proofs.Delivery
import Courier.Proofs.Node.Conservation
import Courier.Proofs.Exchange.Transparency
import Courier.Proofs.Codec.Cuts
import Courier.Proofs.Bundle.Framed
import Courier.Proofs.Outbox.Numbered
import Courier.Proofs.SealedBox.EverySize
import Courier.Proofs.RecentCache.Window
import Courier.Proofs.Bundle.Elements
import Courier.Proofs.Exchange.Books
import Courier.Proofs.Polling.Failures
import Courier.Proofs.Node.Pieces
import Courier.Proofs.Exchange.Replies
import Courier.Proofs.Stream.Eviction
import Courier.Proofs.Polling.GivingUp
import Courier.Proofs.Tcp.Reading
import Courier.Proofs.Clock.Sharing
import Courier.Proofs.Host.Lifecycle
import Courier.Proofs.Tcp.OwnReplies
import Courier.Proofs.Codec.Groups
import Courier.Proofs.Crypto.Passphrases
import Courier.Proofs.Node.Words
import Courier.Proofs.Outbox.Retention
