import Courier.Record

/-!
## The cryptography beneath sealed boxes

Sealing needs four things: the public half of a secret, a secret drawn from a passphrase, a handshake
of one message to a public key, and numbered messages under the session that the handshake sets up.
They are gathered in a class so that what is built on them can be stated for every choice of
primitives; `Courier.Crypto.Noise` gives the one that runs.
-/

namespace Courier

/-- Key agreement, one-message handshakes and numbered messages. -/
class Cryptography where
  /-- The public half of a secret. -/
  publicKey : KeyFamily → Key → Key
  /-- The secret drawn from some material. -/
  deriveSecret : Bytes → Key
  /-- What both ends of a handshake hold after it. -/
  Session : Type
  /-- The handshake message to a recipient, made with a secret that is used for nothing else, and
  the session. -/
  initiate : PublicKey → (once : Key) → Bytes × Session
  /-- The session that a handshake message sets up, if it was meant for this key pair. -/
  respond? : Keypair → Bytes → Option Session
  /-- The message of a given number in a session. -/
  encrypt : Session → (number : Nat) → Bytes → Bytes
  /-- The plaintext of the message of a given number, if it is genuine. -/
  decrypt? : Session → (number : Nat) → Bytes → Option Bytes

variable [Cryptography]

/-- The public half of a key pair. -/
def Keypair.publicKey (k : Keypair) : PublicKey :=
  ⟨k.family, Cryptography.publicKey k.family k.secret⟩

/-- A text that identifies a key pair without giving away its secret. -/
def Keypair.description (k : Keypair) : String :=
  let family := match k.family with
    | .chacha => "X25519ChaCha"
    | .aes => "X25519Aes"
  "Keypair \x7b family: " ++ family ++ ", public: \"" ++ k.publicKey.shortId ++ "\", .. \x7d"

/-- The key pair that everyone who knows the name and the passphrase arrives at. The two texts are
joined by a zero byte. -/
def Keypair.ofPassphrase (family : KeyFamily) (name passphrase : String) : Keypair :=
  ⟨family, Cryptography.deriveSecret (Bytes.ofString name ++ 0 :: Bytes.ofString passphrase)⟩

/-- The channel that everyone who knows its name and passphrase joins. -/
def Channel.ofPassphrase (family : KeyFamily) (name passphrase : String) : Channel :=
  ⟨name, Keypair.ofPassphrase family name passphrase⟩

end Courier
