import Courier.Crypto.Aead
import Courier.Crypto.ChaCha20
import Courier.Crypto.Poly1305

/-!
## ChaCha20 with Poly1305

An authenticated cipher with the message number in the last eight bytes of the nonce, least
significant byte first. Block zero of the key stream is the key of the tag.
-/

namespace Courier.Crypto.ChaChaPoly

/-- Four zero bytes and the message number. -/
def nonce (number : Nat) : ByteArray := pushNatLE (zeros 4) 8 number

/-- The tag over associated data and ciphertext, each padded, and their lengths. -/
def tag (key : ByteArray) (number : Nat) (associated body : ByteArray) : ByteArray :=
  let lengths := pushNatLE (pushNatLE ByteArray.empty 8 associated.size) 8 body.size
  Poly1305.tag (ChaCha20.firstHalf key (nonce number))
    (Aead.padded associated ++ Aead.padded body ++ lengths)

/-- The cipher. -/
def cipher : Aead := Aead.ofStream (fun key number => ChaCha20.xor key (nonce number)) tag

end Courier.Crypto.ChaChaPoly
