import Courier.Crypto.Word

/-!
## Poly1305

A one-time authenticator: the message is read as the coefficients of a polynomial, each block of up
to 16 bytes with a one byte above it, evaluated at the clamped first half of the key modulo
`2 ^ 130 - 5`; the second half of the key is added last.
-/

namespace Courier.Crypto.Poly1305

/-- The modulus of the evaluation. -/
def prime : Nat := (1 <<< 130) - 5

/-- The bits of the evaluation point that may be set. -/
def clampMask : Nat := 0x0ffffffc0ffffffc0ffffffc0fffffff

/-- The 16-byte tag of a message under a 32-byte key that is used once. -/
def tag (key message : ByteArray) : ByteArray :=
  let r := natLE key 0 16 &&& clampMask
  let s := natLE key 16 16
  let sum := Nat.fold ((message.size + 15) / 16) (fun i _ acc =>
    let n := min 16 (message.size - 16 * i)
    -- The last block may be shorter, and the one stands right above it.
    (acc + natLE message (16 * i) n + (1 <<< (8 * n))) * r % prime) 0
  pushNatLE (ByteArray.emptyWithCapacity 16) 16 (sum + s)

theorem size_tag (key message : ByteArray) : (tag key message).size = 16 := by
  simp only [tag, size_pushNatLE]
  rfl

end Courier.Crypto.Poly1305
