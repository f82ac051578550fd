import Courier.Bytes
import Courier.Text.Hex

/-!
## Keys

Every party is known by a key of 32 bytes together with the family of ciphers it is used with. The
written form of a public key and of a key pair is the code of the family followed by the 32 bytes;
of a pair the secret half is written, since the public half follows from it.

* `PublicKey.ofBytes_toBytes`, `Keypair.ofBytes_toBytes`: the written form reads back.
* `PublicKey.eq_toBytes_of_ofBytes`, `Keypair.eq_toBytes_of_ofBytes`: nothing else is read.
-/

namespace Courier

/-! ### Families -/

/-- The cipher and hash that a key is used with. -/
inductive KeyFamily
  /-- ChaCha20 with Poly1305, and BLAKE2s. -/
  | chacha
  /-- AES with 256-bit keys in Galois/counter mode, and SHA-256. -/
  | aes
deriving DecidableEq, Repr, Inhabited

/-- Why some bytes are no key. -/
inductive KeyError
  | unknownFamily (code : UInt8)
  | badLength (length : Nat)
deriving DecidableEq, Repr

/-- The wording of the error. -/
def KeyError.message : KeyError → String
  | .unknownFamily code => "unknown key family " ++ Hex.literal code
  | .badLength length => "bad key length " ++ toString length

namespace KeyFamily

/-- The byte that stands for the family. -/
def code : KeyFamily → UInt8
  | .chacha => 1
  | .aes => 2

/-- The family that a byte stands for. -/
def ofCode (b : UInt8) : Except KeyError KeyFamily :=
  if b = 1 then .ok .chacha else if b = 2 then .ok .aes else .error (.unknownFamily b)

@[simp] theorem ofCode_code (f : KeyFamily) : ofCode f.code = .ok f := by cases f <;> rfl

theorem eq_code_of_ofCode {b : UInt8} {f : KeyFamily} (h : ofCode b = .ok f) : b = f.code := by
  unfold ofCode at h
  split at h
  · cases h
    assumption
  · split at h
    · cases h
      assumption
    · cases h

/-- The word for the family in settings. -/
def name : KeyFamily → String
  | .chacha => "chacha"
  | .aes => "aes"

/-- The family that a word of the settings stands for. -/
def ofName? (s : String) : Option KeyFamily :=
  if s = "chacha" then some .chacha else if s = "aes" then some .aes else none

end KeyFamily

/-! ### Keys of 32 bytes -/

/-- A key of 32 bytes, secret or public. -/
structure Key where
  bytes : Bytes
  length_bytes : bytes.length = 32
deriving DecidableEq

/-- The number of bytes in a key. -/
def Key.size : Nat := 32

/-- The key made of some bytes, if they are 32. -/
def Key.ofBytes? (bs : Bytes) : Option Key :=
  if h : bs.length = 32 then some ⟨bs, h⟩ else none

@[simp] theorem Key.ofBytes?_bytes (k : Key) : ofBytes? k.bytes = some k := by
  simp [ofBytes?, k.length_bytes]

/-- The first 32 bytes, with zeros where some are missing. -/
def Key.ofPadded (bs : Bytes) : Key :=
  ⟨(bs ++ List.replicate 32 0).take 32, by simp⟩

theorem Key.bytes_ofPadded {bs : Bytes} (h : bs.length = 32) : (ofPadded bs).bytes = bs :=
  List.take_left' h

/-- The key of 32 zero bytes. -/
def Key.zero : Key := ⟨List.replicate 32 0, by simp⟩

instance : Inhabited Key := ⟨Key.zero⟩

/-- The family and the key that are written in 33 bytes. -/
def Key.readTagged (bs : Bytes) : Except KeyError (KeyFamily × Key) :=
  match bs with
  | [] => .error (.badLength 0)
  | b :: rest =>
    if h : rest.length = 32 then (KeyFamily.ofCode b).map fun family => (family, ⟨rest, h⟩)
    else .error (.badLength bs.length)

theorem Key.readTagged_cons (f : KeyFamily) (k : Key) :
    readTagged (f.code :: k.bytes) = .ok (f, k) := by
  simp [readTagged, k.length_bytes, Except.map]

theorem Key.exists_of_map_readTagged {α : Type} {f : KeyFamily × Key → α} {bs : Bytes} {a : α}
    (h : (readTagged bs).map f = .ok a) :
    ∃ family key, bs = family.code :: key.bytes ∧ f (family, key) = a := by
  unfold readTagged at h
  split at h
  · cases h
  · rename_i b rest
    split at h
    · rename_i hlen
      cases hfamily : KeyFamily.ofCode b with
      | error e =>
        rw [hfamily] at h
        cases h
      | ok family =>
        rw [hfamily] at h
        rw [KeyFamily.eq_code_of_ofCode hfamily]
        exact ⟨family, ⟨rest, hlen⟩, rfl, Except.ok.inj h⟩
    · cases h

/-! ### Public keys and key pairs -/

/-- The public key of a recipient. -/
structure PublicKey where
  family : KeyFamily
  key : Key
deriving DecidableEq, Inhabited

namespace PublicKey

/-- The family's code and the key. -/
def toBytes (p : PublicKey) : Bytes := p.family.code :: p.key.bytes

/-- The public key that 33 bytes write. -/
def ofBytes (bs : Bytes) : Except KeyError PublicKey :=
  (Key.readTagged bs).map fun (family, key) => ⟨family, key⟩

@[simp] theorem ofBytes_toBytes (p : PublicKey) : ofBytes p.toBytes = .ok p := by
  simp [ofBytes, toBytes, Key.readTagged_cons, Except.map]

theorem eq_toBytes_of_ofBytes {bs : Bytes} {p : PublicKey} (h : ofBytes bs = .ok p) :
    bs = p.toBytes := by
  obtain ⟨family, key, rfl, rfl⟩ := Key.exists_of_map_readTagged h
  rfl

/-- The first eight bytes in hexadecimal, enough to tell keys apart by eye. -/
def shortId (p : PublicKey) : String := Hex.encode (p.key.bytes.take 8)

end PublicKey

/-- A key pair, given by its secret half. -/
structure Keypair where
  family : KeyFamily
  secret : Key
deriving DecidableEq, Inhabited

namespace Keypair

/-- The family's code and the secret key. -/
def toBytes (k : Keypair) : Bytes := k.family.code :: k.secret.bytes

/-- The key pair that 33 bytes write. -/
def ofBytes (bs : Bytes) : Except KeyError Keypair :=
  (Key.readTagged bs).map fun (family, secret) => ⟨family, secret⟩

@[simp] theorem ofBytes_toBytes (k : Keypair) : ofBytes k.toBytes = .ok k := by
  simp [ofBytes, toBytes, Key.readTagged_cons, Except.map]

theorem eq_toBytes_of_ofBytes {bs : Bytes} {k : Keypair} (h : ofBytes bs = .ok k) :
    bs = k.toBytes := by
  obtain ⟨family, secret, rfl, rfl⟩ := Key.exists_of_map_readTagged h
  rfl

end Keypair

end Courier
