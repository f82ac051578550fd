import Courier.Key

/-!
## Key files

A key pair is kept in a file of its own that only its owner may read. Where there is no file yet, one
is written with a new key pair.
-/

namespace Courier.KeyFile

/-- The bits of permission that a new file has: reading and writing, for its owner. -/
def mode : Nat := 0o600

/-- Why there is no key pair in a file, which was to have a role. -/
structure Invalid where
  role : String
  path : String
  cause : KeyError
deriving DecidableEq, Repr

/-- The wording of the error with its cause. -/
def Invalid.message (e : Invalid) : String :=
  "invalid " ++ e.role ++ " key file " ++ e.path ++ ": " ++ e.cause.message

/-- A key pair, and what was written to have it. -/
structure Loaded where
  keypair : Keypair
  written : Option Bytes := none

/-- The key pair in a file or, where there is none, a new one of a family and a random secret. -/
def load (file : Option Bytes) (path role : String) (family : KeyFamily) (secret : Key) :
    Except Invalid Loaded :=
  match file with
  | none =>
    let k : Keypair := ⟨family, secret⟩
    .ok { keypair := k, written := some k.toBytes }
  | some bs =>
    match Keypair.ofBytes bs with
    | .error e => .error ⟨role, path, e⟩
    | .ok k => .ok { keypair := k }

end Courier.KeyFile
