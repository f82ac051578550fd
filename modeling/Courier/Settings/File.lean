import Courier.Bytes
import Courier.Settings.Document
import Courier.Text.Shortest
import Courier.Toml.Document
import Courier.Toml.Printer

/-!
## The settings file

Settings come from the environment, then from the settings file, then from the defaults. Settings
that no node can run with are refused.
-/

namespace Courier

/-- What stands at the path of the settings file. -/
inductive FileState
  /-- Nothing stands there. -/
  | missing
  /-- Nothing stands there, and nothing can: a file stands in place of a folder above it. -/
  | unreachable
  | folder
  | file (contents : Bytes)
deriving DecidableEq

/-- Whether something stands at the path. -/
def FileState.exists : FileState → Bool
  | .missing | .unreachable => false
  | .folder | .file _ => true

/-- Why there are no settings, or none can be written. -/
inductive SettingsError
  | readFailed
  | parseFailed
  | writeFailed
  /-- A setting that no node can run with. -/
  | invalid (key reason : String)
deriving DecidableEq, Repr

/-- The wording of the error. -/
def SettingsError.message : SettingsError → String
  | .readFailed => "failed to read the settings"
  | .parseFailed => "failed to parse the settings"
  | .writeFailed => "failed to write the settings"
  | .invalid key reason => "invalid setting " ++ key ++ ": " ++ reason

namespace Settings

/-! ### The environment -/

/-- A text from the environment, if it is set. -/
def textFrom (env : Environment) (name fallback : String) : String :=
  (env.get? name).getD fallback

/-- A truth value from the environment, if it is set. All but two texts mean no. -/
def boolFrom (env : Environment) (name : String) (fallback : Bool) : Bool :=
  match env.get? name with
  | some v => v == "true" || v == "1"
  | none => fallback

/-- A number below a bound from the environment, if it is set to one. -/
def natFrom (env : Environment) (name : String) (bound fallback : Nat) : Nat :=
  match (env.get? name).bind Text.natural? with
  | some n => if n < bound then n else fallback
  | none => fallback

/-- The settings with those that the environment gives. -/
def override (env : Environment) (s : Settings) : Settings where
  identity := s.identity
  network := { s.network with
    publicAddress := textFrom env "WAYPOST_NETWORK__PUBLIC_ADDR" s.network.publicAddress
    adminAddress := textFrom env "WAYPOST_NETWORK__ADMIN_ADDR" s.network.adminAddress
    byteLimit := natFrom env "WAYPOST_NETWORK__BYTE_LIMIT" UInt64.size s.network.byteLimit
    rpcTimeoutSeconds :=
      natFrom env "WAYPOST_NETWORK__RPC_TIMEOUT_SECS" UInt64.size s.network.rpcTimeoutSeconds }
  routing := { s.routing with
    checkContent := boolFrom env "WAYPOST_ROUTING__CHECK_CONTENT" s.routing.checkContent
    checkChannels := boolFrom env "WAYPOST_ROUTING__CHECK_CHANNELS" s.routing.checkChannels
    checkProfiles := boolFrom env "WAYPOST_ROUTING__CHECK_PROFILES" s.routing.checkProfiles }
  sync := { s.sync with
    pollIntervalSeconds :=
      natFrom env "WAYPOST_SYNC__POLL_INTERVAL_SECS" UInt64.size s.sync.pollIntervalSeconds
    retryCeiling := natFrom env "WAYPOST_SYNC__RETRY_CEILING" UInt32.size s.sync.retryCeiling
    retryForever := boolFrom env "WAYPOST_SYNC__RETRY_FOREVER" s.sync.retryForever }
  discovery := { s.discovery with
    enabled := boolFrom env "WAYPOST_DISCOVERY__ENABLED" s.discovery.enabled
    port := natFrom env "WAYPOST_DISCOVERY__PORT" UInt16.size s.discovery.port }
  delivery :=
    { queueDepth := natFrom env "WAYPOST_DELIVERY__QUEUE_DEPTH" UInt64.size s.delivery.queueDepth }

/-! ### Loading -/

/-- The settings, if a node can run with them. -/
def validate (s : Settings) : Except SettingsError Settings :=
  let positive := "must be at least 1"
  -- Said so that a number that is none is refused too.
  if !(0.0 ≤ s.sync.jitter && s.sync.jitter < 1.0) then
    .error (.invalid "sync.jitter" (Text.Shortest.float s.sync.jitter ++ " is outside [0, 1)"))
  else if s.sync.pollIntervalSeconds = 0 then
    .error (.invalid "sync.poll_interval_secs" positive)
  else if s.delivery.queueDepth = 0 then .error (.invalid "delivery.queue_depth" positive)
  else if s.network.rpcTimeoutSeconds = 0 then
    .error (.invalid "network.rpc_timeout_secs" positive)
  else .ok s

/-- The settings in a file, or the defaults where there is none. -/
def ofFile (env : Environment) (file : FileState) : Except SettingsError Settings :=
  match file with
  | .missing | .unreachable => .ok (ofEnvironment env)
  | .folder => .error .readFailed
  | .file contents =>
    match Bytes.toString? contents with
    | none => .error .readFailed
    | some text =>
      match (Toml.read? text).bind (ofEnvironment env).read with
      | none => .error .parseFailed
      | some s => .ok s

/-- The settings of a node. -/
def load (env : Environment) (file : FileState) : Except SettingsError Settings := do
  let s ← ofFile env file
  validate (s.override env)

/-- The document of the defaults. -/
def defaultText (env : Environment) : String := Toml.write (ofEnvironment env).entries

/-- Writes the defaults unless something stands at the path: whether it wrote, and what stands there
then. -/
def writeDefault (env : Environment) (file : FileState) : Except SettingsError (Bool × FileState) :=
  match file with
  | .missing => .ok (true, .file (Bytes.ofString (defaultText env)))
  | .unreachable => .error .writeFailed
  | file => .ok (false, file)

end Settings

end Courier
