import Courier.Key

/-!
## Settings

Everything about a node that its owner can choose.
-/

namespace Courier

/-- Where a node keeps its keys. -/
structure IdentitySettings where
  contentKeyPath : String
  routingKeyPath : String
  /-- The family of keys that are generated. -/
  keyFamily : KeyFamily := .chacha
deriving DecidableEq

/-- The addresses a node serves, and the size and pace of its calls. -/
structure NetworkSettings where
  /-- Where anyone may call; empty for nowhere. -/
  publicAddress : String := "0.0.0.0:7450"
  /-- Where the owner may call; empty for nowhere. -/
  adminAddress : String := "127.0.0.1:7451"
  /-- The longest frame that a transport carries. -/
  byteLimit : Nat := 1048576
  rpcTimeoutSeconds : Nat := 30
deriving DecidableEq

/-- Mail in one channel goes on in others instead. An empty name means private mail. -/
structure Patch where
  source : String
  targets : List String
deriving DecidableEq, Inhabited

/-- Which mail a node looks into, and which it passes on. -/
structure RoutingSettings where
  checkContent : Bool := true
  checkChannels : Bool := true
  checkProfiles : Bool := false
  forwardConsumedContent : Bool := false
  forwardUnknownContent : Bool := true
  forwardConsumedChannels : Bool := true
  forwardUnknownChannels : Bool := true
  forwardConsumedProfiles : Bool := false
  forwardUnknownProfiles : Bool := true
  /-- The first patch for a channel holds. -/
  patches : List Patch := []
deriving DecidableEq, Inhabited

/-- How a node polls its peers and keeps its outbox. -/
structure SyncSettings where
  pollIntervalSeconds : Nat := 30
  /-- The part of an interval that may be cut off at random. -/
  jitter : Float := 0.2
  /-- The number of failures in a row after which a peer is left alone. -/
  retryCeiling : Nat := 5
  /-- Whether the first group of peers follows on the last. -/
  retryForever : Bool := false
  /-- The groups in order; empty for every group of the stored peers, sorted. -/
  groups : List String := []
  /-- The channels asked for; empty for all. -/
  channelFilter : List String := []
  retentionSeconds : Nat := 604800
  flushIntervalSeconds : Nat := 300

/-- How a node finds others nearby. -/
structure DiscoverySettings where
  enabled : Bool := true
  multicastGroup : String := "239.255.74.50"
  port : Nat := 7452
  advertiseIntervalSeconds : Nat := 5
  peerPollIntervalSeconds : Nat := 10
deriving DecidableEq

/-- How received mail waits for its reader. -/
structure DeliverySettings where
  queueDepth : Nat := 256
deriving DecidableEq

/-- All settings of a node. -/
structure Settings where
  identity : IdentitySettings
  network : NetworkSettings := {}
  routing : RoutingSettings := {}
  sync : SyncSettings := {}
  discovery : DiscoverySettings := {}
  delivery : DeliverySettings := {}

/-! ### Paths -/

/-- Named values given to a program from outside. -/
abbrev Environment := List (String × String)

/-- The value of a name. -/
def Environment.get? (env : Environment) (name : String) : Option String :=
  (env.find? fun e => e.1 == name).map Prod.snd

/-- A path below another. -/
def joinPath (parent child : String) : String :=
  if parent.isEmpty || parent.endsWith "/" then parent ++ child else parent ++ "/" ++ child

namespace Settings

/-- The folder of a node's files. -/
def folder (env : Environment) : String :=
  let base := match env.get? "XDG_CONFIG_HOME" with
    | some path => path
    | none => joinPath ((env.get? "HOME").getD "/tmp") ".config"
  joinPath base "waypost"

/-- The path of the settings file. -/
def filePath (env : Environment) : String :=
  (env.get? "WAYPOST_CONFIG").getD (joinPath (folder env) "config.toml")

/-- The settings of a node whose owner chose nothing. -/
def ofEnvironment (env : Environment) : Settings where
  identity :=
    { contentKeyPath := joinPath (folder env) "content.key"
      routingKeyPath := joinPath (folder env) "routing.key" }

end Settings

end Courier
