import Courier.Settings
import Courier.Toml.Value

/-!
## Settings as documents

Settings are written as a table of sections. In reading, a setting that is missing keeps its default
and one that is unknown is passed over; one of the wrong type or out of its range is refused. A
section may also be a list of its settings in order.
-/

namespace Courier

/-! ### Reading values -/

namespace Read

/-- A text. -/
def string : Toml.Value → Option String
  | .string v => some v
  | _ => none

/-- A truth value. -/
def bool : Toml.Value → Option Bool
  | .boolean v => some v
  | _ => none

/-- A number below a bound. -/
def natBelow (bound : Nat) : Toml.Value → Option Nat
  | .integer v => if 0 ≤ v ∧ v < bound then some v.toNat else none
  | _ => none

/-- A number of 64 bits. -/
def nat : Toml.Value → Option Nat := natBelow UInt64.size

/-- A fraction, which may be written as a whole number. -/
def float : Toml.Value → Option Float
  | .float v => some v
  | .integer v => some (Float.ofInt v)
  | _ => none

/-- A list. -/
def list {α : Type} (element : Toml.Value → Option α) : Toml.Value → Option (List α)
  | .array vs => vs.mapM element
  | _ => none

/-- Whether a value holds nothing. -/
def isVoid : Toml.Value → Bool
  | .array vs => vs.isEmpty
  | .table entries => entries.isEmpty
  | _ => false

/-- A key family: its name, or a table of its name and nothing. -/
def keyFamily : Toml.Value → Option KeyFamily
  | .string v => KeyFamily.ofName? v
  | .table [(name, v)] => if isVoid v then KeyFamily.ofName? name else none
  | _ => none

/-- The settings of a section: by name in a table, by place in a list. -/
inductive Members
  | named (entries : List (String × Toml.Value))
  | listed (values : List Toml.Value)

/-- The settings of a section. A date has none that is known. -/
def members : Toml.Value → Option Members
  | .table entries => some (.named entries)
  | .array values => some (.listed values)
  | .datetime => some (.named [])
  | _ => none

/-- A setting with its place and its name, if it is there. -/
def Members.get? (m : Members) (place : Nat) (name : String) : Option Toml.Value :=
  match m with
  | .named entries => Toml.find? name entries
  | .listed values => values[place]?

/-- A setting that may be missing. -/
def Members.get {α : Type} (m : Members) (place : Nat) (name : String) (fallback : α)
    (read : Toml.Value → Option α) : Option α :=
  match m.get? place name with
  | none => some fallback
  | some v => read v

end Read

open Read

/-! ### Sections -/

/-- The identity section. -/
def IdentitySettings.read (d : IdentitySettings) (v : Toml.Value) : Option IdentitySettings := do
  let m ← members v
  return {
    contentKeyPath := ← m.get 0 "content_key_path" d.contentKeyPath string
    routingKeyPath := ← m.get 1 "routing_key_path" d.routingKeyPath string
    keyFamily := ← m.get 2 "key_family" d.keyFamily Read.keyFamily }

/-- The network section. -/
def NetworkSettings.read (d : NetworkSettings) (v : Toml.Value) : Option NetworkSettings := do
  let m ← members v
  return {
    publicAddress := ← m.get 0 "public_addr" d.publicAddress string
    adminAddress := ← m.get 1 "admin_addr" d.adminAddress string
    byteLimit := ← m.get 2 "byte_limit" d.byteLimit nat
    rpcTimeoutSeconds := ← m.get 3 "rpc_timeout_secs" d.rpcTimeoutSeconds nat }

/-- A patch, both parts of which must be there. -/
def Patch.read (v : Toml.Value) : Option Patch := do
  let m ← members v
  return ⟨← (m.get? 0 "from").bind string, ← (m.get? 1 "to").bind (list string)⟩

/-- The routing section. -/
def RoutingSettings.read (d : RoutingSettings) (v : Toml.Value) : Option RoutingSettings := do
  let m ← members v
  return {
    checkContent := ← m.get 0 "check_content" d.checkContent bool
    checkChannels := ← m.get 1 "check_channels" d.checkChannels bool
    checkProfiles := ← m.get 2 "check_profiles" d.checkProfiles bool
    forwardConsumedContent := ← m.get 3 "forward_consumed_content" d.forwardConsumedContent bool
    forwardUnknownContent := ← m.get 4 "forward_unknown_content" d.forwardUnknownContent bool
    forwardConsumedChannels := ← m.get 5 "forward_consumed_channels" d.forwardConsumedChannels bool
    forwardUnknownChannels := ← m.get 6 "forward_unknown_channels" d.forwardUnknownChannels bool
    forwardConsumedProfiles := ← m.get 7 "forward_consumed_profiles" d.forwardConsumedProfiles bool
    forwardUnknownProfiles := ← m.get 8 "forward_unknown_profiles" d.forwardUnknownProfiles bool
    patches := ← m.get 9 "patches" d.patches (list Patch.read) }

/-- The sync section. -/
def SyncSettings.read (d : SyncSettings) (v : Toml.Value) : Option SyncSettings := do
  let m ← members v
  return {
    pollIntervalSeconds := ← m.get 0 "poll_interval_secs" d.pollIntervalSeconds nat
    jitter := ← m.get 1 "jitter" d.jitter float
    retryCeiling := ← m.get 2 "retry_ceiling" d.retryCeiling (natBelow UInt32.size)
    retryForever := ← m.get 3 "retry_forever" d.retryForever bool
    groups := ← m.get 4 "groups" d.groups (list string)
    channelFilter := ← m.get 5 "channel_filter" d.channelFilter (list string)
    retentionSeconds := ← m.get 6 "retention_secs" d.retentionSeconds nat
    flushIntervalSeconds := ← m.get 7 "flush_interval_secs" d.flushIntervalSeconds nat }

/-- The discovery section. -/
def DiscoverySettings.read (d : DiscoverySettings) (v : Toml.Value) :
    Option DiscoverySettings := do
  let m ← members v
  return {
    enabled := ← m.get 0 "enabled" d.enabled bool
    multicastGroup := ← m.get 1 "multicast_group" d.multicastGroup string
    port := ← m.get 2 "port" d.port (natBelow UInt16.size)
    advertiseIntervalSeconds :=
      ← m.get 3 "advertise_interval_secs" d.advertiseIntervalSeconds nat
    peerPollIntervalSeconds :=
      ← m.get 4 "peer_poll_interval_secs" d.peerPollIntervalSeconds nat }

/-- The delivery section. -/
def DeliverySettings.read (d : DeliverySettings) (v : Toml.Value) : Option DeliverySettings := do
  let m ← members v
  return { queueDepth := ← m.get 0 "queue_depth" d.queueDepth nat }

/-- All settings, with defaults for those that a document leaves out. -/
def Settings.read (d : Settings) (v : Toml.Value) : Option Settings := do
  let m ← members v
  return {
    identity := ← m.get 0 "identity" d.identity d.identity.read
    network := ← m.get 1 "network" d.network d.network.read
    routing := ← m.get 2 "routing" d.routing d.routing.read
    sync := ← m.get 3 "sync" d.sync d.sync.read
    discovery := ← m.get 4 "discovery" d.discovery d.discovery.read
    delivery := ← m.get 5 "delivery" d.delivery d.delivery.read }

/-! ### Writing -/

/-- A list of texts. -/
def stringsValue (ss : List String) : Toml.Value := .array (ss.map .string)

/-- A patch as a table. -/
def Patch.toValue (p : Patch) : Toml.Value :=
  .table [("from", .string p.source), ("to", stringsValue p.targets)]

/-- The routing section. -/
def RoutingSettings.toValue (s : RoutingSettings) : Toml.Value := .table [
  ("check_content", .boolean s.checkContent),
  ("check_channels", .boolean s.checkChannels),
  ("check_profiles", .boolean s.checkProfiles),
  ("forward_consumed_content", .boolean s.forwardConsumedContent),
  ("forward_unknown_content", .boolean s.forwardUnknownContent),
  ("forward_consumed_channels", .boolean s.forwardConsumedChannels),
  ("forward_unknown_channels", .boolean s.forwardUnknownChannels),
  ("forward_consumed_profiles", .boolean s.forwardConsumedProfiles),
  ("forward_unknown_profiles", .boolean s.forwardUnknownProfiles),
  ("patches", .array (s.patches.map Patch.toValue))]

/-- The sections of all settings. -/
def Settings.entries (s : Settings) : List (String × Toml.Value) := [
  ("identity", .table [
    ("content_key_path", .string s.identity.contentKeyPath),
    ("routing_key_path", .string s.identity.routingKeyPath),
    ("key_family", .string s.identity.keyFamily.name)]),
  ("network", .table [
    ("public_addr", .string s.network.publicAddress),
    ("admin_addr", .string s.network.adminAddress),
    ("byte_limit", .integer s.network.byteLimit),
    ("rpc_timeout_secs", .integer s.network.rpcTimeoutSeconds)]),
  ("routing", s.routing.toValue),
  ("sync", .table [
    ("poll_interval_secs", .integer s.sync.pollIntervalSeconds),
    ("jitter", .float s.sync.jitter),
    ("retry_ceiling", .integer s.sync.retryCeiling),
    ("retry_forever", .boolean s.sync.retryForever),
    ("groups", stringsValue s.sync.groups),
    ("channel_filter", stringsValue s.sync.channelFilter),
    ("retention_secs", .integer s.sync.retentionSeconds),
    ("flush_interval_secs", .integer s.sync.flushIntervalSeconds)]),
  ("discovery", .table [
    ("enabled", .boolean s.discovery.enabled),
    ("multicast_group", .string s.discovery.multicastGroup),
    ("port", .integer s.discovery.port),
    ("advertise_interval_secs", .integer s.discovery.advertiseIntervalSeconds),
    ("peer_poll_interval_secs", .integer s.discovery.peerPollIntervalSeconds)]),
  ("delivery", .table [
    ("queue_depth", .integer s.delivery.queueDepth)])]

end Courier
