import Courier.Exchange

/-!
## Polling peers

A node polls its peers one group at a time. Every failed round counts against the address of the peer,
and an address that has failed too often in a row is left alone. When a pass finds nobody to try, the
next group has its turn; after the last group the first follows, with all failures forgotten, if the
settings say so.

* `PollPolicy.pass`: one round with every peer of the current group.
* `PollPolicy.flush`: drops entries of the outbox that are past their age.
-/

namespace Courier

/-! ### Arithmetic on times

Times are whole numbers of 64 bits. Where a result would lie outside of them, it is the nearest of
them. -/

namespace Time

/-- The time nearest to a number of nanoseconds. -/
def clamp (n : Int) : Time :=
  if n < first.toInt then first else if last.toInt < n then last else Int64.ofInt n

/-- The nanoseconds in a second. -/
def second : Nat := 1000000000

/-- The product with a number. -/
def scale (t : Time) (n : Nat) : Time := clamp (t.toInt * n)

/-- The time before another by some length of time. -/
def before (t length : Time) : Time := clamp (t.toInt - length.toInt)

end Time

/-! ### The state of polling -/

/-- What one pass did. -/
structure PassReport where
  group : Option String := none
  attempted : Nat := 0
  succeeded : Nat := 0
  /-- The peers that have failed too often, and those that no transport reaches. -/
  skipped : Nat := 0
deriving DecidableEq

/-- How far polling has come. -/
structure PollPolicy where
  settings : SyncSettings
  /-- The failed rounds in a row by address. -/
  failures : Table String Nat := .empty
  /-- The place of the current group. -/
  group : Nat := 0
  /-- When the outbox was last cleared of old entries, in milliseconds. -/
  flushed : Nat

/-- The milliseconds in some seconds of the settings, which count as one at least. -/
def secondsOrOne (n : Nat) : Nat := max n 1 * 1000

namespace PollPolicy

/-- The number of failed rounds in a row. -/
def failureCount (p : PollPolicy) (uri : String) : Nat := (p.failures.find? uri).getD 0

/-- The groups in their order: those of the settings or, if there are none, those of the peers. -/
def groups (p : PollPolicy) (peers : List Peer) : List String :=
  if p.settings.groups.isEmpty then (Table.ofList (peers.map fun peer => (peer.group, ()))).keys
  else p.settings.groups

/-- The policy when a pass over one of so many groups has tried nobody. -/
def advance (p : PollPolicy) (count : Nat) : PollPolicy :=
  if p.group + 1 < count then { p with group := p.group + 1 }
  else if p.settings.retryForever then { p with group := 0, failures := .empty }
  else p

/-- The policy after a round with the peer at an address. -/
def count (p : PollPolicy) (uri : String) (succeeded : Bool) : PollPolicy :=
  if succeeded then { p with failures := p.failures.erase uri }
  else { p with failures := p.failures.insert uri (p.failureCount uri + 1) }

/-- The transport to try a peer with, unless the peer has failed too often. -/
def transport? (p : PollPolicy) (ts : Transports) (peer : Peer) : Option Transport :=
  if p.settings.retryCeiling ≤ p.failureCount peer.uri then none else ts.find? peer.scheme

/-- The state of a pass. -/
structure Pass (σ : Type) where
  policy : PollPolicy
  report : PassReport
  world : σ

/-- Tries one peer, or skips it. The round itself changes the world and says whether it succeeded. -/
def visit {σ : Type} (ts : Transports) (round : Transport → String → σ → Bool × σ) (s : Pass σ)
    (peer : Peer) : Pass σ :=
  match s.policy.transport? ts peer with
  | none => { s with report := { s.report with skipped := s.report.skipped + 1 } }
  | some t =>
    let (succeeded, world) := round t peer.address s.world
    { policy := s.policy.count peer.uri succeeded
      report := { s.report with
        attempted := s.report.attempted + 1
        succeeded := s.report.succeeded + (if succeeded then 1 else 0) }
      world := world }

/-- One pass over the current group of the enabled peers. -/
def pass {σ : Type} (p : PollPolicy) (ts : Transports)
    (round : Transport → String → σ → Bool × σ) (peers : List Peer) (world : σ) : Pass σ :=
  let peers := peers.filter Peer.enabled
  let groups := p.groups peers
  -- Groups may have gone since the last pass; the last of those left has its turn then.
  match groups[min p.group (groups.length - 1)]? with
  | none => ⟨p, {}, world⟩
  | some group =>
    let s := (peers.filter fun peer => peer.group == group).foldl (visit ts round)
      ⟨p, { group := some group }, world⟩
    -- Failures of this pass count in the next, so a group is left one pass after its last try.
    if s.report.attempted = 0 then { s with policy := s.policy.advance groups.length } else s

/-! ### Keeping the outbox short -/

/-- The time up to which entries are too old. -/
def cutoff (p : PollPolicy) (now : Time) : Time :=
  now.before ((Time.clamp p.settings.retentionSeconds).scale Time.second)

/-- Drops the entries that are too old, and tells their number. -/
def flush (p : PollPolicy) (b : Backend) (now : Time) : Except StoreError (Nat × Backend) :=
  b.deleteBefore (p.cutoff now)

/-- Whether it is time to look for old entries. -/
def isFlushDue (p : PollPolicy) (clock : Nat) : Bool :=
  decide (secondsOrOne p.settings.flushIntervalSeconds ≤ clock - p.flushed)

/-- Drops the entries that are too old, if it is time to. -/
def flushIfDue (p : PollPolicy) (b : Backend) (clock : Nat) (now : Time) :
    Except StoreError (Nat × Backend) × PollPolicy :=
  if p.isFlushDue clock then (p.flush b now, { p with flushed := clock }) else (.ok (0, b), p)

/-! ### The pace -/

/-- The milliseconds to the next pass: the interval of the settings, less a share of the part of it
that may be cut off. -/
def delay (p : PollPolicy) (share : Float) : Nat :=
  -- The share is below one and the jitter as well, so something of the interval is left.
  let factor := 1.0 - p.settings.jitter * share
  let ms := Float.ofNat (secondsOrOne p.settings.pollIntervalSeconds) * factor
  max 1 ms.ceil.toUInt64.toNat

end PollPolicy

end Courier
