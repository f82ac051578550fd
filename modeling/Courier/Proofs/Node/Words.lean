import Mathlib
import Courier.Proofs.Node.Fitting
import Courier.Settings.File
import Courier.Tcp.Stream

/-!
## Sizes in machine words

A size is a number of 64 bits where a node runs, and an operation on sizes may have no such result.
Here the formulas for sizes are written once more, step by step, with operations that fail in that
case. As long as none of them fails, the outcome is that of the formula.

The limit of a transport may be any number of 64 bits above the reserve. At both ends of this range
something fails: a limit can be so large that a box around as many bytes has no size, and the smallest
limit leaves less room than it takes to say that the name of a channel is empty.

* `SealedBox.sealedLength?`, `SealedBox.overhead?`, `Bundle.budget?`: sizes of boxes and of bundles,
  which fail above `SealedBox.maxWord`.
* `Bundle.batch?_eq`: a run through the entries of a batch, which does not fail.
* `Tcp.Inbound.nextFrom?`: reading up to a bound beyond the limit.
* `Node.contentRoom?_eq`: the room for a content beside the name of a channel.
* `Node.sizesAreWords_iff`: the limits and the names for which nothing fails.
-/

namespace Courier

/-! ### Operations that may fail -/

namespace Word

variable {a b : Nat}

/-- The sum of two sizes, if it is a size. -/
def add? (a b : Nat) : Option Nat := if a + b < UInt64.size then some (a + b) else none

/-- The product of two sizes, if it is a size. -/
def mul? (a b : Nat) : Option Nat := if a * b < UInt64.size then some (a * b) else none

/-- The difference of two sizes, if it is a size. -/
def sub? (a b : Nat) : Option Nat := if b ≤ a then some (a - b) else none

theorem add?_of_lt (h : a + b < UInt64.size) : add? a b = some (a + b) := if_pos h

theorem add?_of_le (h : UInt64.size ≤ a + b) : add? a b = none := if_neg (Nat.not_lt.mpr h)

theorem mul?_of_lt (h : a * b < UInt64.size) : mul? a b = some (a * b) := if_pos h

theorem mul?_of_le (h : UInt64.size ≤ a * b) : mul? a b = none := if_neg (Nat.not_lt.mpr h)

theorem sub?_of_le (h : b ≤ a) : sub? a b = some (a - b) := if_pos h

end Word

/-! ### Boxes -/

namespace SealedBox

variable {n : Nat}

/-- The length of a box around `n` bytes. -/
def sealedLength? (n : Nat) : Option Nat := do
  let body ← Word.add? handshakeLength n
  let tags ← Word.mul? (segmentCount n) tagLength
  Word.add? body tags

/-- What sealing adds to `n` bytes. -/
def overhead? (n : Nat) : Option Nat := do
  let whole ← sealedLength? n
  Word.sub? whole n

theorem sealedLength?_of_le (h : n ≤ maxWord) : sealedLength? n = some (sealedLength n) := by
  have hlength := Iff.mpr sealedLength_lt_size_iff h
  rw [sealedLength] at hlength
  have hbody : handshakeLength + n < UInt64.size := by omega
  have htags : segmentCount n * tagLength < UInt64.size := by omega
  rw [sealedLength?, Word.add?_of_lt hbody, Word.mul?_of_lt htags, Option.bind_eq_bind,
    Option.bind_some, Option.bind_some]
  exact Word.add?_of_lt hlength

theorem sealedLength?_of_lt (h : maxWord < n) : sealedLength? n = none := by
  have hlength : UInt64.size ≤ sealedLength n :=
    Nat.not_lt.mp fun hlt => Nat.not_lt.mpr (Iff.mp sealedLength_lt_size_iff hlt) h
  rw [sealedLength] at hlength
  -- If the two parts have sizes, their sum has none.
  rw [sealedLength?]
  rcases Nat.lt_or_ge (handshakeLength + n) UInt64.size with hbody | hbody
  · rw [Word.add?_of_lt hbody, Option.bind_eq_bind, Option.bind_some]
    rcases Nat.lt_or_ge (segmentCount n * tagLength) UInt64.size with htags | htags
    · rw [Word.mul?_of_lt htags, Option.bind_some]
      exact Word.add?_of_le hlength
    · rw [Word.mul?_of_le htags]
      rfl
  · rw [Word.add?_of_le hbody]
    rfl

theorem overhead?_of_le (h : n ≤ maxWord) : overhead? n = some (overhead n) := by
  have hle : n ≤ sealedLength n := by
    rw [sealedLength]
    omega
  rw [overhead?, sealedLength?_of_le h, Option.bind_eq_bind, Option.bind_some]
  exact Word.sub?_of_le hle

theorem overhead?_of_lt (h : maxWord < n) : overhead? n = none := by
  rw [overhead?, sealedLength?_of_lt h]
  rfl

end SealedBox

/-! ### Bundles -/

namespace Bundle

variable {n : Nat}

/-- The longest batch whose bundle fits a frame of a transport with this limit. What does not fit at
all has no room, which is no failure. -/
def budget? (byteLimit : Nat) : Option Nat := do
  let sealing ← SealedBox.overhead? byteLimit
  let taken ← Word.add? sealing frameOverhead
  return byteLimit - taken

theorem budget?_of_le (h : n ≤ SealedBox.maxWord) : budget? n = some (budget n) := by
  have hmost : SealedBox.overhead SealedBox.maxWord + frameOverhead < UInt64.size := by decide
  have hmono := SealedBox.overhead_mono h
  have htaken : SealedBox.overhead n + frameOverhead < UInt64.size := by omega
  rw [budget?, SealedBox.overhead?_of_le h, Option.bind_eq_bind, Option.bind_some,
    Word.add?_of_lt htaken, Option.bind_some]
  rfl

theorem budget?_of_lt (h : SealedBox.maxWord < n) : budget? n = none := by
  rw [budget?, SealedBox.overhead?_of_lt h]
  rfl

/-- The entries that go into a batch. -/
def gather? (budget : Nat) : (used : Nat) → List OutboxEntry → Option (List OutboxEntry)
  | _, [] => some []
  | used, e :: rest => do
    let cost ← Word.add? (Varint.length e.data.length) e.data.length
    if budget < cost then gather? budget used rest
    else
      let taken ← Word.add? used cost
      if budget < taken then return []
      else return e :: (← gather? budget taken rest)

/-- The entries that a pickup takes into a batch. -/
def batch? (maxBytes : Nat) (entries : List OutboxEntry) : Option (List OutboxEntry) := do
  let overhead ← Word.add? 1 Varint.maxLength
  gather? (maxBytes - overhead) 0 entries

/-- What is taken and what is still to come have a size together, so that no sum fails on the way. -/
theorem gather?_eq {budget used : Nat} {entries : List OutboxEntry}
    (h : used + (entries.map cost).sum < UInt64.size) :
    gather? budget used entries = some (gather budget used entries) := by
  induction entries generalizing used with
  | nil => rfl
  | cons e rest ih =>
    rw [List.map_cons, List.sum_cons] at h
    have hcost : Varint.length e.data.length + e.data.length < UInt64.size := by
      rw [cost] at h
      omega
    rw [gather?, Word.add?_of_lt hcost, gather]
    simp only [Option.bind_eq_bind, Option.bind_some]
    rw [← cost]
    by_cases hlarge : budget < cost e
    · rw [if_pos hlarge, if_pos hlarge]
      exact ih (by omega)
    · rw [if_neg hlarge, if_neg hlarge, Word.add?_of_lt (by omega), Option.bind_some]
      by_cases hfull : budget < used + cost e
      · rw [if_pos hfull, if_pos hfull]
        rfl
      · rw [if_neg hfull, if_neg hfull, ih (by omega)]
        rfl

theorem batch?_eq {maxBytes : Nat} {entries : List OutboxEntry}
    (h : (entries.map cost).sum < UInt64.size) :
    batch? maxBytes entries = some (gather (maxBytes - batchOverhead) 0 entries) := by
  have hoverhead : Word.add? 1 Varint.maxLength = some batchOverhead := by decide
  rw [batch?, hoverhead]
  exact gather?_eq (by rwa [Nat.zero_add])

end Bundle

/-! ### Reading ahead -/

namespace Tcp.Inbound

/-- The next record, with the stream after it. -/
def nextFrom? (limit : Nat) (buffer : Bytes) (pieces : List Bytes) :
    Option (Except TransportError (Option Bytes × Inbound)) :=
  match Frame.decode buffer with
  | .ok (record, rest) =>
    let length := buffer.length - rest.length
    if limit < length then some (.error (.frameTooLarge length limit))
    else some (.ok (some record, ⟨rest, pieces⟩))
  | .error .needMore => do
    let bound ← Word.add? limit Varint.maxLength
    if bound < buffer.length then return .error (.frameTooLarge buffer.length limit)
    else match pieces with
      | [] => if buffer.isEmpty then return .ok (none, ⟨[], []⟩) else return .error .closed
      | piece :: later => nextFrom? limit (buffer ++ piece) later
  | .error e => some (.error (.codec e))
termination_by structural pieces

theorem nextFrom?_of_lt {limit : Nat} (h : limit + Varint.maxLength < UInt64.size)
    (buffer : Bytes) (pieces : List Bytes) :
    nextFrom? limit buffer pieces = some (nextFrom limit buffer pieces) := by
  induction pieces generalizing buffer with
  | nil =>
    unfold nextFrom? nextFrom
    rw [Word.add?_of_lt h, Option.bind_eq_bind, Option.bind_some]
    cases Frame.decode buffer with
    | ok found => exact (apply_ite some _ _ _).symm
    | error e =>
      cases e with
      | needMore => split_ifs <;> rfl
      | _ => rfl
  | cons piece later ih =>
    unfold nextFrom? nextFrom
    rw [Word.add?_of_lt h, Option.bind_eq_bind, Option.bind_some]
    cases Frame.decode buffer with
    | ok found => exact (apply_ite some _ _ _).symm
    | error e =>
      cases e with
      | needMore =>
        dsimp only
        split_ifs
        · rfl
        · exact ih _
      | _ => rfl

/-- At the start of a frame nothing has been read ahead, and the bound is needed. -/
theorem nextFrom?_nil_of_le {limit : Nat} (h : UInt64.size ≤ limit + Varint.maxLength)
    (pieces : List Bytes) : nextFrom? limit [] pieces = none := by
  have hempty : Frame.decode [] = .error .needMore := rfl
  unfold nextFrom?
  rw [hempty, Word.add?_of_le h]
  rfl

end Tcp.Inbound

/-! ### The settings -/

namespace Settings

/-- Settings that a node runs with do so with any limit. -/
theorem validate_byteLimit {s : Settings} (h : s.validate = .ok s) (limit : Nat) :
    validate { s with network.byteLimit := limit } =
      .ok { s with network.byteLimit := limit } := by
  simp only [validate] at h ⊢
  split_ifs at h with hjitter hinterval hdepth htimeout
  rw [if_neg hjitter, if_neg hinterval, if_neg hdepth, if_neg htimeout]

end Settings

/-! ### The room for a content -/

namespace Node

/-- The longest plaintext of an envelope in a channel. -/
def contentRoom? (chunkSize : Nat) (channel : Option String) : Option (Except NodeError Nat) :=
  match channel with
  | none => some (.ok chunkSize)
  | some name => do
    let header ← Word.add? 2 name.utf8ByteSize
    if maxNameLength chunkSize < name.utf8ByteSize then
      return .error (.channelNameTooLong name.utf8ByteSize (maxNameLength chunkSize))
    else return .ok (← Word.sub? chunkSize header)

variable {chunkSize : Nat} {name : String}

/-- One byte is less than the two in which the length of a name is written. -/
theorem contentRoom?_one_empty : contentRoom? 1 (some "") = none := by decide

/-- A name that is not too long leaves room beside it, unless there is one byte and no name. -/
theorem contentRoom?_eq (hname : name.utf8ByteSize < 2 ^ 63) (hchunk : 0 < chunkSize)
    (h : chunkSize = 1 → name ≠ "") :
    contentRoom? chunkSize (some name) = some (contentRoom chunkSize (some name)) := by
  have hheader : 2 + name.utf8ByteSize < UInt64.size := by
    rw [UInt64.size]
    omega
  have hempty : chunkSize = 1 → name.utf8ByteSize ≠ 0 := fun hone hzero =>
    h hone (String.utf8ByteSize_eq_zero_iff.mp hzero)
  simp only [contentRoom?, contentRoom]
  rw [Word.add?_of_lt hheader, Option.bind_eq_bind, Option.bind_some]
  by_cases hlong : maxNameLength chunkSize < name.utf8ByteSize
  · rw [if_pos hlong, if_pos hlong]
    rfl
  · have hfits : 2 + name.utf8ByteSize ≤ chunkSize := by
      rw [maxNameLength] at hlong
      omega
    rw [if_neg hlong, if_neg hlong, if_pos hfits, Word.sub?_of_le hfits]
    rfl

/-! ### All together -/

/-- Nothing that a node works out about sizes fails, for a limit of its transport, the length of a
chunk and the name of a channel. A batch is made of entries that have a size together, as everything
in memory has. -/
structure SizesAreWords (limit chunkSize : Nat) (name : String) : Prop where
  sealedLength : ∀ m ≤ limit, SealedBox.sealedLength? m = some (SealedBox.sealedLength m)
  overhead : ∀ m ≤ limit, SealedBox.overhead? m = some (SealedBox.overhead m)
  budget : Bundle.budget? limit = some (Bundle.budget limit)
  room : contentRoom? chunkSize none = some (contentRoom chunkSize none)
  channelRoom : contentRoom? chunkSize (some name) = some (contentRoom chunkSize (some name))
  next : ∀ buffer pieces,
    Tcp.Inbound.nextFrom? limit buffer pieces = some (Tcp.Inbound.nextFrom limit buffer pieces)
  batch : ∀ maxBytes entries, (entries.map Bundle.cost).sum < UInt64.size →
    Bundle.batch? maxBytes entries =
      some (Bundle.gather (maxBytes - Bundle.batchOverhead) 0 entries)

/-- **Which limits and names keep sizes within machine words.** A node with one transport works out
all its sizes exactly if a box around as many bytes as the limit has a size, and if the limit is not
the smallest there is, together with a channel whose name is empty. -/
theorem sizesAreWords_iff {n : Node} {limit : Nat} (h : n.Carried limit)
    (hname : name.utf8ByteSize < 2 ^ 63) :
    SizesAreWords limit n.chunkSize name ↔
      limit ≤ SealedBox.maxWord ∧ (limit = Stream.reserve + 1 → name ≠ "") := by
  have hreserve := Carried.reserve_lt h
  have hchunk := Carried.chunkSize_eq h
  constructor
  · intro hall
    constructor
    · by_contra hlt
      have hbudget := hall.budget
      rw [Bundle.budget?_of_lt (Nat.not_le.mp hlt)] at hbudget
      cases hbudget
    · rintro rfl rfl
      have hroom := hall.channelRoom
      rw [hchunk, Nat.add_sub_cancel_left, contentRoom?_one_empty] at hroom
      cases hroom
  · rintro ⟨hle, hempty⟩
    have hbound : limit + Varint.maxLength < UInt64.size := by
      have hmost : SealedBox.maxWord + Varint.maxLength < UInt64.size := by decide
      omega
    exact {
      sealedLength := fun m hm => SealedBox.sealedLength?_of_le (Nat.le_trans hm hle)
      overhead := fun m hm => SealedBox.overhead?_of_le (Nat.le_trans hm hle)
      budget := Bundle.budget?_of_le hle
      room := rfl
      channelRoom := contentRoom?_eq hname (by omega) fun hone => hempty (by omega)
      next := Tcp.Inbound.nextFrom?_of_lt hbound
      batch := fun _ _ => Bundle.batch?_eq }

/-- A node with one transport of some limit, unless the limit leaves no room for content. -/
def createWith (limit : Nat) : Except NodeError Node :=
  create (made limit).settings (.ofList [(defaultScheme, ⟨defaultScheme, limit⟩)])
    (made limit).router.identity {} (made limit).router.clock (made limit).entropy

/-- Under the usual limit nothing fails, not even for an empty name, and under the smallest one nothing
does for the name `ops`. The first limit for which a box has no size is one too many. -/
theorem sizesAreWords_iff_usual :
    (∃ n, createWith 1048576 = .ok n ∧ SizesAreWords 1048576 n.chunkSize "") ∧
      (∃ n, createWith 1025 = .ok n ∧ SizesAreWords 1025 n.chunkSize "ops") ∧
      ∃ n, createWith (SealedBox.maxWord + 1) = .ok n ∧
        ¬SizesAreWords (SealedBox.maxWord + 1) n.chunkSize "ops" := by
  refine ⟨⟨_, create_made (by decide), ?_⟩, ⟨_, create_made (by decide), ?_⟩, _,
    create_made (by decide), fun hall => ?_⟩
  · exact (sizesAreWords_iff (carried_made (by decide)) (by decide)).mpr (by decide)
  · exact (sizesAreWords_iff (carried_made (by decide)) (by decide)).mpr (by decide)
  · have hle := ((sizesAreWords_iff (carried_made (by decide)) (by decide)).mp hall).1
    exact absurd hle (by decide)

/-- A node is made for the largest limit there is, under which boxes, bundles and the bound on what is
read ahead are too large, and for the smallest one, under which an empty name takes more than a
chunk. Neither is kept out by the settings. -/
theorem sizes_beyond_words :
    (∀ s : Settings, s.validate = .ok s → ∀ limit,
      Settings.validate { s with network.byteLimit := limit } =
        .ok { s with network.byteLimit := limit }) ∧
    (∃ n, createWith (2 ^ 64 - 1) = .ok n ∧ SealedBox.sealedLength? (2 ^ 64 - 1) = none ∧
      SealedBox.overhead? (2 ^ 64 - 1) = none ∧ Bundle.budget? (2 ^ 64 - 1) = none ∧
      Tcp.Inbound.nextFrom? (2 ^ 64 - 1) [] [] = none ∧
      ¬SizesAreWords (2 ^ 64 - 1) n.chunkSize "ops") ∧
    ∃ n, createWith 1025 = .ok n ∧ contentRoom? n.chunkSize (some "") = none ∧
      ¬SizesAreWords 1025 n.chunkSize "" := by
  have hlarge : SealedBox.maxWord < 2 ^ 64 - 1 := by decide
  have hbudget := Bundle.budget?_of_lt hlarge
  have hread : Tcp.Inbound.nextFrom? (2 ^ 64 - 1) [] [] = none :=
    Tcp.Inbound.nextFrom?_nil_of_le (by decide) []
  refine ⟨fun s h limit => Settings.validate_byteLimit h limit, ⟨_, rfl, ?_, ?_, hbudget, hread, ?_⟩,
    _, rfl, contentRoom?_one_empty, ?_⟩
  · exact SealedBox.sealedLength?_of_lt hlarge
  · exact SealedBox.overhead?_of_lt hlarge
  · intro hall
    cases hbudget.symm.trans hall.budget
  · intro hall
    cases Eq.trans contentRoom?_one_empty.symm hall.channelRoom

end Node

end Courier
