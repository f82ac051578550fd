import Mathlib
import Courier.Bytes.Digits
import Courier.Envelope
import Courier.Proofs.SealedBox.RoundTrip

/-!
## Envelopes read back

The bytes before a box say which flags and which channel an envelope has, and nothing about the
box. So a box reads back under every header, and with it the fingerprint, which is the same in every
channel that the envelope is put in.

* `parse_header`: a header and a box read back.
* `parse_of_retag`: an envelope in another channel is the same but for the channel.
* `read?`: what a router reads of an envelope.
* `read?_close`: what it reads of one that was just closed.
-/

namespace Courier

theorem Flags.check_eq_ok_iff {f g : Flags} :
    f.check = .ok g ↔ g = f ∧ (f.chunked && f.streamHeader) = false := by
  unfold check
  split
  · rename_i h
    simp [h]
  · rename_i h
    constructor
    · intro heq
      exact ⟨(Except.ok.inj heq).symm, by simpa using h⟩
    · rintro ⟨rfl, -⟩
      rfl

/-- What may stand in a byte of flags has no two marks for what is in the box. -/
theorem Flags.check_of_ofBits {b : UInt8} {f : Flags} (h : ofBits b = .ok f) :
    (f.chunked && f.streamHeader) = false := by
  unfold ofBits at h
  split at h
  · cases h
  · obtain ⟨rfl, hcheck⟩ := check_eq_ok_iff.mp h
    exact hcheck

namespace Envelope

theorem parseName_append {name : String} (hname : name.isEmpty = false)
    (hlength : name.utf8ByteSize ≤ maxChannelName) (box : Bytes) :
    parseName (Bytes.ofNat 2 name.utf8ByteSize ++ (Bytes.ofString name ++ box)) =
      .ok (name, box) := by
  have htake : Bytes.take? 2 (Bytes.ofNat 2 name.utf8ByteSize ++ (Bytes.ofString name ++ box)) =
      some (Bytes.ofNat 2 name.utf8ByteSize, Bytes.ofString name ++ box) :=
    Bytes.take?_eq_some_iff.mpr ⟨rfl, Bytes.length_ofNat 2 _⟩
  have hnumber : Bytes.toNat (Bytes.ofNat 2 name.utf8ByteSize) = name.utf8ByteSize := by
    have hmax : maxChannelName = 65535 := rfl
    exact Bytes.toNat_ofNat (by omega)
  have htext : Bytes.take? name.utf8ByteSize (Bytes.ofString name ++ box) =
      some (Bytes.ofString name, box) :=
    Bytes.take?_eq_some_iff.mpr ⟨rfl, Bytes.length_ofString name⟩
  simp only [parseName, htake, hnumber, htext, Bytes.toString?_ofString, hname,
    Bool.false_eq_true, if_false]

/-- **A header and a box read back**, the channel flag as the channel has it. -/
theorem parse_header {flags : Flags} {channel : Option String} {front : Bytes}
    (h : header flags channel = .ok front) (box : Bytes) :
    parse (front ++ box) = .ok ⟨{ flags with channel := channel.isSome }, channel, box⟩ := by
  unfold header at h
  split at h
  · cases h
  · rename_i checked hcheck
    obtain ⟨rfl, -⟩ := Flags.check_eq_ok_iff.mp hcheck
    cases channel with
    | none =>
      obtain rfl := Except.ok.inj h
      simp only [List.singleton_append, parse, Flags.ofBits_bits, hcheck]
      rfl
    | some name =>
      dsimp only at h
      split at h
      · cases h
      · rename_i hname
        split at h
        · cases h
        · rename_i hlength
          obtain rfl := Except.ok.inj h
          have hread := parseName_append (Bool.eq_false_iff.mpr hname) (Nat.not_lt.mp hlength) box
          rw [Option.isSome_some] at hcheck ⊢
          simp only [List.cons_append, List.append_assoc, parse, Flags.ofBits_bits, hcheck, hread,
            if_true]
          rfl

/-- The channel flag of an envelope is as its channel has it, and the box has one mark at most. -/
theorem flags_of_parse {raw : Bytes} {e : Envelope} (h : parse raw = .ok e) :
    e.flags.channel = e.channel.isSome ∧ (e.flags.chunked && e.flags.streamHeader) = false := by
  unfold parse at h
  split at h
  · cases h
  · split at h
    · cases h
    · rename_i flags hflags
      have hcheck := Flags.check_of_ofBits hflags
      split at h
      · rename_i hchannel
        rename_i rest _
        cases hname : parseName rest with
        | error error =>
          rw [hname] at h
          cases h
        | ok found =>
          rw [hname] at h
          obtain rfl := Except.ok.inj h
          exact ⟨hchannel, hcheck⟩
      · rename_i hchannel
        obtain rfl := Except.ok.inj h
        exact ⟨by simpa using hchannel, hcheck⟩

/-- A name that an envelope can bear. -/
def Bearable (name : String) : Prop := name ≠ "" ∧ name.utf8ByteSize ≤ maxChannelName

theorem exists_header {flags : Flags} (hflags : (flags.chunked && flags.streamHeader) = false)
    {channel : Option String} (hchannel : ∀ name ∈ channel, Bearable name) :
    ∃ front, header flags channel = .ok front := by
  have hcheck : Flags.check { flags with channel := channel.isSome } =
      .ok { flags with channel := channel.isSome } := Flags.check_eq_ok_iff.mpr ⟨rfl, hflags⟩
  unfold header
  rw [hcheck]
  cases channel with
  | none => exact ⟨_, rfl⟩
  | some name =>
    obtain ⟨hname, hlength⟩ := hchannel name rfl
    dsimp only
    rw [if_neg (by simpa using hname), if_neg (Nat.not_lt.mpr hlength)]
    exact ⟨_, rfl⟩

theorem bearable_of_header {flags : Flags} {channel : Option String} {front : Bytes}
    (h : header flags channel = .ok front) : ∀ name ∈ channel, Bearable name := by
  rintro name rfl
  unfold header at h
  split at h
  · cases h
  · dsimp only at h
    split at h
    · cases h
    · rename_i hname
      split at h
      · cases h
      · rename_i hlength
        exact ⟨by simpa using hname, Nat.not_lt.mp hlength⟩

theorem retag_of_parse {raw : Bytes} {e : Envelope} (hparse : parse raw = .ok e)
    (channel : Option String) :
    retag raw channel = (header e.flags channel).map fun front => front ++ e.ciphertext := by
  unfold retag
  rw [hparse]
  show (header e.flags channel >>= fun front => pure (front ++ e.ciphertext)) = _
  cases header e.flags channel <;> rfl

/-- **An envelope in another channel is the same but for the channel.** -/
theorem parse_of_retag {raw data : Bytes} {e : Envelope} {channel : Option String}
    (hparse : parse raw = .ok e) (h : retag raw channel = .ok data) :
    parse data = .ok ⟨{ e.flags with channel := channel.isSome }, channel, e.ciphertext⟩ := by
  rw [retag_of_parse hparse] at h
  cases hheader : header e.flags channel with
  | error error =>
    rw [hheader] at h
    cases h
  | ok front =>
    rw [hheader] at h
    obtain rfl := Except.ok.inj h
    exact parse_header hheader e.ciphertext

theorem exists_retag {raw : Bytes} {e : Envelope} (hparse : parse raw = .ok e)
    {channel : Option String} (hchannel : ∀ name ∈ channel, Bearable name) :
    ∃ data, retag raw channel = .ok data := by
  obtain ⟨front, hheader⟩ := exists_header (flags_of_parse hparse).2 hchannel
  rw [retag_of_parse hparse, hheader]
  exact ⟨_, rfl⟩

/-! ### What is read -/

/-- What a router reads of an envelope: its parts, and its fingerprint. -/
def read? (raw : Bytes) : Option (Envelope × Fingerprint) :=
  match parse raw with
  | .error _ => none
  | .ok e =>
    match e.fingerprint with
    | .error _ => none
    | .ok fp => some (e, fp)

theorem read?_eq_some_iff {raw : Bytes} {e : Envelope} {fp : Fingerprint} :
    read? raw = some (e, fp) ↔ parse raw = .ok e ∧ e.fingerprint = .ok fp := by
  unfold read?
  constructor
  · intro h
    split at h
    · cases h
    · rename_i d hparse
      split at h
      · cases h
      · rename_i fp' hfp
        cases h
        exact ⟨hparse, hfp⟩
  · rintro ⟨hparse, hfp⟩
    rw [hparse]
    dsimp only
    rw [hfp]

theorem fingerprint_eq_ok_iff {e : Envelope} {fp : Fingerprint} :
    e.fingerprint = .ok fp ↔
      fingerprintLength ≤ e.ciphertext.length ∧ e.ciphertext.take fingerprintLength = fp := by
  unfold fingerprint
  split
  · rename_i hshort
    simp only [reduceCtorEq, false_iff, not_and]
    intro hlong
    omega
  · rename_i hlong
    simp only [Except.ok.injEq]
    exact ⟨fun h => ⟨Nat.not_lt.mp hlong, h⟩, And.right⟩

/-- What a router reads is long enough to be told from others. -/
theorem le_length_of_read {raw : Bytes} {e : Envelope} {fp : Fingerprint}
    (h : read? raw = some (e, fp)) : fingerprintLength ≤ e.ciphertext.length :=
  (fingerprint_eq_ok_iff.mp (read?_eq_some_iff.mp h).2).1

/-- The fingerprint of an envelope stays in every channel. -/
theorem read?_of_retag {raw data : Bytes} {e : Envelope} {fp : Fingerprint}
    {channel : Option String} (hread : read? raw = some (e, fp))
    (h : retag raw channel = .ok data) :
    read? data =
      some (⟨{ e.flags with channel := channel.isSome }, channel, e.ciphertext⟩, fp) := by
  obtain ⟨hparse, hfp⟩ := read?_eq_some_iff.mp hread
  exact read?_eq_some_iff.mpr ⟨parse_of_retag hparse h, hfp⟩

/-! ### Closed envelopes -/

variable [Cryptography]

theorem close_eq (plaintext : Bytes) (recipient : PublicKey) (once : Key) (flags : Flags)
    (channel : Option String) :
    close plaintext recipient once flags channel =
      (header flags channel).map fun front => front ++ SealedBox.close recipient once plaintext := by
  unfold close
  cases header flags channel <;> rfl

theorem exists_close {flags : Flags} (hflags : (flags.chunked && flags.streamHeader) = false)
    {channel : Option String} (hchannel : ∀ name ∈ channel, Bearable name) (plaintext : Bytes)
    (recipient : PublicKey) (once : Key) :
    ∃ data, close plaintext recipient once flags channel = .ok data := by
  obtain ⟨front, hheader⟩ := exists_header hflags hchannel
  rw [close_eq, hheader]
  exact ⟨_, rfl⟩

theorem bearable_of_close {plaintext data : Bytes} {recipient : PublicKey} {once : Key}
    {flags : Flags} {channel : Option String}
    (h : close plaintext recipient once flags channel = .ok data) :
    ∀ name ∈ channel, Bearable name := by
  rw [close_eq] at h
  cases hheader : header flags channel with
  | error error =>
    rw [hheader] at h
    cases h
  | ok front => exact bearable_of_header hheader

/-- The channel that an envelope is closed for is the one that is read. -/
theorem channel_of_close {plaintext data : Bytes} {recipient : PublicKey} {once : Key}
    {flags : Flags} {channel : Option String} {e : Envelope} {fp : Fingerprint}
    (hclose : close plaintext recipient once flags channel = .ok data)
    (hread : read? data = some (e, fp)) : e.channel = channel := by
  have hparse := (read?_eq_some_iff.mp hread).1
  rw [close_eq] at hclose
  cases hheader : header flags channel with
  | error error =>
    rw [hheader] at hclose
    cases hclose
  | ok front =>
    rw [hheader] at hclose
    obtain rfl := Except.ok.inj hclose
    rw [parse_header hheader] at hparse
    rw [← Except.ok.inj hparse]

/-- **A closed envelope reads back**, and its fingerprint is the start of the handshake. -/
theorem read?_close [Cryptography.Lawful] {plaintext data : Bytes} {recipient : PublicKey}
    {once : Key} {flags : Flags} {channel : Option String}
    (h : close plaintext recipient once flags channel = .ok data) :
    read? data = some
      (⟨{ flags with channel := channel.isSome }, channel,
          SealedBox.close recipient once plaintext⟩,
        (Cryptography.initiate recipient once).1.take fingerprintLength) := by
  have hhello := Cryptography.Lawful.length_initiate recipient once
  have hlong := SealedBox.minLength_le_length_close recipient once plaintext
  have hstart : (SealedBox.close recipient once plaintext).take fingerprintLength =
      (Cryptography.initiate recipient once).1.take fingerprintLength := by
    rw [SealedBox.close, List.take_append_of_le_length]
    rw [hhello]
    decide
  rw [close_eq] at h
  cases hheader : header flags channel with
  | error error =>
    rw [hheader] at h
    cases h
  | ok front =>
    rw [hheader] at h
    obtain rfl := Except.ok.inj h
    refine read?_eq_some_iff.mpr ⟨parse_header hheader _, fingerprint_eq_ok_iff.mpr ⟨?_, hstart⟩⟩
    exact Nat.le_trans (by decide) hlong

end Envelope

end Courier
