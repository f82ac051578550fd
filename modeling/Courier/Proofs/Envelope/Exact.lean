import Mathlib
import Courier.Proofs.Envelope
import Courier.Proofs.Stream.Sending

/-!
## Envelopes and parts of streams, byte for byte

Every byte of an envelope before its box follows from the flags and the channel that are read of it,
and every byte of a stream header or a chunk from its fields. So nothing but a written form is read,
and an envelope that is put in another channel keeps no trace of the one before.

* `Flags.bits_of_ofBits`: the flags in a byte say which byte it is.
* `Envelope.header_of_parse`: an envelope is its header and its box.
* `Envelope.retag_of_retag`: of two changes of the channel only the last one counts.
* `StreamHeader.decode_eq_ok_iff`, `Chunk.decode_eq_ok_iff`: nothing but written forms is read.
-/

namespace Courier

/-! ### Numbers of fixed width -/

namespace Bytes

theorem ofNat_toNat_of_length {bs : Bytes} {width : Nat} (h : bs.length = width) :
    ofNat width (toNat bs) = bs := by
  rw [← h, ofNat_toNat]

/-- Four bytes hold a number of 32 bits. -/
theorem toNat_ofNat_toNat {word : Bytes} (h : word.length = 4) :
    (UInt32.ofNat (toNat word)).toNat = toNat word := by
  refine UInt32.toNat_ofNat_of_lt' ?_
  have hlt := toNat_lt word
  rwa [h] at hlt

/-- Four bytes that are taken off are the written form of the number in them. -/
theorem eq_ofNat_append_of_take? {bs word rest : Bytes} (h : take? 4 bs = some (word, rest)) :
    bs = ofNat 4 (UInt32.ofNat (toNat word)).toNat ++ rest := by
  obtain ⟨rfl, hwidth⟩ := take?_eq_some_iff.mp h
  rw [toNat_ofNat_toNat hwidth, ofNat_toNat_of_length hwidth]

end Bytes

/-! ### Flags -/

theorem Flags.bits_of_and_eq_zero (b : UInt8) (h : b &&& 0xf8 = 0) :
    bits ⟨b &&& 1 ≠ 0, b &&& 2 ≠ 0, b &&& 4 ≠ 0⟩ = b := by
  cases b with
  | ofBitVec b =>
    cases b with
    | ofFin b =>
      revert b
      decide +kernel

/-- **The flags in a byte say which byte it is.** -/
theorem Flags.bits_of_ofBits {b : UInt8} {f : Flags} (h : ofBits b = .ok f) : f.bits = b := by
  unfold ofBits at h
  split at h
  · cases h
  · rename_i hknown
    obtain ⟨rfl, -⟩ := check_eq_ok_iff.mp h
    exact bits_of_and_eq_zero b (not_not.mp hknown)

/-! ### Envelopes -/

namespace Envelope

/-- A name that is read can be borne, and takes up its length and its bytes. -/
theorem eq_append_of_parseName {bs rest : Bytes} {name : String}
    (h : parseName bs = .ok (name, rest)) :
    Bearable name ∧
      bs = Bytes.ofNat 2 name.utf8ByteSize ++ (Bytes.ofString name ++ rest) := by
  unfold parseName at h
  split at h
  · cases h
  · rename_i length later hlength
    obtain ⟨rfl, hwidth⟩ := Bytes.take?_eq_some_iff.mp hlength
    split at h
    · cases h
    · rename_i raw left hraw
      obtain ⟨rfl, hcount⟩ := Bytes.take?_eq_some_iff.mp hraw
      split at h
      · cases h
      · rename_i text htext
        obtain rfl := Bytes.toString?_eq_some_iff.mp htext
        rw [Bytes.length_ofString] at hcount
        split at h
        · cases h
        · rename_i hne
          cases h
          have hlt := Bytes.toNat_lt length
          rw [hwidth] at hlt
          have hmax : maxChannelName = 65535 := rfl
          exact ⟨⟨by simpa using hne, by omega⟩,
            by rw [hcount, Bytes.ofNat_toNat_of_length hwidth]⟩

theorem header_of_bearable {flags : Flags} {name : String}
    (hflags : (flags.chunked && flags.streamHeader) = false) (h : Bearable name) :
    header flags (some name) = .ok (Flags.bits { flags with channel := true } ::
      (Bytes.ofNat 2 name.utf8ByteSize ++ Bytes.ofString name)) := by
  have hcheck : Flags.check { flags with channel := true } = .ok { flags with channel := true } :=
    Flags.check_eq_ok_iff.mpr ⟨rfl, hflags⟩
  simp only [header, Option.isSome_some, hcheck]
  rw [if_neg (by simpa using h.1), if_neg (Nat.not_lt.mpr h.2)]

theorem header_none {flags : Flags} (hflags : (flags.chunked && flags.streamHeader) = false) :
    header flags none = .ok [Flags.bits { flags with channel := false }] := by
  have hcheck : Flags.check { flags with channel := false } =
      .ok { flags with channel := false } := Flags.check_eq_ok_iff.mpr ⟨rfl, hflags⟩
  simp only [header, Option.isSome_none, hcheck]

/-- **An envelope is its header and its box.** -/
theorem header_of_parse {raw : Bytes} {e : Envelope} (h : parse raw = .ok e) :
    ∃ front, header e.flags e.channel = .ok front ∧ front ++ e.ciphertext = raw := by
  have hmarks := (flags_of_parse h).2
  unfold parse at h
  split at h
  · cases h
  · rename_i b rest
    split at h
    · cases h
    · rename_i flags hflags
      have hbits := Flags.bits_of_ofBits hflags
      split at h
      · rename_i hchannel
        cases hname : parseName rest with
        | error error =>
          rw [hname] at h
          cases h
        | ok found =>
          rw [hname] at h
          obtain rfl := Except.ok.inj h
          obtain ⟨hbearable, heq⟩ := eq_append_of_parseName hname
          refine ⟨_, header_of_bearable hmarks hbearable, ?_⟩
          have hsame : { flags with channel := true } = flags := by rw [← hchannel]
          rw [hsame, hbits, heq, List.cons_append, List.append_assoc]
      · rename_i hchannel
        obtain rfl := Except.ok.inj h
        refine ⟨_, header_none hmarks, ?_⟩
        have hsame : { flags with channel := false } = flags := by
          rw [← Bool.eq_false_iff.mpr hchannel]
        rw [hsame, hbits]
        rfl

/-- The channel flag that a header is asked for makes no difference. -/
theorem header_of_flags (flags : Flags) (on : Bool) (channel : Option String) :
    header { flags with channel := on } channel = header flags channel := rfl

/-- **Of two changes of the channel only the last one counts**, if the first one can be made. -/
theorem retag_of_retag (raw : Bytes) {first : Option String}
    (hfirst : ∀ name ∈ first, Bearable name) (second : Option String) :
    (retag raw first >>= fun data => retag data second) = retag raw second := by
  cases hparse : parse raw with
  | error error =>
    simp only [retag, hparse]
    rfl
  | ok e =>
    obtain ⟨data, hdata⟩ := exists_retag hparse hfirst
    rw [hdata, retag_of_parse hparse]
    show retag data second = _
    rw [retag_of_parse (parse_of_retag hparse hdata), header_of_flags]

end Envelope

/-! ### Parts of streams -/

/-- **Nothing but a header that announces a chunk is read as a header.** -/
theorem StreamHeader.decode_eq_ok_iff {bs : Bytes} {h : StreamHeader} :
    decode bs = .ok h ↔ h.total ≠ 0 ∧ h.encode = bs := by
  constructor
  · intro hread
    unfold decode at hread
    split at hread
    · cases hread
    · rename_i stream rest hstream
      split at hread
      · cases hread
      · rename_i total raw htotal
        split at hread
        · cases hread
        · rename_i name hname
          split at hread
          · cases hread
          · rename_i hpos
            cases hread
            rw [Bytes.eq_ofNat_append_of_take? hstream, Bytes.eq_ofNat_append_of_take? htotal,
              Bytes.toString?_eq_some_iff.mp hname]
            refine ⟨fun hzero => hpos ?_, rfl⟩
            rw [← Bytes.toNat_ofNat_toNat (Bytes.take?_eq_some_iff.mp htotal).2]
            exact congrArg UInt32.toNat hzero
  · rintro ⟨hpos, rfl⟩
    exact decode_encode hpos

/-- **Nothing but a chunk is read as a chunk.** -/
theorem Chunk.decode_eq_ok_iff {bs : Bytes} {c : Chunk} : decode bs = .ok c ↔ c.encode = bs := by
  constructor
  · intro hread
    unfold decode at hread
    split at hread
    · cases hread
    · rename_i stream rest hstream
      split at hread
      · cases hread
      · rename_i index payload hindex
        cases hread
        rw [Bytes.eq_ofNat_append_of_take? hstream, Bytes.eq_ofNat_append_of_take? hindex]
        rfl
  · rintro rfl
    exact decode_encode c

/-! ### All of it -/

namespace Envelope

/-- **What travels is read exactly.** An envelope that is read is the header of its flags and its
channel with the box behind, and every header reads back in front of every box, the channel flag as
the channel has it. Putting an envelope in the channel it has changes nothing, and in any other that
it can bear changes nothing else; of two such changes only the last one counts. Stream headers that
announce a chunk, and chunks, are read off their written forms and off no other bytes. -/
theorem read_exactly :
    (∀ raw e, parse raw = .ok e →
      ∃ front, header e.flags e.channel = .ok front ∧ front ++ e.ciphertext = raw) ∧
    (∀ flags channel front, header flags channel = .ok front → ∀ box,
      parse (front ++ box) = .ok ⟨{ flags with channel := channel.isSome }, channel, box⟩) ∧
    (∀ raw e, parse raw = .ok e → retag raw e.channel = .ok raw ∧
      ∀ channel : Option String, (∀ name ∈ channel, Bearable name) →
        ∃ data, retag raw channel = .ok data ∧
          parse data = .ok ⟨{ e.flags with channel := channel.isSome }, channel, e.ciphertext⟩) ∧
    (∀ raw (first : Option String), (∀ name ∈ first, Bearable name) → ∀ second,
      (retag raw first >>= fun data => retag data second) = retag raw second) ∧
    (∀ bs h, StreamHeader.decode bs = .ok h ↔ h.total ≠ 0 ∧ h.encode = bs) ∧
    (∀ bs c, Chunk.decode bs = .ok c ↔ c.encode = bs) := by
  refine ⟨fun raw e h => header_of_parse h, fun flags channel front h => parse_header h,
    fun raw e h => ⟨?_, fun channel hchannel => ?_⟩, fun raw first h => retag_of_retag raw h,
    fun bs h => StreamHeader.decode_eq_ok_iff, fun bs c => Chunk.decode_eq_ok_iff⟩
  · obtain ⟨front, hheader, hraw⟩ := header_of_parse h
    rw [retag_of_parse h, hheader, ← hraw]
    rfl
  · obtain ⟨data, hdata⟩ := exists_retag h hchannel
    exact ⟨data, hdata, parse_of_retag h hdata⟩

/-- A chunk in a channel whose name takes more bytes than letters, read and put in another channel and
in none. -/
theorem read_exactly_accented :
    (parse [3, 0, 2, 0xc3, 0xa9, 7, 8] = .ok ⟨⟨true, true, false⟩, some "é", [7, 8]⟩ ∧
      (∃ front, header ⟨true, true, false⟩ (some "é") = .ok front ∧
        front ++ [7, 8] = [3, 0, 2, 0xc3, 0xa9, 7, 8]) ∧
      retag [3, 0, 2, 0xc3, 0xa9, 7, 8] (some "é") = .ok [3, 0, 2, 0xc3, 0xa9, 7, 8]) ∧
    (header ⟨false, true, false⟩ (some "é") = .ok [3, 0, 2, 0xc3, 0xa9] ∧
      parse ([3, 0, 2, 0xc3, 0xa9] ++ [9]) = .ok ⟨⟨true, true, false⟩, some "é", [9]⟩) ∧
    (Bearable "west" ∧
      (∃ data, retag [3, 0, 2, 0xc3, 0xa9, 7, 8] (some "west") = .ok data ∧
        parse data = .ok ⟨⟨true, true, false⟩, some "west", [7, 8]⟩) ∧
      (retag [3, 0, 2, 0xc3, 0xa9, 7, 8] (some "west") >>= fun data => retag data none) =
        retag [3, 0, 2, 0xc3, 0xa9, 7, 8] none) := by
  obtain ⟨hparse, hheader, hretag, htwice, -, -⟩ := read_exactly
  have hraw : parse [3, 0, 2, 0xc3, 0xa9, 7, 8] =
      .ok ⟨⟨true, true, false⟩, some "é", [7, 8]⟩ := by
    decide
  have hfront : header ⟨false, true, false⟩ (some "é") = .ok [3, 0, 2, 0xc3, 0xa9] := rfl
  have hwest : Bearable "west" := ⟨by decide, by decide⟩
  have hvalid : ∀ name ∈ some "west", Bearable name := by
    rintro name ⟨⟩
    exact hwest
  obtain ⟨hsame, hother⟩ := hretag _ _ hraw
  exact ⟨⟨hraw, hparse _ _ hraw, hsame⟩, ⟨hfront, hheader _ _ _ hfront [9]⟩,
    hwest, hother _ hvalid, htwice _ _ hvalid none⟩

end Envelope

end Courier
