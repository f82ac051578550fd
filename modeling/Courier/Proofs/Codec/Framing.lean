import Mathlib
import Courier.Codec.Frame
import Courier.Proofs.Codec.Numbers
import Courier.Proofs.Fallible

/-!
## Frames in pieces

A frame is told by its first bytes: once they make up a whole frame, or a fault, no later byte
changes that. So a stream of bytes gives the same records in whatever pieces it comes, and a stream
of frames gives the records that were framed.

* `Frame.decode_append_of_ok`, `Frame.decode_append_of_error`: what does not wait for more bytes
  stays.
* `Frame.decodeAll_append`: splitting goes on where it has stopped.
* `Frame.framing`: records come out of a stream as they went in, however it is cut.
-/

namespace Courier.Frame

open Reader

variable {bs record rest frame : Bytes} {e : CodecError}

/-! ### One frame -/

theorem encode_eq_ok_iff : encode record = .ok frame ↔
    record.length ≤ maxLength ∧ frame = Varint.encode record.length ++ record := by
  unfold encode
  split
  · rename_i hlong
    simp only [reduceCtorEq, false_iff, not_and]
    omega
  · rename_i hle
    rw [Except.ok.injEq]
    exact ⟨fun h => ⟨Nat.not_lt.mp hle, h.symm⟩, fun h => h.2.symm⟩

/-- A number and as many bytes are a frame, whatever comes after them. -/
theorem decode_of_reads {x : Bytes} (hx : Reads varint x record.length)
    (hle : record.length ≤ maxLength) : decode (x ++ record ++ rest) = .ok (record, rest) := by
  have hlength : Varint.decode (x ++ (record ++ rest)) = .ok (record.length, record ++ rest) :=
    hx (record ++ rest)
  have htake : Bytes.take? record.length (record ++ rest) = some (record, rest) :=
    Bytes.take?_eq_some_iff.mpr ⟨rfl, rfl⟩
  rw [List.append_assoc, decode, hlength]
  dsimp only
  rw [if_neg (Nat.not_lt.mpr hle), htake]

theorem exists_of_decode (h : decode bs = .ok (record, rest)) :
    ∃ x, bs = x ++ record ++ rest ∧ Reads varint x record.length ∧
      record.length ≤ maxLength := by
  unfold decode at h
  split at h
  · cases h
  · cases h
  · rename_i length left hlength
    obtain ⟨x, rfl, hx⟩ := Varint.exists_reads hlength
    split at h
    · cases h
    · rename_i hle
      split at h
      · cases h
      · rename_i split hsplit
        cases h
        obtain ⟨rfl, rfl⟩ := Bytes.take?_eq_some_iff.mp hsplit
        exact ⟨x, (List.append_assoc _ _ _).symm, hx, Nat.not_lt.mp hle⟩

/-- **A whole frame stays** when bytes come after it. -/
theorem decode_append_of_ok (h : decode bs = .ok (record, rest)) (t : Bytes) :
    decode (bs ++ t) = .ok (record, rest ++ t) := by
  obtain ⟨x, rfl, hx, hle⟩ := exists_of_decode h
  rw [List.append_assoc _ rest t]
  exact decode_of_reads hx hle

/-- Only a lack of bytes is no fault of the length. -/
theorem decode_of_error (h : Varint.decode bs = .error e) (he : e ≠ .inputTooShort) :
    decode bs = .error e := by
  rw [decode, h]
  split
  · rename_i hshort
    exact absurd (Except.error.inj hshort) he
  · rename_i hsame
    rw [Except.error.inj hsame]
  · rename_i hread
    cases hread

/-- **A fault stays** when bytes come after it. -/
theorem decode_append_of_error (h : decode bs = .error e) (he : e ≠ .needMore) (t : Bytes) :
    decode (bs ++ t) = .error e := by
  unfold decode at h
  split at h
  · exact absurd (Except.error.inj h).symm he
  · rename_i hother hlength
    obtain rfl := Except.error.inj h
    exact decode_of_error (Varint.decode_append_of_error hlength hother t) hother
  · rename_i length left hlength
    obtain ⟨x, rfl, hx⟩ := Varint.exists_reads hlength
    have happend : Varint.decode (x ++ (left ++ t)) = .ok (length, left ++ t) := hx (left ++ t)
    split at h
    · rename_i hlong
      rw [List.append_assoc, decode, happend]
      dsimp only
      rw [if_pos hlong, h]
    · split at h
      · exact absurd (Except.error.inj h).symm he
      · cases h

theorem decode_of_encode (h : encode record = .ok frame) : decode frame = .ok (record, []) := by
  have hwhole := decode_encode h []
  rwa [List.append_nil] at hwhole

/-- The start of a frame waits for the rest of it. -/
theorem decode_of_prefix (h : decode frame = .ok (record, [])) {start : Bytes}
    (hstart : start <+: frame) (hne : start ≠ frame) : decode start = .error .needMore := by
  obtain ⟨t, rfl⟩ := hstart
  cases hdecode : decode start with
  | ok r =>
    have happend := decode_append_of_ok hdecode t
    rw [h] at happend
    have hnil : r.2 ++ t = [] := (congrArg Prod.snd (Except.ok.inj happend)).symm
    rw [(List.append_eq_nil_iff.mp hnil).2, List.append_nil] at hne
    exact absurd rfl hne
  | error e =>
    by_contra hother
    have happend := decode_append_of_error hdecode (fun he => hother (by rw [he])) t
    rw [h] at happend
    cases happend

/-- A frame that was waited for takes in more than was there. -/
theorem length_lt_of_decode_append {t : Bytes} (h : decode bs = .error .needMore)
    (ht : decode (bs ++ t) = .ok (record, rest)) : rest.length < t.length := by
  obtain ⟨x, hsplit, hx, hle⟩ := exists_of_decode ht
  by_contra hrest
  have hlength := congrArg List.length hsplit
  simp only [List.length_append] at hlength
  have hshort : x ++ record <+: bs := by
    refine List.prefix_of_prefix_length_le (hsplit ▸ List.prefix_append _ rest)
      (List.prefix_append bs t) ?_
    rw [List.length_append]
    omega
  obtain ⟨left, rfl⟩ := hshort
  rw [decode_of_reads hx hle] at h
  cases h

/-- A start of a frame that is longer than a length may be shows no fault later on. -/
theorem eq_needMore_of_decode_append {t : Bytes} (h : decode bs = .error .needMore)
    (hlong : Varint.maxLength ≤ bs.length) (ht : decode (bs ++ t) = .error e) : e = .needMore := by
  cases hlength : Varint.decode bs with
  | error e' =>
    rcases Varint.error_cases hlength with rfl | ⟨-, hlt⟩
    · rw [decode_of_error hlength (by decide)] at h
      cases h
    · exact absurd hlong (Nat.not_le.mpr hlt)
  | ok r =>
    obtain ⟨length, left⟩ := r
    obtain ⟨x, rfl, hx⟩ := Varint.exists_reads hlength
    have happend : Varint.decode (x ++ (left ++ t)) = .ok (length, left ++ t) := hx (left ++ t)
    simp only [decode, hlength] at h
    simp only [List.append_assoc, decode, happend] at ht
    split at h
    · cases h
    · rename_i hle
      rw [if_neg hle] at ht
      split at ht
      · exact (Except.error.inj ht).symm
      · cases ht

/-! ### Every frame -/

theorem decodeAll_of_ok (h : decode bs = .ok (record, rest)) :
    decodeAll bs = (record :: (decodeAll rest).1, (decodeAll rest).2) := by
  rw [decodeAll]
  split
  · rename_i hdecode
    rw [h] at hdecode
    cases hdecode
  · rename_i hdecode
    rw [h] at hdecode
    cases hdecode
    rfl

theorem decodeAll_of_error (h : decode bs = .error e) : decodeAll bs = ([], bs, e) := by
  rw [decodeAll]
  split
  · rename_i hdecode
    rw [h] at hdecode
    cases hdecode
    rfl
  · rename_i hdecode
    rw [h] at hdecode
    cases hdecode

/-- **Splitting goes on where it has stopped.** -/
theorem decodeAll_append (bs t : Bytes) :
    decodeAll (bs ++ t) =
      ((decodeAll bs).1 ++ (decodeAll ((decodeAll bs).2.1 ++ t)).1,
        (decodeAll ((decodeAll bs).2.1 ++ t)).2) := by
  induction hn : bs.length using Nat.strong_induction_on generalizing bs with
  | _ n ih =>
  cases hdecode : decode bs with
  | error e =>
    rw [decodeAll_of_error hdecode]
    rfl
  | ok r =>
    obtain ⟨record, rest⟩ := r
    have hshort := length_lt_of_decode hdecode
    rw [decodeAll_of_ok hdecode, decodeAll_of_ok (decode_append_of_ok hdecode t),
      ih rest.length (hn ▸ hshort) rest rfl]
    rfl

/-- Whole frames in front give their records, and splitting goes on after them. -/
theorem decodeAll_of_forall₂ {frames records : List Bytes}
    (h : List.Forall₂ (fun frame record => decode frame = .ok (record, [])) frames records)
    (rest : Bytes) :
    decodeAll (frames.flatten ++ rest) = (records ++ (decodeAll rest).1, (decodeAll rest).2) := by
  induction h with
  | nil => rfl
  | cons hframe _ ih =>
    rw [List.flatten_cons, List.append_assoc, decodeAll_of_ok (decode_append_of_ok hframe _),
      List.nil_append, ih]
    rfl

/-- Frames in a row give the records that are in them. -/
theorem decodeAll_flatten {records frames : List Bytes} (h : records.mapM encode = .ok frames) :
    decodeAll frames.flatten = (records, [], .needMore) := by
  have hframes := (mapM_eq_ok_iff.mp h).flip.imp fun _ _ => decode_of_encode
  have hall := decodeAll_of_forall₂ hframes []
  have hnil : decodeAll [] = ([], [], .needMore) := decodeAll_of_error rfl
  rwa [List.append_nil, hnil, List.append_nil] at hall

/-- Every record that is short enough can be framed. -/
theorem exists_frames {records : List Bytes} (h : ∀ record ∈ records, record.length ≤ maxLength) :
    ∃ frames, records.mapM encode = .ok frames :=
  exists_mapM_eq_ok_iff.mpr fun record hrecord =>
    ⟨_, encode_eq_ok_iff.mpr ⟨h record hrecord, rfl⟩⟩

/-! ### Pieces -/

/-- What has come out of a stream so far: the records, the bytes that are left, and why no further
frame could be split off. -/
structure Intake where
  records : List Bytes := []
  buffer : Bytes := []
  status : CodecError := .needMore
deriving DecidableEq

namespace Intake

/-- What comes out of some bytes when they are all there. -/
def ofBytes (bs : Bytes) : Intake :=
  let (records, left, e) := decodeAll bs
  ⟨records, left, e⟩

/-- Puts a piece behind what is left, and splits off every whole frame. -/
def take (i : Intake) (piece : Bytes) : Intake :=
  let (records, left, e) := decodeAll (i.buffer ++ piece)
  ⟨i.records ++ records, left, e⟩

/-- Takes pieces one after the other. -/
def run (pieces : List Bytes) : Intake := pieces.foldl take {}

theorem take_ofBytes (bs piece : Bytes) : (ofBytes bs).take piece = ofBytes (bs ++ piece) := by
  simp only [ofBytes, take, decodeAll_append bs piece]

/-- **A stream gives the same in whatever pieces it comes.** -/
theorem run_eq_ofBytes (pieces : List Bytes) : run pieces = ofBytes pieces.flatten := by
  induction pieces using List.reverseRecOn with
  | nil =>
    have hnil : decodeAll [] = ([], [], .needMore) := decodeAll_of_error rfl
    rw [List.flatten_nil, ofBytes, hnil]
    rfl
  | append_singleton pieces piece ih =>
    have hrun : run (pieces ++ [piece]) = (run pieces).take piece := by
      rw [run, List.foldl_append]
      rfl
    rw [hrun, ih, take_ofBytes, List.flatten_append, List.flatten_singleton]

end Intake

/-! ### The whole stream -/

/-- **Framing does not depend on how bytes come.** Of every byte string, a whole frame at the front
or a fault stays, with the bytes it takes up, when bytes come after it. So any bytes give the same
in whatever pieces they come: the frames of records that are short enough give these records in
their order, and leave nothing. The start of a frame only waits for more. -/
theorem framing :
    (∀ bs record rest, decode bs = .ok (record, rest) →
      ∃ used ≤ bs.length, bs.drop used = rest ∧
        ∀ t, decode (bs ++ t) = .ok (record, (bs ++ t).drop used)) ∧
    (∀ bs e, decode bs = .error e → e ≠ .needMore → ∀ t, decode (bs ++ t) = .error e) ∧
    (∀ pieces : List Bytes, Intake.run pieces = .ofBytes pieces.flatten) ∧
    (∀ records : List Bytes, (∀ record ∈ records, record.length ≤ maxLength) →
      ∃ frames, records.mapM encode = .ok frames ∧
        ∀ pieces : List Bytes, pieces.flatten = frames.flatten →
          Intake.run pieces = ⟨records, [], .needMore⟩) ∧
    (∀ record frame, encode record = .ok frame →
      ∀ start, start <+: frame → start ≠ frame → decode start = .error .needMore) := by
  refine ⟨fun bs record rest h => ?_, fun bs e h he => decode_append_of_error h he,
    Intake.run_eq_ofBytes, fun records hrecords => ?_, fun record frame h start =>
      decode_of_prefix (decode_of_encode h)⟩
  · obtain ⟨x, rfl, -, -⟩ := exists_of_decode h
    refine ⟨(x ++ record).length, ?_, List.drop_left, fun t => ?_⟩
    · exact (List.prefix_append (x ++ record) rest).length_le
    · rw [decode_append_of_ok h t, List.append_assoc _ rest t, List.drop_left]
  · obtain ⟨frames, hframes⟩ := exists_frames hrecords
    refine ⟨frames, hframes, fun pieces hpieces => ?_⟩
    rw [Intake.run_eq_ofBytes, hpieces, Intake.ofBytes, decodeAll_flatten hframes]

/-- A record of one byte and one of 130, whose length takes two bytes, come out of pieces that end
within a length and within a record. -/
theorem framing_two_records :
    (decode [1, 9, 130] = .ok ([9], [130]) ∧
      decode ([1, 9, 130] ++ [1, 7]) = .ok ([9], [130, 1, 7])) ∧
    (decode [129, 128, 128, 64] = .error (.frameTooLarge 134217729) ∧
      decode ([129, 128, 128, 64] ++ [7]) = .error (.frameTooLarge 134217729)) ∧
    [[9], List.replicate 130 7].mapM encode =
      .ok [[1, 9], 130 :: 1 :: List.replicate 130 7] ∧
    Intake.run [[1], [9, 130], [], [1, 7, 7], List.replicate 128 7] =
      ⟨[[9], List.replicate 130 7], [], .needMore⟩ ∧
    decode [130, 1, 7] = .error .needMore := by
  obtain ⟨hok, herror, -, hrecords, hstart⟩ := framing
  have hshort : encode [9] = .ok [1, 9] :=
    encode_eq_ok_iff.mpr ⟨by decide, by simp [Varint.encode]⟩
  have hlong : encode (List.replicate 130 7) = .ok (130 :: 1 :: List.replicate 130 7) :=
    encode_eq_ok_iff.mpr ⟨by simp [maxLength], by simp [Varint.encode]⟩
  have hframes : [[9], List.replicate 130 7].mapM encode =
      .ok [[1, 9], 130 :: 1 :: List.replicate 130 7] := by
    simp only [List.mapM_cons, List.mapM_nil, hshort, hlong]
    rfl
  have hfirst : decode [1, 9, 130] = .ok ([9], [130]) := rfl
  have hfault : decode [129, 128, 128, 64] = .error (.frameTooLarge 134217729) := by rfl
  obtain ⟨used, hused, hdrop, hlater⟩ := hok _ _ _ hfirst
  obtain ⟨frames, hsame, hrun⟩ := hrecords [[9], List.replicate 130 7] (by simp [maxLength])
  obtain rfl := Except.ok.inj (hframes.symm.trans hsame)
  refine ⟨⟨hfirst, ?_⟩, ⟨hfault, herror _ _ hfault (by decide) _⟩, hframes, hrun _ rfl,
    hstart _ _ hlong _ ⟨List.replicate 129 7, rfl⟩ (by decide)⟩
  have hwhole := hlater [1, 7]
  rw [List.drop_append_of_le_length hused, hdrop] at hwhole
  exact hwhole

end Courier.Frame
