import Mathlib
import Courier.Proofs.Codec.Framing
import Courier.Tcp.Stream

/-!
## Reading frames from a connection

The longest frame that is wanted is looked after in two places: a whole frame is measured, and so is
a buffer in which no whole frame stands yet. A buffer that is refused is longer than any frame that
is wanted could be, so both come to the same, and what is read depends on the bytes of the stream
alone.

* `Inbound.outlook_congr`: one record, in whatever pieces the bytes come.
* `Inbound.records_of_frames`: frames in a row.
* `Inbound.exists_frames_of_records`: every record that is read was in a frame within the limit.
* `Inbound.records_of_run`, `Inbound.records_of_not_passes`: reading goes pass by pass, and ends
  where none follows.
* `Inbound.length_buffer_le`: how much is kept in the buffer, from one pass to the next.
* `Inbound.reading`: all of it together.
-/

namespace Courier

/-- What kind of error it is: all of it except the length of a frame that is too long, which may be
told before all of the frame is there. -/
def TransportError.kind : TransportError → TransportError
  | .frameTooLarge _ limit => .frameTooLarge 0 limit
  | e => e

/-- The bytes are a frame with this record in it, no longer than a limit. -/
def Frame.Fits (limit : Nat) (frame record : Bytes) : Prop :=
  Frame.decode frame = .ok (record, []) ∧ frame.length ≤ limit

namespace Tcp.Inbound

variable {limit : Nat} {i j : Inbound} {buffer piece record rest : Bytes} {later : List Bytes}

/-- All bytes that are left. -/
def bytes (i : Inbound) : Bytes := i.buffer ++ i.pieces.flatten

@[simp] theorem bytes_whole (bs : Bytes) : bytes ⟨bs, []⟩ = bs := List.append_nil bs

/-! ### One pass -/

theorem next_of_frame_le (h : Frame.decode i.buffer = .ok (record, rest))
    (hle : i.buffer.length - rest.length ≤ limit) :
    i.next limit = .ok (some record, ⟨rest, i.pieces⟩) := by
  rw [next, nextFrom.eq_def, h]
  dsimp only
  rw [if_neg (Nat.not_lt.mpr hle)]

theorem next_of_frame_lt (h : Frame.decode i.buffer = .ok (record, rest))
    (hlt : limit < i.buffer.length - rest.length) :
    i.next limit = .error (.frameTooLarge (i.buffer.length - rest.length) limit) := by
  rw [next, nextFrom.eq_def, h]
  dsimp only
  rw [if_pos hlt]

theorem next_of_start_lt (h : Frame.decode i.buffer = .error .needMore)
    (hlt : limit + Varint.maxLength < i.buffer.length) :
    i.next limit = .error (.frameTooLarge i.buffer.length limit) := by
  rw [next, nextFrom.eq_def, h]
  dsimp only
  rw [if_pos hlt]

theorem next_of_read (h : Frame.decode buffer = .error .needMore)
    (hle : buffer.length ≤ limit + Varint.maxLength) :
    next limit ⟨buffer, piece :: later⟩ = next limit ⟨buffer ++ piece, later⟩ := by
  rw [next, nextFrom.eq_def, h]
  dsimp only
  rw [if_neg (Nat.not_lt.mpr hle)]
  rfl

theorem next_of_end (h : Frame.decode buffer = .error .needMore)
    (hle : buffer.length ≤ limit + Varint.maxLength) :
    next limit ⟨buffer, []⟩ =
      if buffer.isEmpty then .ok (none, ⟨[], []⟩) else .error .closed := by
  rw [next, nextFrom.eq_def, h]
  dsimp only
  rw [if_neg (Nat.not_lt.mpr hle)]

theorem next_of_fault {e : CodecError} (h : Frame.decode i.buffer = .error e)
    (he : e ≠ .needMore) : i.next limit = .error (.codec e) := by
  rw [next, nextFrom.eq_def, h]
  split
  · rename_i hread
    cases hread
  · rename_i hneed
    exact absurd (Except.error.inj hneed) he
  · rename_i hsame
    rw [Except.error.inj hsame]

/-! ### One record -/

/-- The next record with the bytes after it, or the kind of failure. -/
def outlook (limit : Nat) (i : Inbound) : Except TransportError (Option Bytes × Bytes) :=
  match i.next limit with
  | .error e => .error e.kind
  | .ok (record, j) => .ok (record, j.bytes)

theorem outlook_of_ok {r : Option Bytes} (h : i.next limit = .ok (r, j)) :
    outlook limit i = .ok (r, j.bytes) := by
  rw [outlook, h]

theorem outlook_of_error {e : TransportError} (h : i.next limit = .error e) :
    outlook limit i = .error e.kind := by
  rw [outlook, h]

/-- What is refused as the start of a frame is refused when more of it has come. -/
theorem outlook_of_start_lt (h : Frame.decode buffer = .error .needMore)
    (hlt : limit + Varint.maxLength < buffer.length) (t : Bytes) :
    outlook limit ⟨buffer ++ t, []⟩ = .error (.frameTooLarge 0 limit) := by
  have hlonger : buffer.length ≤ (buffer ++ t).length := (List.prefix_append buffer t).length_le
  -- A frame that comes out of it after all is at least as long as what was refused.
  cases hdecode : Frame.decode (buffer ++ t) with
  | ok r =>
    have htakes := Frame.length_lt_of_decode_append h hdecode
    have hlength : (buffer ++ t).length = buffer.length + t.length := List.length_append
    exact outlook_of_error (next_of_frame_lt hdecode (by dsimp only; omega))
  | error e =>
    obtain rfl := Frame.eq_needMore_of_decode_append h (by omega) hdecode
    exact outlook_of_error (next_of_start_lt hdecode (by dsimp only; omega))

/-- The next record does not depend on the pieces that are still to come. -/
theorem outlook_eq_whole (limit : Nat) (buffer : Bytes) (pieces : List Bytes) :
    outlook limit ⟨buffer, pieces⟩ = outlook limit ⟨buffer ++ pieces.flatten, []⟩ := by
  induction pieces generalizing buffer with
  | nil => rw [List.flatten_nil, List.append_nil]
  | cons piece later ih =>
    cases hdecode : Frame.decode buffer with
    | ok r =>
      obtain ⟨record, rest⟩ := r
      have hwhole := Frame.decode_append_of_ok hdecode (piece :: later).flatten
      have hlength : (buffer ++ (piece :: later).flatten).length -
          (rest ++ (piece :: later).flatten).length = buffer.length - rest.length := by
        simp only [List.length_append]
        omega
      by_cases hlimit : buffer.length - rest.length ≤ limit
      · rw [outlook_of_ok (next_of_frame_le hdecode hlimit),
          outlook_of_ok (next_of_frame_le hwhole (by dsimp only; omega)), bytes_whole, bytes]
      · rw [outlook_of_error (next_of_frame_lt hdecode (Nat.not_le.mp hlimit)),
          outlook_of_error (next_of_frame_lt hwhole (by dsimp only; omega))]
        rfl
    | error e =>
      by_cases he : e = .needMore
      · subst he
        by_cases hlimit : buffer.length ≤ limit + Varint.maxLength
        · rw [outlook, next_of_read hdecode hlimit, ← outlook, ih, List.append_assoc,
            List.flatten_cons]
        · rw [outlook_of_start_lt hdecode (Nat.not_le.mp hlimit),
            outlook_of_error (next_of_start_lt hdecode (Nat.not_le.mp hlimit))]
          rfl
      · have hwhole := Frame.decode_append_of_error hdecode he (piece :: later).flatten
        rw [outlook_of_error (next_of_fault hdecode he), outlook_of_error (next_of_fault hwhole he)]

theorem outlook_eq_bytes (limit : Nat) (i : Inbound) :
    outlook limit i = outlook limit ⟨i.bytes, []⟩ :=
  outlook_eq_whole limit i.buffer i.pieces

/-- **The next record depends on the bytes alone**, not on the pieces they come in. -/
theorem outlook_congr (limit : Nat) (h : i.bytes = j.bytes) :
    outlook limit i = outlook limit j := by
  rw [outlook_eq_bytes limit i, outlook_eq_bytes limit j, h]

theorem exists_next_of_outlook {bs : Bytes} {r : Option Bytes}
    (h : outlook limit i = .ok (r, bs)) : ∃ j, i.next limit = .ok (r, j) ∧ j.bytes = bs := by
  unfold outlook at h
  split at h
  · cases h
  · rename_i hnext
    cases h
    exact ⟨_, hnext, rfl⟩

theorem exists_error_of_outlook {e : TransportError} (h : outlook limit i = .error e) :
    ∃ e', i.next limit = .error e' ∧ e'.kind = e := by
  unfold outlook at h
  split at h
  · rename_i hnext
    exact ⟨_, hnext, Except.error.inj h⟩
  · cases h

/-- A frame that has come whole. -/
theorem outlook_of_fits {frame : Bytes} (h : Frame.Fits limit frame record)
    (hi : i.bytes = frame ++ rest) : outlook limit i = .ok (some record, rest) := by
  have hdecode : Frame.decode (frame ++ rest) = .ok (record, rest) :=
    Frame.decode_append_of_ok h.1 rest
  have hle : (frame ++ rest).length - rest.length ≤ limit := by
    rw [List.length_append, Nat.add_sub_cancel]
    exact h.2
  rw [outlook_eq_bytes, hi, outlook_of_ok (next_of_frame_le hdecode hle), bytes_whole]

/-- The frame of a record that has been read. -/
theorem exists_fits_of_next (h : i.next limit = .ok (some record, j)) :
    ∃ frame, Frame.Fits limit frame record ∧ i.bytes = frame ++ j.bytes := by
  have hwhole : outlook limit ⟨i.bytes, []⟩ = .ok (some record, j.bytes) := by
    rw [← outlook_eq_bytes, outlook_of_ok h]
  obtain ⟨k, hnext, hk⟩ := exists_next_of_outlook hwhole
  cases hdecode : Frame.decode i.bytes with
  | ok r =>
    obtain ⟨record', rest⟩ := r
    obtain ⟨x, hsplit, hx, hmax⟩ := Frame.exists_of_decode hdecode
    by_cases hlimit : i.bytes.length - rest.length ≤ limit
    · rw [next_of_frame_le hdecode hlimit] at hnext
      cases hnext
      rw [← hk, bytes_whole]
      refine ⟨x ++ record, ⟨?_, ?_⟩, hsplit⟩
      · have hframe : Frame.decode (x ++ record ++ []) = .ok (record, []) :=
          Frame.decode_of_reads hx hmax
        rwa [List.append_nil] at hframe
      · rwa [hsplit, List.length_append, Nat.add_sub_cancel] at hlimit
    · rw [next_of_frame_lt hdecode (Nat.not_le.mp hlimit)] at hnext
      cases hnext
  | error e =>
    by_cases he : e = .needMore
    · subst he
      by_cases hlimit : i.bytes.length ≤ limit + Varint.maxLength
      · rw [next_of_end hdecode hlimit] at hnext
        split at hnext <;> cases hnext
      · rw [next_of_start_lt hdecode (Nat.not_le.mp hlimit)] at hnext
        cases hnext
    · rw [next_of_fault hdecode he] at hnext
      cases hnext

/-! ### All records -/

theorem records_of_error {e : TransportError} (h : i.next limit = .error e) :
    i.records limit = ([], some e) := by
  rw [records]
  split <;> simp_all

theorem records_of_none (h : i.next limit = .ok (none, j)) : i.records limit = ([], none) := by
  rw [records]
  split <;> simp_all

theorem records_of_some (h : i.next limit = .ok (some record, j)) :
    i.records limit = (record :: (j.records limit).1, (j.records limit).2) := by
  rw [records]
  split <;> simp_all

/-- **The records and the kind of end depend on the bytes alone.** -/
theorem records_congr (limit : Nat) (h : i.bytes = j.bytes) :
    (i.records limit).1 = (j.records limit).1 ∧
      (i.records limit).2.map TransportError.kind = (j.records limit).2.map TransportError.kind := by
  induction hsize : i.size using Nat.strong_induction_on generalizing i j with
  | _ n ih =>
  have hsame := outlook_congr limit h
  cases hi : i.next limit with
  | error e =>
    rw [outlook_of_error hi] at hsame
    obtain ⟨e', hj, hkind⟩ := exists_error_of_outlook hsame.symm
    rw [records_of_error hi, records_of_error hj]
    exact ⟨rfl, congrArg some hkind.symm⟩
  | ok r =>
    obtain ⟨r, i'⟩ := r
    rw [outlook_of_ok hi] at hsame
    obtain ⟨j', hj, hbytes⟩ := exists_next_of_outlook hsame.symm
    cases r with
    | none =>
      rw [records_of_none hi, records_of_none hj]
      exact ⟨rfl, rfl⟩
    | some record =>
      obtain ⟨hrecords, hend⟩ := ih i'.size (hsize ▸ size_next_lt hi) hbytes.symm rfl
      rw [records_of_some hi, records_of_some hj]
      exact ⟨congrArg (List.cons record) hrecords, hend⟩

/-- **Frames in a row** give their records, and reading goes on after them. -/
theorem records_of_frames {frames records' : List Bytes}
    (h : List.Forall₂ (Frame.Fits limit) frames records') (hi : i.bytes = frames.flatten ++ rest) :
    ∃ j : Inbound, j.bytes = rest ∧
      i.records limit = (records' ++ (j.records limit).1, (j.records limit).2) := by
  induction h generalizing i with
  | nil => exact ⟨i, hi, rfl⟩
  | cons hfits _ ih =>
    rw [List.flatten_cons, List.append_assoc] at hi
    obtain ⟨k, hnext, hk⟩ := exists_next_of_outlook (outlook_of_fits hfits hi)
    obtain ⟨j, hj, hrecords⟩ := ih hk
    refine ⟨j, hj, ?_⟩
    rw [records_of_some hnext, hrecords]
    rfl

/-- A stream that has ended between two frames. -/
theorem records_of_bytes_nil (h : i.bytes = []) : i.records limit = ([], none) := by
  have hnil : Frame.decode [] = .error .needMore := rfl
  have hnone : outlook limit ⟨[], []⟩ = .ok (none, []) := by
    exact outlook_of_ok (next_of_end hnil (Nat.zero_le _))
  obtain ⟨j, hnext, -⟩ := exists_next_of_outlook ((outlook_congr limit h).trans hnone)
  exact records_of_none hnext

/-- A stream that has ended within a frame. -/
theorem records_of_start {frame : Bytes} (h : Frame.Fits limit frame record)
    (hstart : i.bytes <+: frame) (hne : i.bytes ≠ frame) (hnil : i.bytes ≠ []) :
    i.records limit = ([], some .closed) := by
  have hdecode := Frame.decode_of_prefix h.1 hstart hne
  have hle : i.bytes.length ≤ limit + Varint.maxLength :=
    Nat.le_trans hstart.length_le (Nat.le_trans h.2 (Nat.le_add_right _ _))
  have hclosed : outlook limit i = .error .closed := by
    have hend := next_of_end hdecode hle
    rw [if_neg (by rwa [List.isEmpty_iff])] at hend
    rw [outlook_eq_bytes, outlook_of_error hend]
    rfl
  obtain ⟨e, hnext, hkind⟩ := exists_error_of_outlook hclosed
  rw [records_of_error hnext]
  cases e <;> first | rfl | cases hkind

/-- **Every record that is read was in a frame within the limit**, one frame after the other. -/
theorem exists_frames_of_records (limit : Nat) (i : Inbound) :
    ∃ frames rest, i.bytes = frames.flatten ++ rest ∧
      List.Forall₂ (Frame.Fits limit) frames (i.records limit).1 := by
  induction hsize : i.size using Nat.strong_induction_on generalizing i with
  | _ n ih =>
  cases hi : i.next limit with
  | error e => exact ⟨[], i.bytes, rfl, by rw [records_of_error hi]; exact .nil⟩
  | ok r =>
    obtain ⟨r, j⟩ := r
    cases r with
    | none => exact ⟨[], i.bytes, rfl, by rw [records_of_none hi]; exact .nil⟩
    | some record =>
      obtain ⟨frame, hfits, hbytes⟩ := exists_fits_of_next hi
      obtain ⟨frames, rest, hrest, hframes⟩ := ih j.size (hsize ▸ size_next_lt hi) j rfl
      refine ⟨frame :: frames, rest, ?_, ?_⟩
      · rw [hbytes, hrest, List.flatten_cons, List.append_assoc]
      · rw [records_of_some hi]
        exact .cons hfits hframes

/-! ### The buffer -/

/-- One pass of reading, with the records it brings: a frame within the limit is taken off the
buffer, or, where that holds the start of a frame and not too much of it, the next piece is read. -/
inductive Passes (limit : Nat) : Inbound → List Bytes → Inbound → Prop
  | take {i : Inbound} {record rest : Bytes} (hframe : Frame.decode i.buffer = .ok (record, rest))
      (hle : i.buffer.length - rest.length ≤ limit) : Passes limit i [record] ⟨rest, i.pieces⟩
  | read {buffer piece : Bytes} {later : List Bytes}
      (hstart : Frame.decode buffer = .error .needMore)
      (hle : buffer.length ≤ limit + Varint.maxLength) :
      Passes limit ⟨buffer, piece :: later⟩ [] ⟨buffer ++ piece, later⟩

/-- Passes in a row, with the records that they bring. -/
inductive Run (limit : Nat) (i : Inbound) : List Bytes → Inbound → Prop
  | refl : Run limit i [] i
  | tail {records out : List Bytes} {j k : Inbound} (hrun : Run limit i records j)
      (hpass : Passes limit j out k) : Run limit i (records ++ out) k

theorem records_of_next_eq (h : i.next limit = j.next limit) :
    i.records limit = j.records limit := by
  cases hj : j.next limit with
  | error e => rw [records_of_error hj, records_of_error (h.trans hj)]
  | ok r =>
    obtain ⟨r, k⟩ := r
    cases r with
    | none => rw [records_of_none hj, records_of_none (h.trans hj)]
    | some record => rw [records_of_some hj, records_of_some (h.trans hj)]

theorem records_of_passes {out : List Bytes} (h : Passes limit i out j) :
    i.records limit = (out ++ (j.records limit).1, (j.records limit).2) := by
  cases h with
  | take hframe hle => exact records_of_some (next_of_frame_le hframe hle)
  | read hstart hle => exact records_of_next_eq (next_of_read hstart hle)

/-- What is read in a run of passes comes first, and reading goes on from there. -/
theorem records_of_run {out : List Bytes} (h : Run limit i out j) :
    i.records limit = (out ++ (j.records limit).1, (j.records limit).2) := by
  induction h with
  | refl => rfl
  | tail _ hpass ih =>
    rw [ih, records_of_passes hpass, List.append_assoc]

/-- **Where no pass follows, reading ends.** If pieces are left by then it ends in an error, and in
the same one whatever they are. -/
theorem records_of_not_passes (h : ∀ out k, ¬Passes limit i out k) :
    ∃ e, i.records limit = ([], e) ∧
      (i.pieces ≠ [] → e ≠ none ∧ ∀ left, records limit ⟨i.buffer, left⟩ = ([], e)) := by
  obtain ⟨buffer, pieces⟩ := i
  have hsame : ∀ e, (∀ left, next limit ⟨buffer, left⟩ = .error e) →
      ∃ e, records limit ⟨buffer, pieces⟩ = ([], e) ∧
        (pieces ≠ [] → e ≠ none ∧ ∀ left, records limit ⟨buffer, left⟩ = ([], e)) :=
    fun e herror => ⟨some e, records_of_error (herror pieces),
      fun _ => ⟨nofun, fun left => records_of_error (herror left)⟩⟩
  cases hdecode : Frame.decode buffer with
  | ok r =>
    by_cases hle : buffer.length - r.2.length ≤ limit
    · exact absurd (.take hdecode hle) (h _ _)
    · exact hsame (.frameTooLarge (buffer.length - r.2.length) limit) fun left =>
        next_of_frame_lt hdecode (Nat.not_le.mp hle)
  | error e =>
    by_cases he : e = .needMore
    · subst he
      by_cases hle : buffer.length ≤ limit + Varint.maxLength
      -- The start of a frame that may go on: no piece is left, or a pass would read it.
      · cases pieces with
        | nil =>
          have hend := next_of_end hdecode hle
          split at hend
          · exact ⟨none, records_of_none hend, fun hne => absurd rfl hne⟩
          · exact ⟨some .closed, records_of_error hend, fun hne => absurd rfl hne⟩
        | cons piece later => exact absurd (.read hdecode hle) (h _ _)
      · exact hsame (.frameTooLarge buffer.length limit) fun left =>
          next_of_start_lt hdecode (Nat.not_le.mp hle)
    · exact hsame (.codec e) fun left => next_of_fault hdecode he

/-- A pass takes a frame, or there is a piece less to come. -/
theorem Passes.measure_lt {out : List Bytes} (h : Passes limit i out j) :
    j.size + j.pieces.length < i.size + i.pieces.length := by
  cases h with
  | take hframe hle =>
    exact Nat.add_lt_add_right (size_next_lt (next_of_frame_le hframe hle)) _
  | read hstart hle =>
    simp only [size, List.length_append, List.flatten_cons, List.length_cons]
    omega

theorem Run.head {first out : List Bytes} {k : Inbound} (hpass : Passes limit i first j)
    (hrun : Run limit j out k) : Run limit i (first ++ out) k := by
  induction hrun with
  | refl =>
    rw [List.append_nil]
    exact .tail .refl hpass
  | tail _ hlast ih =>
    rw [← List.append_assoc]
    exact .tail ih hlast

/-- Reading is a run of passes until there is no further one. -/
theorem exists_run (limit : Nat) (i : Inbound) :
    ∃ j, Run limit i (i.records limit).1 j ∧ ∀ out k, ¬Passes limit j out k := by
  -- A piece may be empty, so the bytes that are left do not suffice as a measure.
  induction hmeasure : i.size + i.pieces.length using Nat.strong_induction_on generalizing i with
  | _ n ih =>
  by_cases hpass : ∃ out j, Passes limit i out j
  · obtain ⟨out, j, hpass⟩ := hpass
    obtain ⟨k, hrun, hlast⟩ := ih _ (hmeasure ▸ hpass.measure_lt) j rfl
    rw [records_of_passes hpass]
    exact ⟨k, .head hpass hrun, hlast⟩
  · have hlast : ∀ out k, ¬Passes limit i out k := fun out k h => hpass ⟨out, k, h⟩
    obtain ⟨e, hnone, -⟩ := records_of_not_passes hlast
    rw [hnone]
    exact ⟨i, .refl, hlast⟩

/-- **How much is kept in the buffer**: what a frame may take, and the last piece that was read. -/
theorem length_buffer_le {pieces out : List Bytes} (h : Run limit ⟨[], pieces⟩ out j) :
    ∃ read, pieces = read ++ j.pieces ∧
      j.buffer.length ≤ limit + Varint.maxLength + (read.getLast?.map List.length).getD 0 := by
  induction h with
  | refl => exact ⟨[], rfl, Nat.zero_le _⟩
  | tail _ hpass ih =>
    obtain ⟨read, hread, hle⟩ := ih
    cases hpass with
    | take hframe _ =>
      have hshort := Frame.length_lt_of_decode hframe
      exact ⟨read, hread, by dsimp only; omega⟩
    | @read buffer piece later _ hlimit =>
      refine ⟨read ++ [piece], by rw [hread, List.append_assoc]; rfl, ?_⟩
      rw [List.getLast?_concat, Option.map_some, Option.getD_some, List.length_append]
      exact Nat.add_le_add_right hlimit _

/-! ### The whole stream -/

/-- **Reading frames from a connection.** With every limit, the records that are read and the kind
of end depend on the bytes of the stream alone, in whatever pieces single reads bring them. Frames
within the limit in a row, however their lengths are spelled, give their records and a good end;
where the stream ends within one more such frame, the connection counts as closed. Every record that
is read was in a frame within the limit, one frame after the other from the first byte on. And
reading is a run of passes until no further one is possible. After any of them it goes on from the
buffer as it is, which holds at most the longest frame, a length and the last read; and where no
pass follows it ends, without a look at the pieces that are left. -/
theorem reading (limit : Nat) :
    (∀ pieces pieces' : List Bytes, pieces.flatten = pieces'.flatten →
      (records limit ⟨[], pieces⟩).1 = (records limit ⟨[], pieces'⟩).1 ∧
        (records limit ⟨[], pieces⟩).2.map TransportError.kind =
          (records limit ⟨[], pieces'⟩).2.map TransportError.kind) ∧
    (∀ frames out, List.Forall₂ (Frame.Fits limit) frames out →
      (∀ pieces : List Bytes, pieces.flatten = frames.flatten →
        records limit ⟨[], pieces⟩ = (out, none)) ∧
      ∀ frame record start, Frame.Fits limit frame record → start <+: frame → start ≠ frame →
        start ≠ [] → ∀ pieces : List Bytes, pieces.flatten = frames.flatten ++ start →
          records limit ⟨[], pieces⟩ = (out, some .closed)) ∧
    (∀ pieces : List Bytes, ∃ frames rest, pieces.flatten = frames.flatten ++ rest ∧
      List.Forall₂ (Frame.Fits limit) frames (records limit ⟨[], pieces⟩).1) ∧
    ∀ pieces : List Bytes,
      (∃ j, Run limit ⟨[], pieces⟩ (records limit ⟨[], pieces⟩).1 j ∧
        ∀ out k, ¬Passes limit j out k) ∧
      ∀ out j, Run limit ⟨[], pieces⟩ out j →
        records limit ⟨[], pieces⟩ = (out ++ (records limit j).1, (records limit j).2) ∧
        (∃ read, pieces = read ++ j.pieces ∧
          j.buffer.length ≤ limit + Varint.maxLength + (read.getLast?.map List.length).getD 0) ∧
        ((∀ out' k, ¬Passes limit j out' k) → ∃ e, records limit j = ([], e) ∧
          (j.pieces ≠ [] → e ≠ none ∧ ∀ left, records limit ⟨j.buffer, left⟩ = ([], e))) := by
  refine ⟨fun pieces pieces' h => records_congr limit h, fun frames out hframes => ⟨?_, ?_⟩,
    fun pieces => exists_frames_of_records limit ⟨[], pieces⟩,
    fun pieces => ⟨exists_run limit _, fun out j hrun => ⟨records_of_run hrun,
      length_buffer_le hrun, records_of_not_passes⟩⟩⟩
  · intro pieces hpieces
    have hbytes : bytes ⟨[], pieces⟩ = frames.flatten ++ [] := by
      rw [List.append_nil]
      exact hpieces
    obtain ⟨j, hj, hrecords⟩ := records_of_frames hframes hbytes
    rw [hrecords, records_of_bytes_nil hj, List.append_nil]
  · intro frame record start hfits hstart hne hnil pieces hpieces
    obtain ⟨j, hj, hrecords⟩ := records_of_frames (i := ⟨[], pieces⟩) hframes hpieces
    subst hj
    rw [hrecords, records_of_start hfits hstart hne hnil, List.append_nil]

/-- Two frames, the length of the second spelled with a byte too many, and the start of a third, in
pieces that end within frames and within a length; a frame that is too long, in two cuts of it; and
the start of one at which reading ends whatever comes after it. -/
theorem reading_pieces :
    List.Forall₂ (Frame.Fits 3) [[1, 9], [129, 0, 7]] [[9], [7]] ∧
      records 3 ⟨[], [[1], [9, 129], [0, 7]]⟩ = ([[9], [7]], none) ∧
      Frame.Fits 3 [2, 4, 4] [4, 4] ∧
      records 3 ⟨[], [[1, 9, 129, 0], [7, 2], [4]]⟩ = ([[9], [7]], some .closed) ∧
      ([[1, 9], [5, 4], [4, 4, 4, 4]] : List Bytes).flatten = [[1, 9, 5, 4, 4], [4, 4, 4]].flatten ∧
      (records 3 ⟨[], [[1, 9], [5, 4], [4, 4, 4, 4]]⟩).2.map TransportError.kind =
        (records 3 ⟨[], [[1, 9, 5, 4, 4], [4, 4, 4]]⟩).2.map TransportError.kind ∧
      Run 3 ⟨[], [[1, 9, 5, 4]]⟩ [[9]] ⟨[5, 4], []⟩ ∧
      (∃ read : List Bytes, [[1, 9, 5, 4]] = read ++ [] ∧
        2 ≤ 3 + Varint.maxLength + (read.getLast?.map List.length).getD 0) ∧
      ∃ e, e ≠ none ∧ ∀ left, records 3 ⟨100 :: List.replicate 13 4, left⟩ = ([], e) := by
  obtain ⟨hcut, hframes, -, hbuffer⟩ := reading 3
  have hfits : List.Forall₂ (Frame.Fits 3) [[1, 9], [129, 0, 7]] [[9], [7]] :=
    .cons ⟨rfl, by decide⟩ (.cons ⟨rfl, by decide⟩ .nil)
  have hlast : Frame.Fits 3 [2, 4, 4] [4, 4] := ⟨rfl, by decide⟩
  obtain ⟨hwhole, hstart⟩ := hframes _ _ hfits
  have hread : Run 3 ⟨[], [[1, 9, 5, 4]]⟩ [] ⟨[1, 9, 5, 4], []⟩ :=
    .tail .refl (.read rfl (by decide))
  have hrun : Run 3 ⟨[], [[1, 9, 5, 4]]⟩ [[9]] ⟨[5, 4], []⟩ := .tail hread (.take rfl (by decide))
  have hsame : ([[1, 9], [5, 4], [4, 4, 4, 4]] : List Bytes).flatten =
      [[1, 9, 5, 4, 4], [4, 4, 4]].flatten := rfl
  have hlong : Run 3 ⟨[], [100 :: List.replicate 13 4, [1]]⟩ []
      ⟨100 :: List.replicate 13 4, [[1]]⟩ := .tail .refl (.read rfl (by decide))
  have hstuck : ∀ out k, ¬Passes 3 ⟨100 :: List.replicate 13 4, [[1]]⟩ out k := by
    intro out k hpass
    cases hpass with
    | take hframe _ => cases hframe
    | read _ hle => exact absurd hle (by decide)
  obtain ⟨e, -, hend⟩ := ((hbuffer _).2 _ _ hlong).2.2 hstuck
  exact ⟨hfits, hwhole _ rfl, hlast,
    hstart _ _ [2, 4] hlast ⟨[4], rfl⟩ (by decide) (by decide) _ rfl, hsame, (hcut _ _ hsame).2,
    hrun, ((hbuffer _).2 _ _ hrun).2.1, e, hend (List.cons_ne_nil _ _)⟩

end Tcp.Inbound

end Courier
