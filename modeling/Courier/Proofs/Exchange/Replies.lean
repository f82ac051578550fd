import Mathlib
import Courier.Proofs.Exchange.Transparency
import Courier.Proofs.Tcp.Reading
import Courier.Tcp.Client
import Courier.Tcp.Server

/-!
## Answers that are too long

A server sends an error in place of an answer whose frame is longer than its limit. It is decided in
two places whether an answer can be sent, once for connections and once for calls within one process.
They agree as long as there is a frame for the answer at all. For one that is longer than any frame
may be, a connection still brings the error, whereas a call within the process fails on the way back.

* `Response.sent`: what is to be sent for an answer.
* `Tcp.replyRecord_eq`, `Memory.reply_eq`: what is sent for it.
* `Tcp.rpc_direct`, `Memory.rpc_of_deliver`: what the caller learns.
* `replies_agree_iff`: when the two agree.
-/

namespace Courier

open Codec

/-! ### What is to be sent -/

namespace Response

/-- Whether a frame within a limit carries the answer. -/
def CanBeSent (r : Response) (limit : Nat) : Prop :=
  r.encode.length ≤ Frame.maxLength ∧ counted r.encode.length ≤ limit

instance (r : Response) (limit : Nat) : Decidable (r.CanBeSent limit) :=
  inferInstanceAs (Decidable (_ ∧ _))

/-- What a server with a limit is to send for an answer: the answer, if a frame carries it, and
otherwise an error that tells its length. -/
def sent (r : Response) (limit : Nat) : Response :=
  if r.CanBeSent limit then r else oversize r.encode.length

variable {r : Response} {limit : Nat}

/-- Where the error can be sent, so can whatever is to be sent. -/
theorem canBeSent_sent (h : (oversize r.encode.length).CanBeSent limit) :
    (r.sent limit).CanBeSent limit := by
  unfold sent
  split
  · assumption
  · exact h

/-- The text of the error. -/
def oversizeText (length : Nat) : String :=
  "response of " ++ toString length ++ " bytes exceeds the frame limit"

theorem oversizeText_isEmpty (length : Nat) : (oversizeText length).isEmpty = false := by
  rw [Bool.eq_false_iff, Ne, String.isEmpty_iff_utf8ByteSize_eq_zero]
  simp only [oversizeText, String.utf8ByteSize_append]
  have hpos : 0 < "response of ".utf8ByteSize := by decide
  omega

theorem oversize_eq (length : Nat) : oversize length = ⟨oversizeText length, .nil⟩ := by
  show err (oversizeText length) = _
  rw [err, oversizeText_isEmpty]
  rfl

theorem shallow_oversize (length : Nat) : (oversize length).value.Shallow := by
  rw [oversize_eq]
  exact Value.shallow_iff.mpr (Nat.zero_le _)

/-- The error is short, so hardly a limit does not carry it. -/
theorem canBeSent_oversize {length : Nat} (hshort : (oversizeText length).utf8ByteSize ≤ 100)
    (hlimit : 128 ≤ limit) : (oversize length).CanBeSent limit := by
  have hlength : (oversize length).encode.length = (oversizeText length).utf8ByteSize + 2 :=
    length_err (oversizeText_isEmpty length) (Nat.lt_of_le_of_lt hshort (by decide))
  refine ⟨?_, (fits_err (oversizeText_isEmpty length) hshort hlimit).length_le⟩
  rw [hlength]
  exact Nat.le_trans (Nat.add_le_add_right hshort 2) (by decide)

end Response

/-! ### Over connections -/

namespace Tcp

/-- **A connection brings what is to be sent**, however long the answer is. -/
theorem replyRecord_eq (limit : Nat) (r : Response) :
    replyRecord limit r = (r.sent limit).encode := by
  unfold replyRecord Response.sent
  dsimp only
  by_cases hmax : r.encode.length ≤ Frame.maxLength
  · rw [Frame.encode_eq_ok_iff.mpr ⟨hmax, rfl⟩]
    dsimp only
    rw [← putBytes, length_putBytes_eq]
    by_cases hlimit : counted r.encode.length ≤ limit
    · rw [if_pos hlimit, if_pos ⟨hmax, hlimit⟩]
    · rw [if_neg hlimit, if_neg fun h => hlimit h.2]
  · rw [Frame.encode, if_pos (Nat.not_le.mp hmax), if_neg fun h => hmax h.1]

theorem outgoing_eq {r : Response} {limit : Nat} (h : r.CanBeSent limit) :
    outgoing limit r.encode = .ok (putBytes r.encode) := by
  obtain ⟨hmax, hlimit⟩ := h
  rw [← length_putBytes_eq] at hlimit
  simp only [outgoing, frame_eq hmax, ok_bind, checkFrame_of_le hlimit]
  rfl

/-- What comes first is read off as a whole. -/
theorem Inbound.next_of_frame {record : Bytes} {limit : Nat}
    (hmax : record.length ≤ Frame.maxLength) (hlimit : counted record.length ≤ limit)
    (later : List Bytes) :
    next limit { pieces := putBytes record :: later } =
      .ok (some record, { pieces := later }) := by
  have hnil : Frame.decode [] = .error .needMore := rfl
  have hframe : Frame.decode (putBytes record) = .ok (record, []) :=
    Frame.decode_of_encode (Frame.encode_eq_ok_iff.mpr ⟨hmax, rfl⟩)
  rw [← length_putBytes_eq] at hlimit
  rw [next_of_read hnil (Nat.zero_le _)]
  exact next_of_frame_le hframe hlimit

theorem Inbound.next_nil (limit : Nat) :
    next limit { pieces := [] } = .ok (none, { pieces := [] }) := rfl

variable {σ : Type} {handler : Call → σ → Response × σ}

/-- A server answers the only call on a connection, and then the connection ends. -/
theorem serve_call {call : Call} {r : Response} {s s' : σ} {limit : Nat}
    (hmax : call.encode.length ≤ Frame.maxLength) (hcall : call.Fits limit)
    (hhandle : handler call s = (r, s')) (hsent : (r.sent limit).CanBeSent limit) :
    serve limit handler { pieces := [putBytes call.encode] } s =
      ([putBytes (r.sent limit).encode], none, s') := by
  have hread : Call.decode call.encode = .ok call :=
    (Reader.reads_call hcall.shallow (Nat.lt_of_le_of_lt hmax (by decide))).all
  have hend : serve limit handler { pieces := [] } s' = ([], none, s') := by
    rw [serve]
    split
    · rename_i hnext
      rw [Inbound.next_nil] at hnext
      cases hnext
    · rfl
    · rename_i hnext
      rw [Inbound.next_nil] at hnext
      cases hnext
  rw [serve]
  have hnext := Inbound.next_of_frame hmax hcall.length_le []
  split
  · rename_i h
    rw [hnext] at h
    cases h
  · rename_i h
    rw [hnext] at h
    cases h
  · rename_i h
    rw [hnext] at h
    cases h
    simp only [hread, hhandle, replyRecord_eq, outgoing_eq hsent, hend]

/-- A network with one host, over connections that bring all that is sent over them. -/
def Dialer.direct (served : Nat) (handler : Call → σ → Response × σ) : Dialer Unit σ where
  connect _ s := (.ok (), s)
  exchange _ frame limit s :=
    let (frames, _, s) := serve served handler { pieces := [frame] } s
    match Inbound.next limit { pieces := frames } with
    | .error e => (.error e, (), s)
    | .ok (none, _) => (.error .closed, (), s)
    | .ok (some record, _) => (.ok record, (), s)

/-- **What the caller learns over a connection**: what is to be sent for the answer. -/
theorem rpc_direct {call : Call} {r : Response} {s s' : σ} {own served : Nat}
    (hmax : call.encode.length ≤ Frame.maxLength) (hcall : call.Fits (min own served))
    (hhandle : handler call s = (r, s')) (hsent : (r.sent served).CanBeSent served)
    (hown : counted (r.sent served).encode.length ≤ own) (host : String) :
    rpc (.direct served handler) own host call none s =
      (valueOf (r.sent served).encode, some (), s') := by
  obtain ⟨hcallOwn, hcallServed⟩ := le_min_iff.mp hcall.length_le
  have hserve := serve_call hmax ⟨hcall.shallow, hcallServed⟩ hhandle hsent
  have hcheck : checkFrame (putBytes call.encode) own = .ok () :=
    checkFrame_of_le (by rwa [length_putBytes_eq])
  simp only [rpc, frame_eq hmax, hcheck, callFrame, callAnew, Dialer.direct, hserve,
    Inbound.next_of_frame hsent.1 hown]

end Tcp

/-! ### Within one process -/

namespace Memory

/-- **Within one process what is to be sent is sent**, unless the answer is longer than any frame. -/
theorem reply_eq (served : Nat) (r : Response) :
    reply served r =
      if r.encode.length ≤ Frame.maxLength then .ok (r.sent served)
      else .error (.codec (.frameTooLarge r.encode.length)) := by
  unfold reply Response.sent
  dsimp only
  by_cases hmax : r.encode.length ≤ Frame.maxLength
  · rw [if_pos hmax, frame_eq hmax, ok_bind, length_putBytes_eq]
    by_cases hserved : counted r.encode.length ≤ served
    · rw [if_neg (Nat.not_lt.mpr hserved), if_pos ⟨hmax, hserved⟩]
      rfl
    · rw [if_pos (Nat.not_le.mp hserved), if_neg fun h => hserved h.2]
      rfl
  · rw [if_neg hmax, frame_of_lt (Nat.not_le.mp hmax)]
    rfl

/-- An answer that arrives is read as one that came over a connection. -/
theorem receive_eq {r : Response} {own : Nat} (hmax : r.encode.length ≤ Frame.maxLength)
    (hown : counted r.encode.length ≤ own) : receive own r = Tcp.valueOf r.encode := by
  rw [← length_putBytes_eq] at hown
  simp only [receive, frame_eq hmax, ok_bind, checkFrame_of_le hown, unframe_putBytes hmax,
    Tcp.valueOf]
  cases Response.decode r.encode with
  | error e => rfl
  | ok r' =>
    dsimp only
    cases r'.result with
    | error text => rfl
    | ok v => rfl

variable {σ : Type} {handler : Call → σ → Response × σ}

/-- **What the caller learns within one process**: the same, unless the answer is longer than any
frame. -/
theorem rpc_of_deliver {call : Call} {r : Response} {s s' : σ} {own served : Nat}
    (hdeliver : deliver own served call = .ok call) (hhandle : handler call s = (r, s'))
    (hsent : (r.sent served).CanBeSent served)
    (hown : counted (r.sent served).encode.length ≤ own) :
    rpc own served handler call s =
      (if r.encode.length ≤ Frame.maxLength then Tcp.valueOf (r.sent served).encode
        else .error (.codec (.frameTooLarge r.encode.length)), s') := by
  simp only [rpc, hdeliver, hhandle, reply_eq]
  split
  · rw [ok_bind, receive_eq hsent.1 hown]
  · rfl

end Memory

/-! ### Both together -/

/-- The error in place of an answer is read as an error of the other side. -/
theorem Tcp.valueOf_oversize {length limit : Nat}
    (h : (Response.oversize length).CanBeSent limit) :
    valueOf (Response.oversize length).encode = .error (.remote (Response.oversizeText length)) := by
  have hread : Response.decode (Response.oversize length).encode = .ok (Response.oversize length) :=
    (Reader.reads_response (Response.shallow_oversize length)
      (Nat.lt_of_le_of_lt h.1 (by decide))).all
  have hresult : (Response.oversize length).result = .error (Response.oversizeText length) := by
    rw [Response.oversize_eq, Response.result, Response.oversizeText_isEmpty]
    rfl
  simp only [valueOf, hread, hresult]

/-- **Both ways agree on every answer that a frame can carry at all, and on no other.** A host answers
a call with a limit that at least carries the error in place of the answer. Over a connection it sends
the answer if a frame within its limit carries it, and otherwise the error with the length of the
answer. Within one process it sends the same if and only if the answer is no longer than any frame;
for a longer one there is no reply at all, and the call fails for the length of the frame. So a caller
whose own limit carries what is to be sent learns the same both ways, except then; and of an answer
that is too long it learns an error of the other side. -/
theorem replies_agree_iff {σ : Type} {handler : Call → σ → Response × σ} {own served : Nat}
    {call : Call} {r : Response} {s s' : σ} (hmax : call.encode.length ≤ Frame.maxLength)
    (hcall : call.Fits (min own served)) (hhandle : handler call s = (r, s'))
    (hcarries : (Response.oversize r.encode.length).CanBeSent served) :
    (Tcp.replyRecord served r =
        if r.CanBeSent served then r.encode else (Response.oversize r.encode.length).encode) ∧
    (Memory.reply served r =
        .ok (if r.CanBeSent served then r else Response.oversize r.encode.length) ↔
      r.encode.length ≤ Frame.maxLength) ∧
    (Frame.maxLength < r.encode.length →
      Memory.reply served r = .error (.codec (.frameTooLarge r.encode.length))) ∧
    (counted (r.sent served).encode.length ≤ own →
      ∀ host, ∃ learnt, Tcp.rpc (.direct served handler) own host call none s =
          (learnt, some (), s') ∧
        (Memory.rpc own served handler call s = (learnt, s') ↔
          r.encode.length ≤ Frame.maxLength) ∧
        (Frame.maxLength < r.encode.length → Memory.rpc own served handler call s =
          (.error (.codec (.frameTooLarge r.encode.length)), s')) ∧
        (¬r.CanBeSent served →
          learnt = .error (.remote (Response.oversizeText r.encode.length)))) := by
  have hsent := Response.canBeSent_sent hcarries
  have hlong (h : Frame.maxLength < r.encode.length) :
      Memory.reply served r = .error (.codec (.frameTooLarge r.encode.length)) := by
    rw [Memory.reply_eq, if_neg (Nat.not_le.mpr h)]
  refine ⟨?_, ?_, hlong, fun hown host => ?_⟩
  · rw [Tcp.replyRecord_eq, Response.sent]
    split <;> rfl
  · rw [← Response.sent, Memory.reply_eq]
    split
    · rename_i hle
      exact ⟨fun _ => hle, fun _ => rfl⟩
    · rename_i hlt
      exact ⟨nofun, fun hle => absurd hle hlt⟩
  · have hlearnt (h : ¬r.CanBeSent served) : Tcp.valueOf (r.sent served).encode =
        .error (.remote (Response.oversizeText r.encode.length)) := by
      rw [Response.sent, if_neg h, Tcp.valueOf_oversize hcarries]
    have hrpc := Memory.rpc_of_deliver (Memory.deliver_of_fits hmax hcall) hhandle hsent hown
    refine ⟨_, Tcp.rpc_direct hmax hcall hhandle hsent hown host, ⟨fun h => ?_, fun h => ?_⟩,
      fun h => ?_, hlearnt⟩
    · by_contra hlt
      -- The error of the host is no error of the frame.
      rw [hrpc, if_neg hlt, hlearnt fun h => hlt h.1] at h
      cases h
    · rw [hrpc, if_pos h]
    · rw [hrpc, if_neg (Nat.not_le.mpr h)]

/-- An answer of so many zeros. -/
def Response.zeros (count : Nat) : Response := .ok (.bytes (List.replicate count 0))

theorem Response.length_zeros (count : Nat) : (zeros count).encode.length = 2 + counted count := by
  rw [zeros, length_ok, Value.length_encode, Value.body, length_putBytes_eq, List.length_replicate]
  omega

/-- Answers every call in the same way. -/
def answering (r : Response) (_ : Call) (s : Unit) : Response × Unit := (r, s)

/-- An answer of 204 bytes to a limit of 128. -/
theorem replies_agree_iff_two_hundred :
    Call.Fits ⟨.id, []⟩ (min 4096 128) ∧ (Response.oversize 204).CanBeSent 128 ∧
      Tcp.rpc (.direct 128 (answering (.zeros 200))) 4096 "server" ⟨.id, []⟩ none () =
        (.error (.remote "response of 204 bytes exceeds the frame limit"), some (), ()) ∧
      Memory.rpc 4096 128 (answering (.zeros 200)) ⟨.id, []⟩ () =
        (.error (.remote "response of 204 bytes exceeds the frame limit"), ()) := by
  have hlength : (Response.zeros 200).encode.length = 204 := by
    rw [Response.length_zeros, counted]
    simp [Varint.length]
  have hcall : Call.Fits ⟨.id, []⟩ (min 4096 128) := Call.fits_id (by decide)
  have hcarries : (Response.oversize 204).CanBeSent 128 :=
    Response.canBeSent_oversize (by decide +kernel) (by decide)
  have hlong : ¬(Response.zeros 200).CanBeSent 128 := fun h => by
    have hlt := lt_counted (Response.zeros 200).encode.length
    have hle := h.2
    omega
  have hown : counted ((Response.zeros 200).sent 128).encode.length ≤ 4096 := by
    rw [Response.sent, if_neg hlong, hlength]
    exact Nat.le_trans hcarries.2 (by decide)
  have htext : Response.oversizeText 204 = "response of 204 bytes exceeds the frame limit" := by
    decide +kernel
  obtain ⟨-, -, -, hlearns⟩ := @replies_agree_iff Unit (answering (.zeros 200)) 4096 128 ⟨.id, []⟩
    (.zeros 200) () () (by rw [Call.length_id]; decide) hcall rfl (by rwa [hlength])
  obtain ⟨learnt, htcp, hmemory, -, htells⟩ := hlearns hown "server"
  rw [htells hlong, hlength, htext] at htcp hmemory
  exact ⟨hcall, hcarries, htcp, hmemory.mpr (by decide)⟩

/-- An answer that just does not fit any frame is told of over a connection, and within one process the
call fails in another way. -/
theorem replies_differ_beyond_frames :
    (Response.oversize 67108870).CanBeSent 4096 ∧
      Tcp.rpc (.direct 4096 (answering (.zeros 67108864))) 65536 "server" ⟨.id, []⟩ none () =
        (.error (.remote "response of 67108870 bytes exceeds the frame limit"), some (), ()) ∧
      Memory.reply 4096 (.zeros 67108864) = .error (.codec (.frameTooLarge 67108870)) ∧
      Memory.rpc 65536 4096 (answering (.zeros 67108864)) ⟨.id, []⟩ () =
        (.error (.codec (.frameTooLarge 67108870)), ()) := by
  have hlength : (Response.zeros 67108864).encode.length = 67108870 := by
    rw [Response.length_zeros, counted]
    simp [Varint.length]
  have hlong : ¬(Response.zeros 67108864).encode.length ≤ Frame.maxLength := by
    rw [hlength]
    decide
  have hcarries : (Response.oversize 67108870).CanBeSent 4096 :=
    Response.canBeSent_oversize (by decide +kernel) (by decide)
  have hsent : (Response.zeros 67108864).sent 4096 = .oversize 67108870 := by
    rw [Response.sent, if_neg fun h => hlong h.1, hlength]
  have hcanBeSent : ((Response.zeros 67108864).sent 4096).CanBeSent 4096 := by
    rwa [hsent]
  have hown : counted ((Response.zeros 67108864).sent 4096).encode.length ≤ 65536 :=
    Nat.le_trans hcanBeSent.2 (by decide)
  have hmax : (Call.encode ⟨.id, []⟩).length ≤ Frame.maxLength := by
    rw [Call.length_id]
    decide
  have hcall : Call.Fits ⟨.id, []⟩ (min 65536 4096) := Call.fits_id (by decide)
  have htext : Response.oversizeText 67108870 =
      "response of 67108870 bytes exceeds the frame limit" := by
    decide +kernel
  refine ⟨hcarries, ?_, ?_, ?_⟩
  · rw [Tcp.rpc_direct hmax hcall rfl hcanBeSent hown, hsent, Tcp.valueOf_oversize hcarries, htext]
  · rw [Memory.reply_eq, if_neg hlong, hlength]
  · rw [Memory.rpc_of_deliver (Memory.deliver_of_fits hmax hcall) rfl hcanBeSent hown,
      if_neg hlong, hlength]

end Courier
