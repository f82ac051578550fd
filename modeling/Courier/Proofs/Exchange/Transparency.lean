import Mathlib
import Courier.Proofs.Exchange.Frames

/-!
## Calls within one process are calls of the handler

A call in one process is written, framed and read on its way to the handler, and so is the answer on
its way back. Where both can be framed within the limits of both ends, none of this shows: the
handler is run once, on the call that was made, and the caller learns what the handler answered.
Whatever the limits are, no error that a handler answers comes back as a value.

* `Memory.deliver_eq_ok`: a handler is never run on another call than the one that was made.
* `Memory.receive_err`: an error stays an error.
* `Memory.transparent`: the whole way there and back.
-/

namespace Courier

open Codec

theorem Response.error_err_ne (text : String) : (Response.err text).error ≠ "" := by
  unfold err
  split
  · decide
  · rename_i hne
    simpa using hne

theorem Response.answer_eq (r : Response) :
    r.answer = if r.error = "" then .ok r.value else .error (.remote r.error) := by
  unfold answer result
  by_cases h : r.error = ""
  · simp [h]
  · simp [h]

namespace Memory

variable {own served : Nat} {σ : Type}

/-- A handler that also writes down the calls that it is given. -/
def recording (handler : Call → σ → Response × σ) (call : Call) (s : List Call × σ) :
    Response × List Call × σ :=
  ((handler call s.2).1, s.1 ++ [call], (handler call s.2).2)

/-- The frame of a record has the length that its length counts for. -/
theorem length_of_frame {record frame : Bytes} (h : Frame.encode record = .ok frame) :
    record.length ≤ Frame.maxLength ∧ counted record.length = frame.length := by
  obtain ⟨hle, rfl⟩ := Frame.encode_eq_ok_iff.mp h
  exact ⟨hle, (length_putBytes_eq record).symm⟩

/-- **A handler is never run on another call** than the one that was made, even where that cannot be
read. -/
theorem deliver_eq_ok {call c : Call} (h : deliver own served call = .ok c) : c = call := by
  by_cases hmax : call.encode.length ≤ Frame.maxLength
  · have hsize : call.encode.length < UInt64.size := Nat.lt_of_le_of_lt hmax (by decide)
    have hread : Call.decode call.encode = .ok call ∨ Call.decode call.encode = .error .tooDeep := by
      by_cases hargs : ∀ v ∈ call.args, v.Shallow
      · exact .inl (Reader.reads_call hargs hsize).all
      · push Not at hargs
        exact .inr (Reader.refuses_call hargs hsize).all
    simp only [deliver, frame_eq hmax, ok_bind, unframe_putBytes hmax] at h
    cases hown : checkFrame (putBytes call.encode) own with
    | error e =>
      rw [hown] at h
      cases h
    | ok u =>
      cases hserved : checkFrame (putBytes call.encode) served with
      | error e =>
        rw [hown, hserved] at h
        cases h
      | ok u =>
        rw [hown, hserved] at h
        rcases hread with hread | hread
        · rw [hread] at h
          exact (Except.ok.inj h).symm
        · rw [hread] at h
          cases h
  · rw [deliver, frame_of_lt (Nat.not_le.mp hmax)] at h
    cases h

/-- **An error stays an error**, if it arrives at all. -/
theorem receive_err (own : Nat) (text : String) (v : Value) :
    receive own (.err text) ≠ .ok v := by
  intro h
  by_cases hmax : (Response.err text).encode.length ≤ Frame.maxLength
  · by_cases hown : counted (Response.err text).encode.length ≤ own
    · rw [receive_of_fits hmax ⟨Value.shallow_iff.mpr (Nat.zero_le _), hown⟩] at h
      exact Response.error_err_ne text (Response.answer_eq_ok h).2
    · rw [← length_putBytes_eq] at hown
      rw [receive, frame_eq hmax, ok_bind, checkFrame_of_lt (Nat.not_le.mp hown)] at h
      cases h
  · rw [receive, frame_of_lt (Nat.not_le.mp hmax)] at h
    cases h

/-- A server sends what the handler answered, or an error in its place. -/
theorem reply_cases {r r' : Response} (h : reply served r = .ok r') :
    r' = r ∨ ∃ text, r' = .err text := by
  unfold reply at h
  dsimp only at h
  cases hframe : frame r.encode with
  | error e =>
    rw [hframe] at h
    cases h
  | ok bytes =>
    rw [hframe, ok_bind] at h
    split at h
    · exact .inr ⟨_, (Except.ok.inj h).symm⟩
    · exact .inl (Except.ok.inj h).symm

/-- **A call within one process is a call of the handler.** For all limits of the two ends and every
handler, a call and the answer to it in which nothing lies too deep, and which can be framed within
both limits, give what the handler answers: its value if its error is empty, and its error
otherwise. The handler has then been run once, on this call. And for all limits, whether anything
fits them or not, a call that the handler answers with an error of any text gives no value. -/
theorem transparent :
    (∀ {σ : Type} (handler : Call → σ → Response × σ) (own served : Nat) (call : Call) (r : Response)
      (s s' : σ) (request answer : Bytes), handler call s = (r, s') →
      (∀ v ∈ call.args, v.Shallow) → r.value.Shallow →
      Frame.encode call.encode = .ok request → request.length ≤ own → request.length ≤ served →
      Frame.encode r.encode = .ok answer → answer.length ≤ own → answer.length ≤ served →
      ∀ calls, rpc own served (recording handler) call (calls, s) =
        (if r.error = "" then .ok r.value else .error (.remote r.error), calls ++ [call], s')) ∧
    (∀ {σ : Type} (handler : Call → σ → Response × σ) (own served : Nat) (call : Call) (s : σ)
      (text : String), (handler call s).1 = .err text →
      ∀ v, (rpc own served handler call s).1 ≠ .ok v) := by
  refine ⟨fun handler own served call r s s' request answer hhandle hargs hvalue hrequest hown
    hserved hanswer hown' hserved' calls => ?_, fun handler own served call s text herr v h => ?_⟩
  · obtain ⟨hframed, hlength⟩ := length_of_frame hrequest
    obtain ⟨hframed', hlength'⟩ := length_of_frame hanswer
    have hcall : call.Fits (min own served) := ⟨hargs, by rw [hlength]; exact le_min hown hserved⟩
    have hfits : r.Fits (min own served) := ⟨hvalue, by rw [hlength']; exact le_min hown' hserved'⟩
    have hrecord : recording handler call (calls, s) = (r, calls ++ [call], s') := by
      simp only [recording, hhandle]
    rw [rpc_of_framed hframed hframed' hcall hrecord hfits, Response.answer_eq]
  · unfold rpc at h
    split at h
    · cases h
    · rename_i c hdeliver
      obtain rfl := deliver_eq_ok hdeliver
      dsimp only at h
      rw [herr] at h
      cases hreply : reply served (.err text) with
      | error e =>
        rw [hreply] at h
        cases h
      | ok r =>
        rw [hreply, ok_bind] at h
        rcases reply_cases hreply with rfl | ⟨text', rfl⟩
        · exact receive_err own text v h
        · exact receive_err own text' v h

/-- Sends the arguments of one action back, and refuses all others without a word; counts the calls
that it has answered. -/
def echo (call : Call) (count : Nat) : Response × Nat :=
  (if call.action = .id then .ok (.array call.args) else .err "", count + 1)

/-- Arguments come back through limits that the frames just fit, and an error without a text comes
back with one. -/
theorem transparent_echo :
    (Frame.encode (Call.encode ⟨.id, [.int 5]⟩) = .ok [11, 1, 1, 1, 0, 0, 0, 0, 0, 0, 0, 5] ∧
      Frame.encode (Response.ok (.array [.int 5])).encode =
        .ok [12, 0, 6, 1, 1, 0, 0, 0, 0, 0, 0, 0, 5] ∧
      rpc 20 13 (recording echo) ⟨.id, [.int 5]⟩ ([], 7) =
        (.ok (.array [.int 5]), [⟨.id, [.int 5]⟩], 8)) ∧
    ((echo ⟨.send, []⟩ 7).1 = .err "" ∧
      ∀ v, (rpc 20 13 echo ⟨.send, []⟩ 7).1 ≠ .ok v) := by
  have hone : Varint.encode 1 = [1] := Varint.encode_of_lt (by decide)
  have hrequest : Frame.encode (Call.encode ⟨.id, [.int 5]⟩) =
      .ok [11, 1, 1, 1, 0, 0, 0, 0, 0, 0, 0, 5] := by
    have hrecord : Call.encode ⟨.id, [.int 5]⟩ = [1, 1, 1, 0, 0, 0, 0, 0, 0, 0, 5] := by
      show Varint.encode 1 ++ (Varint.encode 1 ++ Value.encodeAll [.int 5]) = _
      rw [hone]
      rfl
    rw [hrecord]
    exact Frame.encode_eq_ok_iff.mpr ⟨by decide, by simp [Varint.encode]⟩
  have hanswer : Frame.encode (Response.ok (.array [.int 5])).encode =
      .ok [12, 0, 6, 1, 1, 0, 0, 0, 0, 0, 0, 0, 5] := by
    have hrecord : (Response.ok (.array [.int 5])).encode =
        [0, 6, 1, 1, 0, 0, 0, 0, 0, 0, 0, 5] := by
      show putBytes [] ++ (6 :: (Varint.encode 1 ++ Value.encodeAll [.int 5])) = _
      rw [putBytes, List.length_nil, Varint.encode_of_lt (n := 0) (by decide), hone]
      rfl
    rw [hrecord]
    exact Frame.encode_eq_ok_iff.mpr ⟨by decide, by simp [Varint.encode]⟩
  have hshallow : (Value.int 5).Shallow := Value.shallow_iff.mpr (Nat.zero_le _)
  have hshallow' : (Value.array [.int 5]).Shallow := Value.shallow_iff.mpr (by decide)
  refine ⟨⟨hrequest, hanswer, ?_⟩, rfl, transparent.2 echo 20 13 ⟨.send, []⟩ 7 "" rfl⟩
  exact transparent.1 echo 20 13 ⟨.id, [.int 5]⟩ (.ok (.array [.int 5])) 7 8 _ _ rfl
    (List.forall_mem_singleton.mpr hshallow) hshallow' hrequest (by decide) (by decide) hanswer
    (by decide) (by decide) []

end Memory

end Courier
