import Courier.Proofs.Tcp.Reading
import Courier.Tcp.Server

/-!
## Servers that answer in order

What a server sends over a connection depends on what it was sent over it, which may be cut off
anywhere. It answers in order if its answers are frames, no more of them than it was sent, and if
those that it has sent stay the first when more comes.

* `Tcp.serve_eq_replies`: answers are made from the records alone, one after the other.
* `Server.serving`: a server that serves its connections answers in order.
-/

namespace Courier

/-- A record that has been framed comes out of its frame. -/
theorem Memory.decode_of_frame {record framed : Bytes} (h : Memory.frame record = .ok framed) :
    Frame.decode framed = .ok (record, []) := by
  unfold Memory.frame at h
  split at h
  · cases h
  · rename_i hencode
    cases h
    exact Frame.decode_of_encode hencode

namespace Tcp

variable {σ : Type} {limit : Nat} {handler : Call → σ → Response × σ}

/-- The records that have come whole are the first when more comes. -/
theorem Inbound.records_prefix (limit : Nat) (bs more : Bytes) :
    (Inbound.records limit ⟨[], [bs]⟩).1 <+: (Inbound.records limit ⟨[], [bs ++ more]⟩).1 := by
  obtain ⟨frames, rest, hbytes, hframes⟩ := exists_frames_of_records limit ⟨[], [bs]⟩
  -- The same frames stand at the front of both streams, and neither cut matters to them.
  have hmore : bytes ⟨[], [bs ++ more]⟩ = frames.flatten ++ (rest ++ more) := by
    rw [← List.append_assoc, ← hbytes]
    simp [bytes]
  obtain ⟨j, -, hrecords⟩ := records_of_frames hframes hmore
  rw [hrecords]
  exact List.prefix_append _ _

/-- The records that are read are the first of those in whole frames. -/
theorem Inbound.records_prefix_decodeAll (limit : Nat) (bs : Bytes) :
    (Inbound.records limit ⟨[], [bs]⟩).1 <+: (Frame.decodeAll bs).1 := by
  obtain ⟨frames, rest, hbytes, hframes⟩ := exists_frames_of_records limit ⟨[], [bs]⟩
  have hbs : bs = frames.flatten ++ rest := by
    rw [← hbytes]
    simp [bytes]
  have hall := Frame.decodeAll_of_forall₂ (hframes.imp fun _ _ hfits => hfits.1) rest
  rw [← hbs] at hall
  rw [hall]
  exact List.prefix_append _ _

/-! ### Answers -/

/-- The frames that records are answered with: one for each, until one is no call or cannot be
answered. -/
def replies (limit : Nat) (handler : Call → σ → Response × σ) : List Bytes → σ → List Bytes
  | [], _ => []
  | record :: later, s =>
    match Call.decode record with
    | .error e =>
      match outgoing limit (Response.err e.message).encode with
      | .error _ => []
      | .ok frame => [frame]
    | .ok call =>
      match outgoing limit (replyRecord limit (handler call s).1) with
      | .error _ => []
      | .ok frame => frame :: replies limit handler later (handler call s).2

/-- One record, and then the others if there is a call in it. -/
theorem replies_cons (limit : Nat) (handler : Call → σ → Response × σ) (record : Bytes)
    (later : List Bytes) (s : σ) :
    replies limit handler (record :: later) s =
      match Call.decode record with
      | .error e =>
        match outgoing limit (Response.err e.message).encode with
        | .error _ => []
        | .ok frame => [frame]
      | .ok call =>
        match outgoing limit (replyRecord limit (handler call s).1) with
        | .error _ => []
        | .ok frame => frame :: replies limit handler later (handler call s).2 := rfl

theorem replies_of_fault {record reply : Bytes} {e : CodecError}
    (hcall : Call.decode record = .error e)
    (hreply : outgoing limit (Response.err e.message).encode = .ok reply) (later : List Bytes)
    (s : σ) :
    replies limit handler (record :: later) s = [reply] := by
  rw [replies_cons, hcall]
  dsimp only
  rw [hreply]

theorem replies_of_call {record reply : Bytes} {call : Call} {s : σ}
    (hcall : Call.decode record = .ok call)
    (hreply : outgoing limit (replyRecord limit (handler call s).1) = .ok reply)
    (later : List Bytes) :
    replies limit handler (record :: later) s =
      reply :: replies limit handler later (handler call s).2 := by
  rw [replies_cons, hcall]
  dsimp only
  rw [hreply]

/-- **A connection is answered record by record.** -/
theorem serve_eq_replies (limit : Nat) (handler : Call → σ → Response × σ) (i : Inbound) (s : σ) :
    (serve limit handler i s).1 = replies limit handler (i.records limit).1 s := by
  fun_induction serve limit handler i s with
  | case1 i s e hnext =>
    rw [Inbound.records_of_error hnext]
    rfl
  | case2 i s rest hnext =>
    rw [Inbound.records_of_none hnext]
    rfl
  | case3 i s record rest hnext e hcall f hreply =>
    rw [Inbound.records_of_some hnext, replies_cons, hcall]
    dsimp only
    rw [hreply]
  | case4 i s record rest hnext e hcall frame hreply =>
    rw [Inbound.records_of_some hnext, replies_of_fault hcall hreply]
  | case5 i s record rest hnext call hcall response s' hhandle f hreply =>
    rw [Inbound.records_of_some hnext, replies_cons, hcall]
    dsimp only
    rw [hhandle, hreply]
  | case6 i s record rest hnext call hcall response s' hhandle frame hreply later e s'' hlater ih =>
    have hsent : outgoing limit (replyRecord limit (handler call s).1) = .ok frame := by
      rw [hhandle, hreply]
    rw [Inbound.records_of_some hnext, replies_of_call hcall hsent, hhandle, ← ih, hlater]

/-- What becomes of the first record: it has no answer, or one that ends the connection, or one
behind which the others are answered. -/
theorem replies_cases (limit : Nat) (handler : Call → σ → Response × σ) (record : Bytes)
    (later : List Bytes) (s : σ) :
    replies limit handler (record :: later) s = [] ∨
    (∃ e reply, Call.decode record = .error e ∧
      outgoing limit (Response.err e.message).encode = .ok reply ∧
      replies limit handler (record :: later) s = [reply]) ∨
    ∃ call reply, Call.decode record = .ok call ∧
      outgoing limit (replyRecord limit (handler call s).1) = .ok reply ∧
      replies limit handler (record :: later) s =
        reply :: replies limit handler later (handler call s).2 := by
  cases hcall : Call.decode record with
  | error e =>
    cases hreply : outgoing limit (Response.err e.message).encode with
    | error f =>
      left
      rw [replies_cons, hcall]
      dsimp only
      rw [hreply]
    | ok reply => exact .inr (.inl ⟨e, reply, rfl, hreply, replies_of_fault hcall hreply later s⟩)
  | ok call =>
    cases hreply : outgoing limit (replyRecord limit (handler call s).1) with
    | error f =>
      left
      rw [replies_cons, hcall]
      dsimp only
      rw [hreply]
    | ok reply =>
      exact .inr (.inr ⟨call, reply, rfl, hreply, replies_of_call hcall hreply later⟩)

/-- No record has more than one answer. -/
theorem length_replies_le (limit : Nat) (handler : Call → σ → Response × σ) (records : List Bytes)
    (s : σ) : (replies limit handler records s).length ≤ records.length := by
  induction records generalizing s with
  | nil => exact Nat.le_refl _
  | cons record later ih =>
    rcases replies_cases limit handler record later s with
      hnone | ⟨e, reply, -, -, hlast⟩ | ⟨call, reply, -, -, hfirst⟩
    · rw [hnone]
      exact Nat.zero_le _
    · rw [hlast]
      exact Nat.succ_le_succ (Nat.zero_le _)
    · rw [hfirst]
      exact Nat.succ_le_succ (ih _)

/-- Answers stay what they are, and the first, when there is more to answer. -/
theorem replies_prefix (limit : Nat) (handler : Call → σ → Response × σ) (records more : List Bytes)
    (s : σ) : replies limit handler records s <+: replies limit handler (records ++ more) s := by
  induction records generalizing s with
  | nil => exact List.nil_prefix
  | cons record later ih =>
    rcases replies_cases limit handler record later s with
      hnone | ⟨e, reply, hcall, hreply, hlast⟩ | ⟨call, reply, hcall, hreply, hfirst⟩
    · rw [hnone]
      exact List.nil_prefix
    · rw [hlast, List.cons_append, replies_of_fault hcall hreply]
    · rw [hfirst, List.cons_append, replies_of_call hcall hreply]
      exact List.cons_prefix_cons.mpr ⟨rfl, ih _⟩

/-- The state of a handler after the calls in some records. -/
def handled (handler : Call → σ → Response × σ) : List Bytes → σ → σ
  | [], s => s
  | record :: later, s =>
    match Call.decode record with
    | .error _ => s
    | .ok call => handled handler later (handler call s).2

/-- **Each answer is that to the record in its place**, in the state that the records before it
leave. -/
theorem getElem?_replies {records : List Bytes} {s : σ} {k : Nat} {reply : Bytes}
    (h : (replies limit handler records s)[k]? = some reply) :
    ∃ record, records[k]? = some record ∧
      replies limit handler [record] (handled handler (records.take k) s) = [reply] := by
  induction records generalizing s k with
  | nil => cases h
  | cons record later ih =>
    rcases replies_cases limit handler record later s with
      hnone | ⟨e, first, hcall, hreply, hlast⟩ | ⟨call, first, hcall, hreply, hfirst⟩
    · rw [hnone] at h
      cases h
    · rw [hlast] at h
      cases k with
      | zero =>
        cases h
        exact ⟨record, rfl, replies_of_fault hcall hreply [] s⟩
      | succ k => cases h
    · rw [hfirst] at h
      cases k with
      | zero =>
        cases h
        exact ⟨record, rfl, replies_of_call hcall hreply []⟩
      | succ k =>
        rw [List.getElem?_cons_succ] at h
        obtain ⟨record', hrecord, hanswer⟩ := ih h
        refine ⟨record', hrecord, ?_⟩
        rw [List.take_succ_cons, handled, hcall]
        exact hanswer

/-- What is sent is the frame of its record. -/
theorem decode_of_outgoing {record reply : Bytes} (h : outgoing limit record = .ok reply) :
    Frame.decode reply = .ok (record, []) := by
  unfold outgoing at h
  cases hframe : Memory.frame record with
  | error e =>
    rw [hframe] at h
    cases h
  | ok frame =>
    rw [hframe] at h
    cases hcheck : checkFrame frame limit with
    | error e =>
      simp only [bind, Except.bind, hcheck] at h
      cases h
    | ok u =>
      simp only [bind, Except.bind, hcheck] at h
      cases h
      exact Memory.decode_of_frame hframe

/-- The only answer to a call has what is sent for the handler's in it. -/
theorem record_of_replies {record answer reply : Bytes} {call : Call} {s : σ}
    (h : replies limit handler [record] s = [reply]) (hcall : Call.decode record = .ok call)
    (hreply : Frame.decode reply = .ok (answer, [])) :
    answer = replyRecord limit (handler call s).1 := by
  cases hsent : outgoing limit (replyRecord limit (handler call s).1) with
  | error e =>
    rw [replies_cons, hcall] at h
    dsimp only at h
    rw [hsent] at h
    cases h
  | ok frame =>
    rw [replies_of_call hcall hsent] at h
    cases h
    rw [decode_of_outgoing hsent] at hreply
    cases hreply
    rfl

/-- Every answer is one frame. -/
theorem whole_of_mem_replies {records : List Bytes} {s : σ} {reply : Bytes}
    (h : reply ∈ replies limit handler records s) :
    ∃ record, Frame.decode reply = .ok (record, []) := by
  induction records generalizing s with
  | nil => cases h
  | cons record later ih =>
    rcases replies_cases limit handler record later s with
      hnone | ⟨e, first, -, hsent, hlast⟩ | ⟨call, first, -, hsent, hfirst⟩
    · rw [hnone] at h
      cases h
    · rw [hlast] at h
      obtain rfl := List.mem_singleton.mp h
      exact ⟨_, decode_of_outgoing hsent⟩
    · rw [hfirst] at h
      rcases List.mem_cons.mp h with rfl | hlater
      · exact ⟨_, decode_of_outgoing hsent⟩
      · exact ih hlater

/-! ### In order -/

/-- A server that answers what is sent over each of its connections in order. -/
structure Server where
  /-- The frames that it has sent over a connection when it was sent some bytes over it. -/
  answers : (connection : Nat) → Bytes → List Bytes
  whole : ∀ connection bs, ∀ reply ∈ answers connection bs,
    ∃ record, Frame.decode reply = .ok (record, [])
  /-- Nothing is answered before it has come. -/
  caused : ∀ connection bs, (answers connection bs).length ≤ (Frame.decodeAll bs).1.length
  /-- What has been answered stays so. -/
  steady : ∀ connection bs more, answers connection bs <+: answers connection (bs ++ more)

/-- **A server that serves its connections answers them in order**, whatever its handler does. A
handler that knows of the other connections has that in the states it begins with. -/
def Server.serving (limit : Nat) (handler : Call → σ → Response × σ) (states : Nat → σ) :
    Server where
  answers connection bs := (serve limit handler ⟨[], [bs]⟩ (states connection)).1
  whole connection bs reply hreply := by
    rw [serve_eq_replies] at hreply
    exact whole_of_mem_replies hreply
  caused connection bs := by
    rw [serve_eq_replies]
    exact Nat.le_trans (length_replies_le ..) (Inbound.records_prefix_decodeAll limit bs).length_le
  steady connection bs more := by
    rw [serve_eq_replies, serve_eq_replies]
    obtain ⟨later, hlater⟩ := Inbound.records_prefix limit bs more
    rw [← hlater]
    exact replies_prefix ..

end Tcp

end Courier
