import Courier.Proofs.Tcp.Answering
import Courier.Tcp.Connection

/-!
## Every reply is that to its own call

A client keeps a connection only while nothing is under way on it: every frame that was written to
it is answered, and all answers have been read. So the next answer on it is that to the next frame.
Where that cannot be known, the connection is given up.

* `Connection.settled_of_attempt`: over a settled connection the reply to the frame is read, and the
  connection is settled again.
* `Tcp.report_rpc`: what one call does and learns.
* `Tcp.inStep_rpcs`: a kept connection is settled, after any calls.
* `Tcp.own_replies`: all of it together.
* `Tcp.Report.exists_answer`: with a server that has a handler, what it answers to the call itself.
-/

namespace Courier.Tcp

variable {server : Server} {weather : Weather} {limit : Nat} {host : String} {frame : Bytes}

/-! ### Waiting for an answer -/

theorem flatten_cut_prefix (sizes : List Nat) (bs : Bytes) : (cut sizes bs).flatten <+: bs := by
  induction sizes generalizing bs with
  | nil => exact List.nil_prefix
  | cons size sizes ih =>
    have hrest := (List.prefix_append_right_inj (bs.take size)).mpr (ih (bs.drop size))
    rwa [List.take_append_drop] at hrest

theorem Inbound.next_ne_remote {i : Inbound} {text : String} :
    i.next limit ≠ .error (.remote text) := by
  unfold next
  fun_induction nextFrom limit i.buffer i.pieces <;> simp_all

variable {pieces unread : List Bytes} {ending : Ending} {record : Bytes}

/-- A record that was waited for was in a frame at the front of what was read. -/
theorem exists_fits_of_receive (h : receive limit pieces ending = .ok (record, unread)) :
    ∃ reply past, Frame.Fits limit reply record ∧ pieces.flatten = reply ++ past ∧
      unread.flatten.length ≤ past.length := by
  unfold receive at h
  split at h
  · rename_i hnext
    cases h
    obtain ⟨reply, hfits, hbytes⟩ := Inbound.exists_fits_of_next hnext
    exact ⟨reply, _, hfits, hbytes, by simp [Inbound.bytes]⟩
  · cases h
  · cases h
  · cases h

/-- Waiting for an answer does not tell what only an answer can. -/
theorem receive_ne_remote {text : String} :
    receive limit pieces ending ≠ .error (.remote text) := by
  intro h
  unfold receive at h
  split at h
  · cases h
  · cases ending <;> cases h
  · cases ending <;> cases h
  · rename_i hnext
    cases h
    exact Inbound.next_ne_remote hnext

/-! ### Over a settled connection -/

namespace Connection

/-- A connection on which nothing is under way: whole frames were written to it, each is answered,
and all answers have been read. -/
structure Settled (server : Server) (c : Connection) (requests : List Bytes) : Prop where
  whole : ∃ records,
    List.Forall₂ (fun frame record => Frame.decode frame = .ok (record, [])) requests records
  written : c.written = requests.flatten
  answered : (server.answers c.number c.written).length = requests.length
  taken : c.taken = (server.answers c.number c.written).flatten.length

/-- The reply to the last frame that was sent over a connection has this record in it. -/
def Replies (server : Server) (number : Nat) (requests : List Bytes) (frame record : Bytes) :
    Prop :=
  ∃ reply, (server.answers number (requests ++ [frame]).flatten)[requests.length]? = some reply ∧
    Frame.decode reply = .ok (record, [])

variable {c c' : Connection} {requests : List Bytes} {request : Bytes} {fate : Fate}

/-- Nothing has been answered over a new connection. -/
theorem settled_new (server : Server) (number : Nat) : Settled server { number := number } [] := by
  have hnone : server.answers number [] = [] := by
    have hcaused := server.caused number []
    rw [Frame.decodeAll_of_error rfl] at hcaused
    exact List.eq_nil_of_length_eq_zero (Nat.le_zero.mp hcaused)
  refine ⟨⟨[], .nil⟩, rfl, ?_, ?_⟩ <;> simp [hnone]

/-- What a server has to send after one more frame: what it had sent, and one reply at most. -/
theorem Settled.answers_append (hc : c.Settled server requests)
    (hframe : Frame.decode frame = .ok (request, [])) :
    ∃ more, server.answers c.number (c.written ++ frame) =
      server.answers c.number c.written ++ more ∧ more.length ≤ 1 := by
  obtain ⟨more, hmore⟩ := server.steady c.number c.written frame
  obtain ⟨records, hwhole⟩ := hc.whole
  have hcaused := server.caused c.number (c.written ++ frame)
  have hall := Frame.decodeAll_of_forall₂ (List.rel_append hwhole (.cons hframe .nil)) []
  have hbytes : (requests ++ [frame]).flatten ++ [] = c.written ++ frame := by simp [hc.written]
  have hnil : Frame.decodeAll [] = ([], [], .needMore) := Frame.decodeAll_of_error rfl
  rw [hbytes, hnil] at hall
  rw [hall, ← hmore] at hcaused
  -- There are as many earlier answers as there were frames, so one at most is new.
  simp only [List.length_append, hc.answered, hwhole.length_eq, List.length_cons,
    List.length_nil] at hcaused
  exact ⟨more, hmore.symm, by omega⟩

/-- A frame at the front of what is read of one reply at most is all of that reply. -/
theorem eq_of_fits {more : List Bytes} {reply past : Bytes} (hmore : more.length ≤ 1)
    (hwhole : ∀ reply ∈ more, ∃ record, Frame.decode reply = .ok (record, []))
    (hfits : Frame.Fits limit reply record) (hread : reply ++ past <+: more.flatten) :
    more = [reply] ∧ past = [] := by
  obtain ⟨unread, hunread⟩ := hread
  rw [List.append_assoc] at hunread
  have hdecode := Frame.decode_append_of_ok hfits.1 (past ++ unread)
  rw [hunread, List.nil_append] at hdecode
  match more, hmore with
  | [], _ => cases hdecode
  | [only], _ =>
    rw [List.flatten_singleton] at hunread hdecode
    obtain ⟨record', honly⟩ := hwhole only (List.mem_singleton_self only)
    rw [honly] at hdecode
    -- The frame ends where the reply does, so nothing of the reply is left.
    obtain ⟨-, hnil⟩ := Prod.mk.inj (Except.ok.inj hdecode)
    obtain ⟨hpast, -⟩ := List.append_eq_nil_iff.mp hnil.symm
    rw [← hnil, List.append_nil] at hunread
    exact ⟨congrArg (fun reply => [reply]) hunread.symm, hpast⟩

/-- What comes of an attempt that brings a record. -/
theorem exists_receive_of_attempt {answers : Nat → Bytes → List Bytes}
    (h : c.attempt answers fate frame limit = (.ok record, c')) :
    ∃ pieces unread,
      cut fate.reads ((answers c.number (c.written ++ frame)).flatten.drop c.taken) = pieces ∧
      receive limit pieces fate.ending = .ok (record, unread) ∧
      c' = ⟨c.number, c.written ++ frame,
        c.taken + (pieces.flatten.length - unread.flatten.length)⟩ := by
  unfold attempt at h
  split at h
  · cases h
  · cases h
  · unfold read write at h
    dsimp only at h
    split at h
    · cases h
    · rename_i record' unread hreceive
      cases h
      exact ⟨_, unread, rfl, hreceive, rfl⟩

/-- **Over a settled connection the reply to the frame is read**, if any is, and the connection is
settled again. -/
theorem settled_of_attempt (hc : c.Settled server requests)
    (hframe : Frame.decode frame = .ok (request, []))
    (h : c.attempt server.answers fate frame limit = (.ok record, c')) :
    Replies server c.number requests frame record ∧ c'.Settled server (requests ++ [frame]) ∧
      c'.number = c.number := by
  obtain ⟨more, hanswers, hmore⟩ := hc.answers_append hframe
  obtain ⟨records, hwhole⟩ := hc.whole
  have hbytes : (requests ++ [frame]).flatten = c.written ++ frame := by simp [hc.written]
  obtain ⟨pieces, unread, hpieces, hreceive, rfl⟩ := exists_receive_of_attempt h
  obtain ⟨reply, past, hfits, hread, hunread⟩ := exists_fits_of_receive hreceive
  -- All earlier replies have been read, so what is read now belongs to the new one.
  have hpending : (server.answers c.number (c.written ++ frame)).flatten.drop c.taken =
      more.flatten := by
    rw [hanswers, List.flatten_append, hc.taken, List.drop_left]
  have hprefix : reply ++ past <+: more.flatten := by
    rw [← hread, ← hpieces, hpending]
    exact flatten_cut_prefix fate.reads _
  have hwholes : ∀ reply ∈ more, ∃ record, Frame.decode reply = .ok (record, []) :=
    fun reply hreply => server.whole c.number (c.written ++ frame) reply
      (hanswers ▸ List.mem_append_right _ hreply)
  obtain ⟨rfl, rfl⟩ := eq_of_fits hmore hwholes hfits hprefix
  -- Exactly the reply has been read, and nothing is left over.
  refine ⟨⟨reply, ?_, hfits.1⟩, ⟨⟨_, List.rel_append hwhole (.cons hframe .nil)⟩, hbytes.symm,
    ?_, ?_⟩, rfl⟩
  · rw [hbytes, hanswers, ← hc.answered, List.getElem?_concat_length]
  · rw [hanswers, List.length_append, hc.answered, List.length_append]
    rfl
  · have hnone : unread.flatten.length = 0 := Nat.le_zero.mp hunread
    rw [hnone, hread, hanswers, List.flatten_append, List.length_append, hc.taken]
    simp

end Connection

/-! ### What was sent -/

/-- The frames that were sent over a connection so far. -/
def Line.sentOver (l : Line) (number : Nat) : List Bytes :=
  (l.log.filter fun a => a.connection = number).map (·.frame)

theorem Line.sentOver_note_self (l : Line) (a : Attempt) :
    (l.note a).sentOver a.connection = l.sentOver a.connection ++ [a.frame] := by
  simp [sentOver, note]

theorem Line.sentOver_note_of_ne {l : Line} {a : Attempt} {number : Nat}
    (h : a.connection ≠ number) :
    (l.note a).sentOver number = l.sentOver number := by
  simp [sentOver, note, h]

/-- A client is in step with the network: nothing was sent over a connection that is still to be
opened, and over the connection that is kept nothing is under way. -/
structure InStep (server : Server) (kept : Option Connection) (l : Line) : Prop where
  opened : ∀ a ∈ l.log, a.connection < l.opened
  settled : ∀ c, kept = some c → c.number < l.opened ∧ c.Settled server (l.sentOver c.number)

namespace InStep

variable {kept : Option Connection} {c c' : Connection} {l l' : Line} {request : Bytes}
  {outcome : Except TransportError Bytes}

theorem start (server : Server) : InStep server none {} := ⟨nofun, nofun⟩

theorem sentOver_opened (hl : InStep server kept l) : l.sentOver l.opened = [] := by
  have hnone : l.log.filter (fun a => a.connection = l.opened) = [] :=
    List.filter_eq_nil_iff.mpr fun a ha => by simpa using (hl.opened a ha).ne
  rw [Line.sentOver, hnone]
  rfl

/-- A connection that has just been opened can be kept. -/
theorem dial (hl : InStep server kept l) {later : Line}
    (h : Connection.dial weather host l = (.ok c, later)) :
    InStep server (some c) later ∧ c.number = l.opened ∧ later.log = l.log := by
  unfold Connection.dial at h
  dsimp only at h
  split at h <;> cases h
  refine ⟨⟨fun a ha => Nat.lt_succ_of_lt (hl.opened a ha), ?_⟩, rfl, rfl⟩
  rintro _ ⟨⟩
  refine ⟨Nat.lt_succ_self _, ?_⟩
  -- The number is new, so no frame in the log was sent over the connection.
  have hnone : Line.sentOver ⟨l.opened + 1, l.turn + 1, l.log⟩ l.opened = [] := hl.sentOver_opened
  rw [hnone]
  exact Connection.settled_new server l.opened

/-- **An exchange over a kept connection** is noted. If a record comes, it is that of the reply to
the frame, and the connection can be kept. -/
theorem exchange (hl : InStep server (some c) l) (hframe : Frame.decode frame = .ok (request, []))
    (h : Connection.exchange server.answers weather c frame limit l = (outcome, c', l')) :
    l' = l.note ⟨c.number, frame, outcome⟩ ∧ InStep server none l' ∧
      ∀ record, outcome = .ok record → InStep server (some c') l' ∧
        c'.number = c.number ∧ c'.Settled server (l.sentOver c.number ++ [frame]) ∧
        Connection.Replies server c.number (l.sentOver c.number) frame record := by
  obtain ⟨hopened, hc⟩ := hl.settled c rfl
  unfold Connection.exchange at h
  cases hattempt : c.attempt server.answers (weather.fate l.turn) frame limit with
  | mk outcome' after =>
    rw [hattempt] at h
    cases h
    have hall : ∀ a ∈ (l.note ⟨c.number, frame, outcome⟩).log,
        a.connection < (l.note ⟨c.number, frame, outcome⟩).opened :=
      List.forall_mem_append.mpr ⟨hl.opened, List.forall_mem_singleton.mpr hopened⟩
    refine ⟨rfl, ⟨hall, nofun⟩, ?_⟩
    rintro record rfl
    obtain ⟨hreplies, hsettled, hnumber⟩ := Connection.settled_of_attempt hc hframe hattempt
    refine ⟨⟨hall, ?_⟩, hnumber, hsettled, hreplies⟩
    rintro _ ⟨⟩
    rw [hnumber, Line.sentOver_note_self l ⟨c.number, frame, .ok record⟩]
    exact ⟨hopened, hsettled⟩

end InStep

/-! ### One call -/

/-- Whether the other side has answered: with a value, or with an error of its own. -/
def Told (answer : Except TransportError Value) : Prop :=
  (∃ v, answer = .ok v) ∨ ∃ text, answer = .error (.remote text)

theorem not_told {e : TransportError} (h : ∀ text, e ≠ .remote text) : ¬Told (.error e) := by
  rintro (⟨v, hv⟩ | ⟨text, htext⟩)
  · cases hv
  · exact h text (Except.error.inj htext)

/-- What a call does and what its caller learns. -/
structure Report (server : Server) (kept kept' : Option Connection) (l l' : Line) (frame : Bytes)
    (attempts : List Attempt) (answer : Except TransportError Value) : Prop where
  log : l'.log = l.log ++ attempts
  frames : ∀ a ∈ attempts, a.frame = frame
  /-- There is one attempt, or a second after the first has found a kept connection dead. -/
  again : attempts.length ≤ 1 ∨ ∃ c first second e, kept = some c ∧ attempts = [first, second] ∧
    first.connection = c.number ∧ first.outcome = .error e ∧
    ((∃ reason, e = .io reason) ∨ e = .closed)
  /-- What the other side is taken to have answered is its reply to the frame of the last attempt,
  which was sent over the connection that is kept now, after the frames of earlier calls and nothing
  else. -/
  own : Told answer → ∃ c record, kept' = some c ∧
    attempts.getLast? = some ⟨c.number, frame, .ok record⟩ ∧
    c.Settled server (l.sentOver c.number ++ [frame]) ∧
    Connection.Replies server c.number (l.sentOver c.number) frame record ∧
    answer = valueOf record

variable {kept kept' : Option Connection} {c c' : Connection} {l l' : Line} {request : Bytes}
  {answer : Except TransportError Value}

theorem dial_ne_remote {e : TransportError} {text : String}
    (h : Connection.dial weather host l = (.error e, l')) : e ≠ .remote text := by
  unfold Connection.dial at h
  dsimp only at h
  split at h <;> cases h <;> exact nofun

theorem inStep_of_dial_error {e : TransportError} (hl : InStep server kept l)
    (h : Connection.dial weather host l = (.error e, l')) :
    InStep server none l' ∧ l'.log = l.log := by
  unfold Connection.dial at h
  dsimp only at h
  split at h <;> cases h <;> exact ⟨⟨hl.opened, nofun⟩, rfl⟩

theorem attempt_ne_remote {answers : Nat → Bytes → List Bytes} {fate : Fate} {e : TransportError}
    {text : String} (h : c.attempt answers fate frame limit = (.error e, c')) :
    e ≠ .remote text := by
  rintro rfl
  unfold Connection.attempt at h
  split at h
  · cases h
  · cases h
  · unfold Connection.read at h
    dsimp only at h
    split at h
    · rename_i hreceive
      cases h
      exact receive_ne_remote hreceive
    · cases h

theorem exchange_ne_remote {answers : Nat → Bytes → List Bytes} {e : TransportError} {text : String}
    (h : Connection.exchange answers weather c frame limit l = (.error e, c', l')) :
    e ≠ .remote text := by
  unfold Connection.exchange at h
  cases hattempt : c.attempt answers (weather.fate l.turn) frame limit with
  | mk outcome after =>
    rw [hattempt] at h
    cases h
    exact attempt_ne_remote hattempt

/-- A call for which nothing was sent tells nothing of the other side. -/
theorem report_nothing {e : TransportError} (he : ∀ text, e ≠ .remote text)
    (hlog : l'.log = l.log) :
    Report server kept kept' l l' frame [] (.error e) where
  log := by rw [hlog, List.append_nil]
  frames := nofun
  again := .inl (Nat.zero_le 1)
  own htold := absurd htold (not_told he)

/-- A call whose only attempt has failed. -/
theorem report_failure {e : TransportError} {a : Attempt} (he : ∀ text, e ≠ .remote text)
    (hlog : l'.log = l.log ++ [a]) (hframe : a.frame = frame) :
    Report server kept kept' l l' frame [a] (.error e) where
  log := hlog
  frames := List.forall_mem_singleton.mpr hframe
  again := .inl (Nat.le_refl 1)
  own htold := absurd htold (not_told he)

/-- A call whose only attempt has brought the record of the reply. -/
theorem report_success {record : Bytes} (hlog : l'.log = l.log ++ [⟨c.number, frame, .ok record⟩])
    (hnumber : c'.number = c.number)
    (hsettled : c'.Settled server (l.sentOver c.number ++ [frame]))
    (hreplies : Connection.Replies server c.number (l.sentOver c.number) frame record) :
    Report server kept (some c') l l' frame [⟨c.number, frame, .ok record⟩] (valueOf record) where
  log := hlog
  frames := List.forall_mem_singleton.mpr rfl
  again := .inl (Nat.le_refl 1)
  own _ := by
    refine ⟨c', record, rfl, ?_, ?_, ?_, rfl⟩ <;> rw [hnumber]
    · rfl
    · exact hsettled
    · exact hreplies

/-- **A call over a new connection** makes one attempt, if it gets that far. -/
theorem report_callAnew (hl : InStep server none l)
    (hframe : Frame.decode frame = .ok (request, []))
    (h : callAnew (.over server.answers weather) limit host frame l = (answer, kept', l')) :
    InStep server kept' l' ∧ ∃ attempts, attempts.length ≤ 1 ∧
      (∀ a ∈ attempts, a.connection = l.opened) ∧
      Report server none kept' l l' frame attempts answer := by
  unfold callAnew at h
  split at h
  · rename_i e later hdial
    cases h
    obtain ⟨hlater, hlog⟩ := inStep_of_dial_error hl hdial
    exact ⟨hlater, [], Nat.zero_le 1, nofun, report_nothing (fun _ => dial_ne_remote hdial) hlog⟩
  · rename_i c later hdial
    obtain ⟨hlater, hnumber, hlog⟩ := hl.dial hdial
    have hnote (a : Attempt) : (later.note a).log = l.log ++ [a] := by
      rw [← hlog]
      rfl
    have hsent : later.sentOver c.number = l.sentOver c.number := by
      rw [Line.sentOver, hlog]
      rfl
    split at h
    · rename_i e after last hexchange
      cases h
      obtain ⟨rfl, hlast, -⟩ := hlater.exchange hframe hexchange
      exact ⟨hlast, [_], Nat.le_refl 1, List.forall_mem_singleton.mpr hnumber,
        report_failure (fun _ => exchange_ne_remote hexchange) (hnote _) rfl⟩
    · rename_i record after last hexchange
      cases h
      obtain ⟨rfl, -, hrecord⟩ := hlater.exchange hframe hexchange
      obtain ⟨hlast, hsame, hsettled, hreplies⟩ := hrecord record rfl
      rw [hsent] at hsettled hreplies
      exact ⟨hlast, [_], Nat.le_refl 1, List.forall_mem_singleton.mpr hnumber,
        report_success (hnote _) hsame hsettled hreplies⟩

theorem isDead_iff {e : TransportError} :
    isDead e = true ↔ (∃ reason, e = .io reason) ∨ e = .closed := by
  cases e <;> simp [isDead]

/-- A call that was made again, over a new connection. -/
theorem report_again {e : TransportError} {attempts : List Attempt} (hopened : c.number < l.opened)
    (hdead : isDead e = true) (hone : attempts.length ≤ 1)
    (hnew : ∀ a ∈ attempts, a.connection = l.opened)
    (h : Report server none kept' (l.note ⟨c.number, frame, .error e⟩) l' frame attempts answer) :
    Report server (some c) kept' l l' frame (⟨c.number, frame, .error e⟩ :: attempts) answer where
  log := by
    rw [h.log, Line.note, List.append_assoc]
    rfl
  frames := List.forall_mem_cons.mpr ⟨rfl, h.frames⟩
  again := by
    cases attempts with
    | nil => exact .inl (Nat.le_refl 1)
    | cons second more =>
      have hnil : more = [] := List.eq_nil_of_length_eq_zero (by simpa using hone)
      subst hnil
      exact .inr ⟨c, _, second, e, rfl, rfl, rfl, rfl, isDead_iff.mp hdead⟩
  own htold := by
    obtain ⟨c', record, hkept, hlast, hsettled, hreplies, hanswer⟩ := h.own htold
    -- The first attempt was not made over this connection, so the log of its frames is the same.
    have hnumber : c'.number = l.opened := hnew _ (List.mem_of_getLast? hlast)
    rw [Line.sentOver_note_of_ne (by dsimp only; omega)] at hsettled hreplies
    refine ⟨c', record, hkept, ?_, hsettled, hreplies, hanswer⟩
    rw [List.getLast?_cons, hlast]
    rfl

/-- **A call is made again once**, and only if the connection that was kept turns out to be dead. -/
theorem report_callFrame (hl : InStep server kept l)
    (hframe : Frame.decode frame = .ok (request, []))
    (h : callFrame (.over server.answers weather) limit host frame kept l = (answer, kept', l')) :
    InStep server kept' l' ∧ ∃ attempts, Report server kept kept' l l' frame attempts answer := by
  unfold callFrame at h
  split at h
  · obtain ⟨hl', attempts, -, -, hreport⟩ := report_callAnew hl hframe h
    exact ⟨hl', attempts, hreport⟩
  · rename_i c
    split at h
    · rename_i record after later hexchange
      cases h
      obtain ⟨rfl, -, hrecord⟩ := hl.exchange hframe hexchange
      obtain ⟨hl', hsame, hsettled, hreplies⟩ := hrecord record rfl
      exact ⟨hl', _, report_success rfl hsame hsettled hreplies⟩
    · rename_i e after later hexchange
      obtain ⟨rfl, hlater, -⟩ := hl.exchange hframe hexchange
      split at h
      · rename_i hdead
        obtain ⟨hl', attempts, hone, hnew, hreport⟩ := report_callAnew hlater hframe h
        exact ⟨hl', _, report_again (hl.settled c rfl).1 hdead hone hnew hreport⟩
      · -- The reply may still be under way, and the connection is not kept.
        cases h
        exact ⟨hlater, _, report_failure (fun _ => exchange_ne_remote hexchange) rfl rfl⟩

/-- **What one call does and learns.** A call that is too long does nothing. -/
theorem report_rpc {call : Call} (hl : InStep server kept l)
    (h : rpc (.over server.answers weather) limit host call kept l = (answer, kept', l')) :
    InStep server kept' l' ∧ ∃ frame attempts,
      (attempts = [] ∨ Memory.frame call.encode = .ok frame) ∧
      Report server kept kept' l l' frame attempts answer := by
  unfold rpc at h
  split at h
  · rename_i e hframe
    cases h
    unfold Memory.frame at hframe
    split at hframe <;> cases hframe
    exact ⟨hl, [], [], .inl rfl, report_nothing (fun _ hremote => by cases hremote) rfl⟩
  · rename_i framed hframe
    split at h
    · rename_i e hcheck
      cases h
      unfold checkFrame at hcheck
      split at hcheck <;> cases hcheck
      exact ⟨hl, [], [], .inl rfl, report_nothing (fun _ hremote => by cases hremote) rfl⟩
    · obtain ⟨hl', attempts, hreport⟩ :=
        report_callFrame hl (Memory.decode_of_frame hframe) h
      exact ⟨hl', framed, attempts, .inr hframe, hreport⟩

/-! ### Calls in a row -/

section

variable {κ σ : Type}

/-- Which connection is kept after calls to one host, and what has become of the network. -/
def rpcs (d : Dialer κ σ) (limit : Nat) (host : String) (kept : Option κ) (s : σ) :
    List Call → Option κ × σ
  | [] => (kept, s)
  | call :: rest =>
    let (_, kept, s) := rpc d limit host call kept s
    rpcs d limit host kept s rest

/-- Each call is made with what the calls before it leave behind. -/
theorem getElem?_rpcAll (d : Dialer κ σ) (limit : Nat) (host : String) (kept : Option κ) (s : σ)
    (earlier later : List Call) (call : Call) :
    (rpcAll d limit host kept s (earlier ++ call :: later))[earlier.length]? =
      some (rpc d limit host call (rpcs d limit host kept s earlier).1
        (rpcs d limit host kept s earlier).2).1 := by
  induction earlier generalizing kept s with
  | nil => rfl
  | cons first earlier ih => exact ih _ _

end

/-- **A client stays in step with the network**, whatever it calls for. -/
theorem inStep_rpcs (hl : InStep server kept l) (calls : List Call) :
    InStep server (rpcs (.over server.answers weather) limit host kept l calls).1
      (rpcs (.over server.answers weather) limit host kept l calls).2 := by
  induction calls generalizing kept l with
  | nil => exact hl
  | cons call calls ih => exact ih (report_rpc hl rfl).1

/-- **No caller gets the reply to another call.** Calls are made to one host one after the other,
over connections that are refused, break, close and are late as they may, to a server that answers
what it is sent over each connection in order.

A call makes one attempt at most, or two if the first failed on the connection that was kept, which
the system or the other side had ended. If the caller is told what the other side has to say, that
is in the record of the reply to the frame that the call has sent last. -/
theorem own_replies (server : Server) (weather : Weather) (limit : Nat) (host : String)
    (earlier later : List Call) (call : Call) :
    ∃ kept l answer kept' l' frame attempts,
      rpcs (.over server.answers weather) limit host none {} earlier = (kept, l) ∧
      rpc (.over server.answers weather) limit host call kept l = (answer, kept', l') ∧
      (rpcAll (.over server.answers weather) limit host none {}
        (earlier ++ call :: later))[earlier.length]? = some answer ∧
      (attempts = [] ∨ Memory.frame call.encode = .ok frame) ∧
      Report server kept kept' l l' frame attempts answer := by
  have hl : InStep server (rpcs (.over server.answers weather) limit host none {} earlier).1
      (rpcs (.over server.answers weather) limit host none {} earlier).2 :=
    inStep_rpcs (.start server) earlier
  obtain ⟨-, frame, attempts, hframe, hreport⟩ := report_rpc hl rfl
  exact ⟨_, _, _, _, _, frame, attempts, rfl, rfl, getElem?_rpcAll .., hframe, hreport⟩

/-! ### Replies of a handler -/

section

variable {σ : Type} {served : Nat} {handler : Call → σ → Response × σ} {states : Nat → σ}
  {requests earlier : List Bytes} {request record : Bytes} {number : Nat} {call : Call}
  {attempts : List Attempt}

/-- **Over connections that are served, the reply to a frame is what the handler answers to the call
in it**, in the state that the calls before it leave. -/
theorem Connection.Replies.eq_answer
    (h : Connection.Replies (.serving served handler states) number requests frame record)
    (hearlier : List.Forall₂ (fun frame record => Frame.decode frame = .ok (record, [])) requests
      earlier)
    (hframe : Frame.decode frame = .ok (request, [])) (hcall : Call.decode request = .ok call) :
    record = replyRecord served (handler call (handled handler earlier (states number))).1 := by
  obtain ⟨reply, hreply, hdecode⟩ := h
  have hlength : requests.length = earlier.length := hearlier.length_eq
  have hall : (Frame.decodeAll (requests ++ [frame]).flatten).1 = earlier ++ [request] := by
    have hall := Frame.decodeAll_of_forall₂ (List.rel_append hearlier (.cons hframe .nil)) []
    have hnil : Frame.decodeAll [] = ([], [], .needMore) := Frame.decodeAll_of_error rfl
    rw [List.append_nil, hnil, List.append_nil] at hall
    rw [hall]
  have hserved : (serve served handler ⟨[], [(requests ++ [frame]).flatten]⟩ (states number)).1[
      requests.length]? = some reply := hreply
  rw [serve_eq_replies] at hserved
  obtain ⟨request', hrequest', hanswer⟩ := getElem?_replies hserved
  -- The server may have read fewer records than there are, but it has read this one.
  obtain ⟨more, hmore⟩ := Inbound.records_prefix_decodeAll served (requests ++ [frame]).flatten
  rw [hall] at hmore
  obtain ⟨hlt, -⟩ := List.getElem?_eq_some_iff.mp hrequest'
  have hlast : (earlier ++ [request])[requests.length]? = some request' := by
    rw [← hmore, List.getElem?_append_left hlt, hrequest']
  have hbefore := congrArg (List.take requests.length) hmore
  rw [List.take_append_of_le_length (Nat.le_of_lt hlt), hlength, List.take_left] at hbefore
  rw [hlength, List.getElem?_concat_length] at hlast
  cases hlast
  rw [hlength, hbefore] at hanswer
  exact record_of_replies hanswer hcall hdecode

/-- **What a caller is told is what the handler has answered to its own call**, in the state that
the calls sent over that connection before it leave. -/
theorem Report.exists_answer
    (h : Report (.serving served handler states) kept kept' l l' frame attempts answer)
    (hframe : Memory.frame call.encode = .ok frame)
    (hcall : Call.decode call.encode = .ok call) (htold : Told answer) :
    ∃ number earlier,
      List.Forall₂ (fun frame record => Frame.decode frame = .ok (record, [])) (l.sentOver number)
        earlier ∧
      answer = valueOf
        (replyRecord served (handler call (handled handler earlier (states number))).1) := by
  obtain ⟨c, record, -, -, hsettled, hreplies, rfl⟩ := h.own htold
  obtain ⟨records, hrecords⟩ := hsettled.whole
  have hearlier := List.forall₂_take (l.sentOver c.number).length hrecords
  rw [List.take_left] at hearlier
  refine ⟨c.number, _, hearlier, ?_⟩
  rw [← hreplies.eq_answer hearlier (Memory.decode_of_frame hframe) hcall]

end

/-- A server that answers every call with the number of calls before it, beginning with a hundred
times the number of the connection. -/
def Server.counting : Server :=
  .serving 4096 (fun _ n => (.ok (.uint (.ofNat n)), n + 1)) fun connection => 100 * connection

/-- The second reply is late, and the connection is closed after the third. -/
def Weather.changing : Weather where
  reach _ := .reached
  fate turn :=
    { sending := .whole
      reads := if turn = 2 ∨ turn = 5 then [] else [1, 100]
      ending := if turn = 2 then .late else .closed }

example :
    (rpcAll (.over Server.counting.answers .changing) 4096 "desk" none {}
        (List.replicate 4 ⟨.id, []⟩)).map
      (fun | .ok (.uint n) => some n | _ => none) = [some 0, none, some 100, some 200] := by
  decide +kernel

end Courier.Tcp
