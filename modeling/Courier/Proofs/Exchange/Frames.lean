import Mathlib
import Courier.Mesh
import Courier.Proofs.Bundle.Pickup
import Courier.Proofs.Codec.Framing
import Courier.Proofs.Codec.RoundTrip
import Courier.Proofs.Exchange.Correspondence
import Courier.Proofs.SealedBox.Addressed
import Courier.Proofs.SealedBox.Length

/-!
## The calls of a round as frames

A call between two hosts succeeds or fails by three lengths: the frame of the call must fit both
ends, and so must the frame of the answer. What a round sends is either a few bytes long or a bundle
and a few bytes, and a bundle made within the budget of a transport fits its frames.

* `Memory.rpc_of_fits`, `Memory.rpc_of_lt`: what becomes of a call, by the lengths.
* `Bundle.sealedLength_add_le`: a batch within a budget fits a frame, sealed.
* `Call.fits_ofDropoff`, `Response.fits_bundle`: bundles in calls and answers.
-/

namespace Courier

open Codec

/-! ### Frames -/

namespace Codec

/-- The length of a counted byte string of `n` bytes. -/
def counted (n : Nat) : Nat := Varint.length n + n

theorem length_putBytes_eq (bs : Bytes) : (putBytes bs).length = counted bs.length :=
  Reader.length_putBytes bs

theorem counted_of_lt {n : Nat} (h : n < 128) : counted n = n + 1 := by
  rw [counted, Varint.length, if_pos h, Nat.add_comm]

theorem lt_counted (n : Nat) : n < counted n := by
  have hpos := Varint.length_pos n
  rw [counted]
  omega

theorem counted_le {n : Nat} (h : n ≤ Frame.maxLength) : counted n ≤ n + 4 := by
  have hlen : Varint.length n ≤ 4 :=
    Varint.length_le_of_lt_pow (Nat.lt_of_le_of_lt h (by decide))
  rw [counted]
  omega

end Codec

theorem frame_eq {record : Bytes} (h : record.length ≤ Frame.maxLength) :
    Memory.frame record = .ok (putBytes record) := by
  rw [Memory.frame, Frame.encode_eq_ok_iff.mpr ⟨h, rfl⟩]
  rfl

theorem frame_of_lt {record : Bytes} (h : Frame.maxLength < record.length) :
    Memory.frame record = .error (.codec (.frameTooLarge record.length)) := by
  rw [Memory.frame, Frame.encode, if_pos h]

/-- What is framed is found in its frame. -/
theorem unframe_putBytes {record : Bytes} (h : record.length ≤ Frame.maxLength) :
    Memory.unframe (putBytes record) = .ok record := by
  have hdecode := Frame.decode_encode (Frame.encode_eq_ok_iff.mpr ⟨h, rfl⟩) []
  rw [List.append_nil] at hdecode
  rw [Memory.unframe, putBytes, hdecode]

theorem checkFrame_of_le {frame : Bytes} {limit : Nat} (h : frame.length ≤ limit) :
    checkFrame frame limit = .ok () := if_neg (Nat.not_lt.mpr h)

theorem checkFrame_of_lt {frame : Bytes} {limit : Nat} (h : limit < frame.length) :
    checkFrame frame limit = .error (.frameTooLarge frame.length limit) := if_pos h

theorem ok_bind {ε α β : Type} (a : α) (f : α → Except ε β) : (Except.ok a >>= f) = f a := rfl

/-! ### Calls within one process -/

/-- A call that can be read, in a frame of at most so many bytes. -/
structure Call.Fits (c : Call) (limit : Nat) : Prop where
  shallow : ∀ v ∈ c.args, v.Shallow
  length_le : counted c.encode.length ≤ limit

/-- An answer that can be read, in a frame of at most so many bytes. -/
structure Response.Fits (r : Response) (limit : Nat) : Prop where
  shallow : r.value.Shallow
  length_le : counted r.encode.length ≤ limit

namespace Memory

variable {own served : Nat}

theorem deliver_of_fits {call : Call} (hmax : call.encode.length ≤ Frame.maxLength)
    (h : call.Fits (min own served)) : deliver own served call = .ok call := by
  obtain ⟨hown, hserved⟩ := le_min_iff.mp h.length_le
  have hsize : call.encode.length < UInt64.size := Nat.lt_of_le_of_lt hmax (by decide)
  have hread : Call.decode call.encode = .ok call := (Reader.reads_call h.shallow hsize).all
  rw [← length_putBytes_eq] at hown hserved
  simp only [deliver, frame_eq hmax, ok_bind, checkFrame_of_le hown, checkFrame_of_le hserved,
    unframe_putBytes hmax, hread]
  rfl

/-- A call that fits the caller but not the host does not leave. -/
theorem deliver_of_lt {call : Call} (hmax : own ≤ Frame.maxLength)
    (hown : counted call.encode.length ≤ own) (hserved : served < counted call.encode.length) :
    deliver own served call = .error (.frameTooLarge (counted call.encode.length) served) := by
  have hlt := lt_counted call.encode.length
  have hframe : Memory.frame call.encode = .ok (putBytes call.encode) := frame_eq (by omega)
  rw [← length_putBytes_eq] at hown hserved ⊢
  simp only [deliver, hframe, ok_bind, checkFrame_of_le hown, checkFrame_of_lt hserved]
  rfl

theorem reply_of_le {r : Response} (hmax : r.encode.length ≤ Frame.maxLength)
    (hserved : counted r.encode.length ≤ served) : reply served r = .ok r := by
  rw [← length_putBytes_eq] at hserved
  simp only [reply, frame_eq hmax, ok_bind, if_neg (Nat.not_lt.mpr hserved)]
  rfl

theorem receive_of_fits {r : Response} (hmax : r.encode.length ≤ Frame.maxLength)
    (h : r.Fits own) : receive own r = r.answer := by
  have hown := h.length_le
  have hsize : r.encode.length < UInt64.size := Nat.lt_of_le_of_lt hmax (by decide)
  have hread : Response.decode r.encode = .ok r := (Reader.reads_response h.shallow hsize).all
  rw [← length_putBytes_eq] at hown
  simp only [receive, frame_eq hmax, ok_bind, checkFrame_of_le hown, unframe_putBytes hmax, hread,
    Response.answer]
  cases r.result <;> rfl

/-- **A call that fits both ends, as its answer does, is answered by the host**, if both can be
framed. -/
theorem rpc_of_framed {σ : Type} {handler : Call → σ → Response × σ} {call : Call}
    {r : Response} {s s' : σ} (hframed : call.encode.length ≤ Frame.maxLength)
    (hframed' : r.encode.length ≤ Frame.maxLength) (hcall : call.Fits (min own served))
    (hhandle : handler call s = (r, s')) (hanswer : r.Fits (min own served)) :
    rpc own served handler call s = (r.answer, s') := by
  obtain ⟨hown, hserved⟩ := le_min_iff.mp hanswer.length_le
  simp only [rpc, deliver_of_fits hframed hcall, hhandle, reply_of_le hframed' hserved, ok_bind,
    receive_of_fits hframed' ⟨hanswer.shallow, hown⟩]

/-- What fits a transport with a usual limit can be framed. -/
theorem framed_of_counted_le {n : Nat} (hmax : own ≤ Frame.maxLength)
    (h : counted n ≤ min own served) : n ≤ Frame.maxLength := by
  have hlt := lt_counted n
  have hown := (le_min_iff.mp h).1
  omega

theorem rpc_of_fits {σ : Type} {handler : Call → σ → Response × σ} {call : Call} {r : Response}
    {s s' : σ} (hmax : own ≤ Frame.maxLength) (hcall : call.Fits (min own served))
    (hhandle : handler call s = (r, s')) (hanswer : r.Fits (min own served)) :
    rpc own served handler call s = (r.answer, s') :=
  rpc_of_framed (framed_of_counted_le hmax hcall.length_le)
    (framed_of_counted_le hmax hanswer.length_le) hcall hhandle hanswer

/-- **A call that does not fit the host fails for its length.** -/
theorem rpc_of_lt {σ : Type} {handler : Call → σ → Response × σ} {call : Call} {s : σ}
    (hmax : own ≤ Frame.maxLength) (hown : counted call.encode.length ≤ own)
    (hserved : served < counted call.encode.length) :
    rpc own served handler call s =
      (.error (.frameTooLarge (counted call.encode.length) served), s) := by
  simp only [rpc, deliver_of_lt hmax hown hserved]

end Memory

/-! ### What calls and answers take -/

theorem Value.length_encode (v : Value) : v.encode.length = 1 + v.body.length := by
  rw [encode, List.length_cons, Nat.add_comm]

theorem Value.length_publicKey (p : PublicKey) : (Value.publicKey p).encode.length = 35 := by
  rw [length_encode, body, length_putBytes_eq, p.length_toBytes, counted_of_lt (by decide)]

theorem Value.length_uint (n : UInt64) : (Value.uint n).encode.length = 9 := by
  rw [length_encode, body, Bytes.length_ofNat]

theorem Value.length_int (i : Int64) : (Value.int i).encode.length = 9 := by
  rw [length_encode, body, putInt64, Bytes.length_ofNat]

/-- The length of the written form of a bundle of `n` sealed bytes. -/
def Bundle.valueLength (n : Nat) : Nat := 1 + counted (counted n + 8)

theorem Value.length_bundle (b : Bundle) :
    (Value.bundle b).encode.length = Bundle.valueLength b.data.length := by
  rw [length_encode, body, length_putBytes_eq, bundleBody, List.length_append,
    length_putBytes_eq, putInt64, Bytes.length_ofNat, Bundle.valueLength]

theorem Call.length_id : (Call.encode ⟨.id, []⟩).length = 2 := by
  simp [Call.encode, Value.encodeAll, Varint.length, Action.number]

theorem Call.length_ofPickup (caller : PublicKey) (since : Time) (maxBytes : UInt64) :
    (Call.ofPickup caller since maxBytes []).encode.length = 55 := by
  simp [Call.ofPickup, Call.encode, Value.encodeAll_eq, Varint.length, Action.number,
    Value.length_publicKey, Value.length_int, Value.length_uint]

theorem Call.length_ofDropoff (b : Bundle) :
    (Call.encode ⟨.dropoff, [.bundle b]⟩).length = 2 + Bundle.valueLength b.data.length := by
  simp only [Call.encode, Value.encodeAll_eq, List.length_append, Varint.length_encode,
    List.flatMap_singleton, Value.length_bundle, List.length_singleton, Action.number]
  simp [Varint.length]
  omega

theorem Response.length_ok (v : Value) : (Response.ok v).encode.length = 1 + v.encode.length := by
  simp [Response.ok, Response.encode, putString, length_putBytes_eq, counted_of_lt]

theorem Response.length_err {text : String} (hne : text.isEmpty = false)
    (hshort : text.utf8ByteSize < 128) :
    (Response.err text).encode.length = text.utf8ByteSize + 2 := by
  simp [Response.err, Response.encode, putString, length_putBytes_eq, counted_of_lt, hne, hshort,
    Value.encode, Value.body]

/-! ### Bundles within frames -/

namespace Bundle

/-- The length of the frame that drops off a bundle of `n` sealed bytes. -/
def dropoffLength (n : Nat) : Nat := counted (2 + valueLength n)

theorem lt_dropoffLength (n : Nat) : n < dropoffLength n := by
  have hdata := lt_counted n
  have hbody := lt_counted (counted n + 8)
  have hframe := lt_counted (2 + valueLength n)
  rw [valueLength] at hframe
  rw [dropoffLength, valueLength]
  omega

theorem valueLength_le {n : Nat} (h : n + frameOverhead ≤ Frame.maxLength) :
    valueLength n ≤ n + 17 := by
  have hoverhead : frameOverhead = 64 := rfl
  have hdata : counted n ≤ n + 4 := counted_le (by omega)
  have hbody : counted (counted n + 8) ≤ counted n + 8 + 4 := counted_le (by omega)
  rw [valueLength]
  omega

/-- What framing adds to a bundle in a call or an answer stays within its allowance. -/
theorem counted_add_valueLength_le {n k : Nat} (hk : k ≤ 2)
    (h : n + frameOverhead ≤ Frame.maxLength) :
    counted (k + valueLength n) ≤ n + frameOverhead := by
  have hoverhead : frameOverhead = 64 := rfl
  have hvalue := valueLength_le h
  have hframe : counted (k + valueLength n) ≤ k + valueLength n + 4 := counted_le (by omega)
  omega

/-- **A batch within the budget of a transport fits its frames, sealed.** -/
theorem sealedLength_add_le {limit n : Nat} (hn : 0 < n) (h : n ≤ budget limit) :
    SealedBox.sealedLength n + frameOverhead ≤ limit := by
  rw [budget] at h
  have hmono := SealedBox.overhead_mono (show n ≤ limit by omega)
  have hsealed : SealedBox.sealedLength n = n + SealedBox.overhead n := by
    rw [SealedBox.overhead_eq, SealedBox.sealedLength]
    omega
  omega

theorem length_batch_pos (es : List OutboxEntry) : 0 < (batch es).length := by
  rw [length_batch]
  omega

end Bundle

/-! ### What a round sends -/

namespace Call

theorem fits_id {limit : Nat} (hlimit : 128 ≤ limit) : Fits ⟨.id, []⟩ limit := by
  refine ⟨List.forall_mem_nil _, ?_⟩
  rw [length_id, counted_of_lt (by decide)]
  omega

theorem fits_ofPickup {caller : PublicKey} {since : Time} {maxBytes : UInt64} {limit : Nat}
    (hlimit : 128 ≤ limit) : (ofPickup caller since maxBytes []).Fits limit := by
  refine ⟨fun v hv => ?_, ?_⟩
  · simp only [ofPickup, List.map_nil, List.append_nil, List.mem_cons, List.not_mem_nil,
      or_false] at hv
    rcases hv with rfl | rfl | rfl <;> exact Value.shallow_iff.mpr (Nat.zero_le _)
  · rw [length_ofPickup, counted_of_lt (by decide)]
    omega

theorem counted_ofDropoff (b : Bundle) :
    counted (encode ⟨.dropoff, [.bundle b]⟩).length = Bundle.dropoffLength b.data.length := by
  rw [length_ofDropoff, Bundle.dropoffLength]

theorem fits_ofDropoff {b : Bundle} {limit : Nat}
    (h : Bundle.dropoffLength b.data.length ≤ limit) : Fits ⟨.dropoff, [.bundle b]⟩ limit := by
  refine ⟨List.forall_mem_singleton.mpr (Value.shallow_iff.mpr (Nat.zero_le _)), ?_⟩
  rwa [counted_ofDropoff]

end Call

/-! ### What the host answers -/

theorem Response.fits_ok {v : Value} {limit : Nat} (hshallow : v.Shallow)
    (hlen : v.encode.length ≤ 35) (hlimit : 128 ≤ limit) : (Response.ok v).Fits limit := by
  refine ⟨hshallow, ?_⟩
  rw [length_ok, counted_of_lt (by omega)]
  omega

theorem Response.fits_err {text : String} {limit : Nat} (hne : text.isEmpty = false)
    (hshort : text.utf8ByteSize ≤ 100) (hlimit : 128 ≤ limit) :
    (Response.err text).Fits limit := by
  refine ⟨Value.shallow_iff.mpr (Nat.zero_le _), ?_⟩
  rw [length_err hne (by omega), counted_of_lt (by omega)]
  omega

theorem Response.fits_bundle {b : Bundle} {limit : Nat}
    (h : b.data.length + Bundle.frameOverhead ≤ limit) (hlimit : limit ≤ Frame.maxLength) :
    (Response.ok (.bundle b)).Fits limit := by
  refine ⟨Value.shallow_iff.mpr (Nat.zero_le _), ?_⟩
  have hframe := Bundle.counted_add_valueLength_le (show 1 ≤ 2 by decide) (Nat.le_trans h hlimit)
  rw [length_ok, Value.length_bundle]
  exact Nat.le_trans hframe h

namespace Node

variable [Cryptography]

theorem handle_id (n : Node) (surface : Surface) :
    n.handle surface ⟨.id, []⟩ = (.ok (.publicKey n.router.identity.routing.publicKey), n) := by
  have hrequest : Request.ofCall ⟨.id, []⟩ = .ok .id := rfl
  rw [n.handle_of_isPublic surface rfl hrequest]
  rfl

omit [Cryptography] in
/-- A node sizes its bundles for all its transports. -/
theorem exists_byteLimit {n : Node} {limit : Nat} (h : limit ∈ n.transports.limits) :
    ∃ least, n.transports.byteLimit = some least ∧ least ≤ limit := by
  obtain ⟨least, hleast⟩ := Option.isSome_iff_exists.mp (List.isSome_min?_of_mem h)
  exact ⟨least, hleast, (List.min?_eq_some_iff.mp hleast).2 limit h⟩

variable [Cryptography.Lawful]

/-- A bundle is empty, or a box around some bytes within its room. -/
theorem length_pickup_cases {n n' : Node} {caller : PublicKey} {since : Time} {maxBytes : Nat}
    {channels : List String} {b : Bundle} (hsize : maxBytes < UInt64.size)
    (h : n.pickup caller since maxBytes channels = (.ok b, n')) :
    b.data.length = 0 ∨
      ∃ k, 0 < k ∧ k ≤ maxBytes ∧ b.data.length = SealedBox.sealedLength k := by
  rcases pickup_of_up (up_of_pickup h) caller since maxBytes channels with
    ⟨_, hpickup⟩ | ⟨hne, hpickup⟩
  · rw [hpickup] at h
    cases h
    exact .inl rfl
  · rw [hpickup] at h
    cases h
    exact .inr ⟨_, Bundle.length_batch_pos _,
      Bundle.length_batch_le hsize hne (n.sum_cost_taken_le since maxBytes channels),
      SealedBox.length_close _ _ _⟩

/-- A bundle within the budgets of both ends fits the frames of both. -/
theorem length_pickup_add_le {n n' : Node} {caller : PublicKey} {since : Time}
    {own served least : Nat} {channels : List String} {b : Bundle}
    (hown : Bundle.frameOverhead ≤ own) (hserved : Bundle.frameOverhead ≤ served)
    (hsize : own < UInt64.size) (hleast : least ≤ served)
    (h : n.pickup caller since (min (Bundle.budget own) (Bundle.budget least)) channels =
      (.ok b, n')) :
    b.data.length + Bundle.frameOverhead ≤ min own served := by
  have hbudget : min (Bundle.budget own) (Bundle.budget least) < UInt64.size :=
    Nat.lt_of_le_of_lt (Nat.min_le_left _ _) (Bundle.budget_lt hsize)
  -- Budgets do not grow with limits everywhere, so each end is measured by its own.
  rcases length_pickup_cases hbudget h with hempty | ⟨k, hpos, hk, hlength⟩
  · rw [hempty, Nat.zero_add]
    exact le_min hown hserved
  · rw [hlength]
    have hkOwn := Bundle.sealedLength_add_le hpos (Nat.le_trans hk (Nat.min_le_left _ _))
    have hkLeast := Bundle.sealedLength_add_le hpos (Nat.le_trans hk (Nat.min_le_right _ _))
    exact le_min hkOwn (Nat.le_trans hkLeast hleast)

/-- **All that a host answers to a request for mail**, made within the budget of the caller: its store
is out of service, or there is a bundle that fits both ends. -/
theorem handle_ofPickup_cases (n : Node) (surface : Surface) {own served : Nat}
    (hlimits : served ∈ n.transports.limits) (hown : Bundle.frameOverhead ≤ own)
    (hserved : Bundle.frameOverhead ≤ served) (hmax : own ≤ Frame.maxLength) (caller : PublicKey)
    (since : Time) :
    (StoreCall.outboxSince.name ∈ n.backend.down ∧
      n.handle surface (.ofPickup caller since (UInt64.ofNat (Bundle.budget own)) []) =
        (.err "store backend: outbox_since failed", n)) ∨
    (StoreCall.outboxSince.name ∉ n.backend.down ∧ ∃ b n' maxBytes,
      n.pickup caller since maxBytes [] = (.ok b, n') ∧
      n.handle surface (.ofPickup caller since (UInt64.ofNat (Bundle.budget own)) []) =
        (.ok (.bundle b), n') ∧
      b.data.length + Bundle.frameOverhead ≤ min own served) := by
  have hsize : own < UInt64.size := Nat.lt_of_le_of_lt hmax (by decide)
  obtain ⟨least, hleast, hle⟩ := exists_byteLimit hlimits
  rw [n.handle_ofPickup hleast, UInt64.toNat_ofNat_of_lt' (Bundle.budget_lt hsize)]
  by_cases hdown : StoreCall.outboxSince.name ∈ n.backend.down
  · left
    rw [pickup_of_down hdown]
    exact ⟨hdown, rfl⟩
  · right
    obtain ⟨b, n', hpickup⟩ := exists_pickup hdown caller since
      (min (Bundle.budget own) (Bundle.budget least)) []
    rw [hpickup]
    exact ⟨hdown, b, n', _, hpickup, rfl, length_pickup_add_le hown hserved hsize hle hpickup⟩

/-- All that a host answers to a bundle. -/
theorem handle_dropoff_cases [Cryptography.Addressed] (n : Node) (surface : Surface)
    (key : PublicKey) (once : Key) (time : Time) {es : List OutboxEntry}
    (h : (es.map Bundle.cost).sum < UInt64.size) :
    (∃ count n', n.handle surface
        ⟨.dropoff, [.bundle ⟨SealedBox.close key once (Bundle.batch es), time⟩]⟩ =
      (.ok (.uint count), n')) ∨
    n.handle surface ⟨.dropoff, [.bundle ⟨SealedBox.close key once (Bundle.batch es), time⟩]⟩ =
      (.err "bundle is not addressed to this node's routing key", n) := by
  have hrequest (b : Bundle) : Request.ofCall ⟨.dropoff, [.bundle b]⟩ = .ok (.dropoff b) := rfl
  rw [n.handle_of_isPublic surface rfl (hrequest _)]
  by_cases hkey : key = n.router.identity.routing.publicKey
  · left
    subst hkey
    have henvelopes := Bundle.envelopes_close n.router.identity.routing once time h
    have hserve (b : Bundle) (envelopes : List Bytes)
        (hb : b.envelopes n.router.identity.routing = .ok envelopes) :
        n.serve (.dropoff b) = (.ok (.uint (UInt64.ofNat (n.router.routeAll 0 envelopes).1)),
          { n with router := (n.router.routeAll 0 envelopes).2 }) := by
      rw [serve, dropoff, hb]
      rfl
    rw [hserve _ _ henvelopes]
    exact ⟨_, _, rfl⟩
  · right
    have hbox := Bundle.isEmpty_close key once (Bundle.batch es) time
    have hopen := SealedBox.open?_close_of_ne hkey once (Bundle.batch es)
    have henvelopes : Bundle.envelopes ⟨SealedBox.close key once (Bundle.batch es), time⟩
        n.router.identity.routing = .error .notAddressed := by
      simp only [Bundle.envelopes, hbox, hopen]
      rfl
    rw [serve, dropoff, henvelopes]
    rfl

end Node

end Courier
