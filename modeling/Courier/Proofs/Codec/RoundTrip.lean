import Mathlib
import Courier.Bytes.Digits
import Courier.Codec.Call
import Courier.Proofs.Codec.Reads

/-!
## Values, calls and answers read back

A record reads back because its fields do, in their order, and a list because its elements do. A
value adds one thing: its arrays may lie in one another, and the reader uses up a level with each.
A value that lies no deeper than the levels go reads back; of one that does not, the reader comes to
an element that lies too deep before it comes to the end.

* `ReadsBack`: every written form reads back.
* `Value.Under`: how many arrays one value lies under in another.
* `reads_value`, `refuses_value`: what becomes of a value, by its depth.
* `Codec.round_trip`: values, calls and answers, and what follows a value.
-/

namespace Courier

open Codec

/-! ### Depth -/

/-- One value lies in another one, under so many arrays. -/
inductive Value.Under : (arrays : Nat) → (inner outer : Value) → Prop
  | self (v : Value) : Under 0 v v
  | element {n : Nat} {inner v : Value} {vs : List Value} (hv : v ∈ vs) (h : Under n inner v) :
      Under (n + 1) inner (.array vs)

/-- Nothing in a value lies under more arrays than a reader allows. -/
def Value.Shallow (v : Value) : Prop := ∀ n w, Value.Under n w v → n ≤ 32

mutual

/-- The number of arrays above what lies deepest in a value. -/
def Value.depth : Value → Nat
  | .array vs => Value.depthAll vs
  | _ => 0

/-- The number of arrays above what lies deepest in an array with these elements. -/
def Value.depthAll : List Value → Nat
  | [] => 0
  | v :: rest => max (v.depth + 1) (Value.depthAll rest)

end

namespace Value

theorem depth_lt_depthAll {v : Value} {vs : List Value} (h : v ∈ vs) :
    v.depth < Value.depthAll vs := by
  induction vs with
  | nil => cases h
  | cons w rest ih =>
    rw [depthAll]
    rcases List.mem_cons.mp h with rfl | h
    · exact Nat.le_max_left _ _
    · exact Nat.lt_of_lt_of_le (ih h) (Nat.le_max_right _ _)

/-- An array goes as deep as one of its elements. -/
theorem exists_depth_succ {vs : List Value} {n : Nat} (h : n < depthAll vs) :
    ∃ v ∈ vs, n ≤ v.depth := by
  induction vs with
  | nil => cases h
  | cons w rest ih =>
    rw [depthAll, lt_max_iff] at h
    rcases h with h | h
    · exact ⟨w, List.mem_cons_self, Nat.le_of_lt_succ h⟩
    · obtain ⟨v, hv, hdepth⟩ := ih h
      exact ⟨v, List.mem_cons_of_mem w hv, hdepth⟩

theorem Under.le_depth {n : Nat} {v w : Value} (h : Under n w v) : n ≤ v.depth := by
  induction h with
  | self v => exact Nat.zero_le _
  | element hv _ ih =>
    rw [depth]
    exact Nat.lt_of_le_of_lt ih (depth_lt_depthAll hv)

/-- Something lies under every number of arrays up to the depth. -/
theorem exists_under {n : Nat} {v : Value} (h : n ≤ v.depth) : ∃ w, Under n w v := by
  induction n generalizing v with
  | zero => exact ⟨v, .self v⟩
  | succ n ih =>
    cases v with
    | array vs =>
      rw [depth] at h
      obtain ⟨v, hv, hdepth⟩ := exists_depth_succ h
      obtain ⟨w, hw⟩ := ih hdepth
      exact ⟨w, .element hv hw⟩
    | _ => simp [depth] at h

theorem depth_le_iff {n : Nat} {v : Value} : v.depth ≤ n ↔ ∀ m w, Under m w v → m ≤ n := by
  constructor
  · intro h m w hw
    exact Nat.le_trans hw.le_depth h
  · intro h
    obtain ⟨w, hw⟩ := exists_under (Nat.le_refl v.depth)
    exact h _ w hw

theorem shallow_iff {v : Value} : v.Shallow ↔ v.depth ≤ maxDepth := depth_le_iff.symm

theorem not_shallow_iff {v : Value} : ¬ v.Shallow ↔ maxDepth < v.depth := by
  rw [shallow_iff, Nat.not_le]

end Value

/-! ### Fields -/

namespace Reader

variable {α β : Type}

/-- What is checked after it was read takes no more bytes. -/
theorem Reads.bind_nil {r : Reader α} {w : Bytes} {a : α} {f : α → Reader β} {b : β}
    (h : Reads r w a) (h' : Reads (f a) [] b) : Reads (r >>= f) w b := by
  have hb := h.bind h'
  rwa [List.append_nil] at hb

/-- Every written form reads back whose length is a number of 64 bits, as that of every byte string
is. -/
def ReadsBack (r : Reader α) (put : α → Bytes) : Prop :=
  ∀ a, (put a).length < UInt64.size → Reads r (put a) a

theorem length_le_length_putBytes (bs : Bytes) : bs.length ≤ (putBytes bs).length := by
  rw [length_putBytes]
  omega

theorem readsBack_bytes : ReadsBack bytes putBytes := by
  intro bs h
  exact reads_bytes (Nat.lt_of_le_of_lt (length_le_length_putBytes bs) h)

theorem readsBack_string : ReadsBack string putString := by
  intro s h
  have hbytes : Reads bytes (putString s) (Bytes.ofString s) := readsBack_bytes _ h
  refine hbytes.bind_nil ?_
  rw [Bytes.toString?_ofString]
  exact reads_pure s

theorem reads_bool (b : Bool) : Reads bool (putBool b) b := by
  intro rest
  cases b <;> rfl

theorem reads_nat64 {n : Nat} (h : n < UInt64.size) : Reads nat64 (Bytes.ofNat 8 n) n := by
  have htake : Reads (take 8) (Bytes.ofNat 8 n) (Bytes.ofNat 8 n) := by
    have hr := reads_take (Bytes.ofNat 8 n)
    rwa [Bytes.length_ofNat] at hr
  have hb := htake.bind_pure Bytes.toNat
  rwa [Bytes.toNat_ofNat (by exact h)] at hb

theorem reads_int64 (i : Int64) : Reads int64 (putInt64 i) i := by
  have hb := (reads_nat64 i.toUInt64.toNat_lt).bind_pure fun n => Int64.ofUInt64 (UInt64.ofNat n)
  rw [UInt64.ofNat_toNat] at hb
  exact hb

theorem reads_checked {check : Bytes → Except KeyError α} {bs : Bytes} {a : α}
    (hlen : bs.length < UInt64.size) (h : check bs = .ok a) :
    Reads (bytes >>= fun bs => lift (check bs)) (putBytes bs) a := by
  refine (reads_bytes hlen).bind_nil ?_
  rw [h]
  exact reads_pure a

theorem reads_publicKey (p : PublicKey) : Reads publicKey (putBytes p.toBytes) p := by
  refine reads_checked ?_ (PublicKey.ofBytes_toBytes p)
  rw [PublicKey.toBytes, List.length_cons, p.key.length_bytes]
  decide

theorem reads_keypair (k : Keypair) : Reads keypair (putBytes k.toBytes) k := by
  refine reads_checked ?_ (Keypair.ofBytes_toBytes k)
  rw [Keypair.toBytes, List.length_cons, k.secret.length_bytes]
  decide

/-! ### Records and lists -/

/-- A body reads back from where its length is put before it. -/
theorem readsBack_record {r : Reader α} {body : α → Bytes} (h : ReadsBack r body) :
    ReadsBack (record r) fun a => putBytes (body a) := by
  intro a hlen
  have hbody : (body a).length < UInt64.size :=
    Nat.lt_of_le_of_lt (length_le_length_putBytes _) hlen
  refine (reads_bytes hbody).bind_nil ?_
  rw [(h a hbody).all]
  exact reads_pure a

theorem length_le_length_flatMap_of_mem (put : α → Bytes) {x : α} {xs : List α} (h : x ∈ xs) :
    (put x).length ≤ (xs.flatMap put).length := by
  obtain ⟨front, rest, rfl⟩ := List.append_of_mem h
  rw [List.flatMap_append, List.flatMap_cons, List.length_append, List.length_append]
  omega

theorem readsBack_list {r : Reader α} {put : α → Bytes} (hpos : ∀ a, 0 < (put a).length)
    (h : ReadsBack r put) : ReadsBack (list r) (putList put) := by
  intro xs hlen
  rw [putList, List.length_append] at hlen
  have hcount : xs.length ≤ (xs.flatMap put).length := length_le_length_flatMap fun x _ => hpos x
  refine reads_list (by omega) (fun x _ => hpos x) fun x hx => h x ?_
  have hx := length_le_length_flatMap_of_mem put hx
  omega

theorem readsBack_records {r : Reader α} {body : α → Bytes} (h : ReadsBack r body) :
    ReadsBack (list (record r)) (putList fun a => putBytes (body a)) :=
  readsBack_list (fun a => length_putBytes_pos (body a)) (readsBack_record h)

theorem readsBack_contact : ReadsBack contact contactBody := by
  intro c hlen
  rw [contactBody, List.length_append] at hlen
  have hname := readsBack_string c.name (by omega)
  exact hname.bind ((reads_publicKey c.publicKey).bind_pure (Contact.mk c.name))

theorem readsBack_channel : ReadsBack channel channelBody := by
  intro c hlen
  rw [channelBody, List.length_append] at hlen
  have hname := readsBack_string c.name (by omega)
  exact hname.bind ((reads_keypair c.keypair).bind_pure (Channel.mk c.name))

theorem readsBack_profile : ReadsBack profile profileBody := by
  intro p hlen
  rw [profileBody, List.length_append] at hlen
  have hname := readsBack_string p.name (by omega)
  exact hname.bind ((reads_bool p.enabled).bind
    ((reads_keypair p.keypair).bind_pure (Profile.mk p.name p.enabled)))

theorem readsBack_peer : ReadsBack peer peerBody := by
  intro p hlen
  simp only [peerBody, List.length_append] at hlen
  have hname := readsBack_string p.name (by omega)
  have huri := readsBack_string p.uri (by omega)
  have hgroup := readsBack_string p.group (by omega)
  exact hname.bind ((reads_bool p.enabled).bind
    (huri.bind (hgroup.bind_pure (Peer.mk p.name p.enabled p.uri))))

theorem readsBack_bundle : ReadsBack bundle bundleBody := by
  intro b hlen
  rw [bundleBody, List.length_append] at hlen
  have hdata := readsBack_bytes b.data (by omega)
  exact hdata.bind ((reads_int64 b.time).bind_pure (Bundle.mk b.data))

/-! ### Values -/

/-- A reader finds a fault in these bytes, whatever comes after them. -/
def Refuses (r : Reader α) (written : Bytes) (e : CodecError) : Prop :=
  ∀ rest, r (written ++ rest) = .error e

theorem Reads.bind_refuses {r : Reader α} {w w' : Bytes} {a : α} {f : α → Reader β}
    {e : CodecError} (h : Reads r w a) (h' : Refuses (f a) w' e) :
    Refuses (r >>= f) (w ++ w') e := by
  intro rest
  show (r (w ++ w' ++ rest) >>= fun p => f p.1 p.2) = .error e
  rw [List.append_assoc, h (w' ++ rest)]
  exact h' rest

theorem Refuses.bind {r : Reader α} {w : Bytes} {e : CodecError} (h : Refuses r w e)
    (f : α → Reader β) (w' : Bytes) : Refuses (r >>= f) (w ++ w') e := by
  intro rest
  show (r (w ++ w' ++ rest) >>= fun p => f p.1 p.2) = .error e
  rw [List.append_assoc, h (w' ++ rest)]
  rfl

/-- The first element that is refused ends a row of elements. -/
theorem refuses_times {r : Reader α} {put : α → Bytes} {xs : List α} {e : CodecError}
    (h : ∀ x ∈ xs, Reads r (put x) x ∨ Refuses r (put x) e)
    (hbad : ∃ x ∈ xs, Refuses r (put x) e) :
    Refuses (times r xs.length) (xs.flatMap put) e := by
  induction xs with
  | nil =>
    obtain ⟨x, hx, _⟩ := hbad
    cases hx
  | cons x xs ih =>
    rcases h x List.mem_cons_self with hx | hx
    · obtain ⟨y, hy, hyBad⟩ := hbad
      -- An element that reads back is not the one that is refused.
      have hrest : ∃ y ∈ xs, Refuses r (put y) e := by
        rcases List.mem_cons.mp hy with rfl | hy
        · have hboth := (hx []).symm.trans (hyBad [])
          cases hboth
        · exact ⟨y, hy, hyBad⟩
      have hrefused := ih (fun y hy => h y (List.mem_cons_of_mem _ hy)) hrest
      exact hx.bind_refuses (by
        have hb := hrefused.bind (fun rest => pure (x :: rest)) []
        rwa [List.append_nil] at hb)
    · exact hx.bind _ _

theorem refuses_list {r : Reader α} {put : α → Bytes} {xs : List α} {e : CodecError}
    (hn : xs.length < UInt64.size) (hpos : ∀ x ∈ xs, 0 < (put x).length)
    (h : ∀ x ∈ xs, Reads r (put x) x ∨ Refuses r (put x) e)
    (hbad : ∃ x ∈ xs, Refuses r (put x) e) : Refuses (list r) (putList put xs) e := by
  intro rest
  have hcount : xs.length ≤ (xs.flatMap put ++ rest).length := by
    have hle := length_le_length_flatMap hpos
    rw [List.length_append]
    omega
  show (count (putList put xs ++ rest) >>= fun p => times r p.1 p.2) = .error e
  rw [putList, List.append_assoc, count_append (reads_varint hn) hcount]
  exact refuses_times h hbad rest

/-- The written form of an array is that of a list of values. -/
theorem body_array (vs : List Value) : (Value.array vs).body = putList Value.encode vs := by
  rw [Value.body, putList, Value.encodeAll_eq]

theorem length_encode_pos (v : Value) : 0 < v.encode.length := Nat.succ_pos _

theorem length_lt_of_length_array_lt {vs : List Value} {bound : Nat}
    (h : (Value.array vs).encode.length < bound) :
    vs.length < bound ∧ ∀ v ∈ vs, v.encode.length < bound := by
  have hcount : vs.length ≤ (vs.flatMap Value.encode).length :=
    length_le_length_flatMap fun v _ => length_encode_pos v
  rw [Value.encode, List.length_cons, body_array, putList, List.length_append] at h
  refine ⟨by omega, fun v hv => ?_⟩
  have hv := length_le_length_flatMap_of_mem Value.encode hv
  omega

/-- **A value that lies less deep than the levels go reads back.** -/
theorem reads_value {levels : Nat} {v : Value} (hdepth : v.depth < levels)
    (hlen : v.encode.length < UInt64.size) : Reads (value levels) v.encode v := by
  induction levels generalizing v with
  | zero => cases hdepth
  | succ levels ih =>
    have hbody : v.body.length < UInt64.size :=
      Nat.lt_of_le_of_lt (Nat.le_succ _) hlen
    intro rest
    -- Only the elements of an array use up a level.
    cases v with
    | nil => rfl
    | int i => exact (reads_int64 i).bind_pure Value.int rest
    | uint u =>
      have hb := (reads_nat64 u.toNat_lt).bind_pure fun n => Value.uint (UInt64.ofNat n)
      rw [UInt64.ofNat_toNat] at hb
      exact hb rest
    | string s => exact (readsBack_string s hbody).bind_pure Value.string rest
    | bytes bs => exact (readsBack_bytes bs hbody).bind_pure Value.bytes rest
    | bytesArray xs =>
      exact (readsBack_list length_putBytes_pos readsBack_bytes xs hbody).bind_pure
        Value.bytesArray rest
    | array vs =>
      rw [Value.depth] at hdepth
      obtain ⟨hcount, hshort⟩ := length_lt_of_length_array_lt hlen
      have helements : ∀ w ∈ vs, Reads (value levels) w.encode w := fun w hw =>
        ih (Nat.lt_of_lt_of_le (Value.depth_lt_depthAll hw) (Nat.le_of_lt_succ hdepth))
          (hshort w hw)
      have hlist : Reads (list (value levels)) (putList Value.encode vs) vs :=
        reads_list hcount (fun w _ => length_encode_pos w) helements
      rw [Value.encode, body_array]
      exact hlist.bind_pure Value.array rest
    | publicKey p => exact (reads_publicKey p).bind_pure Value.publicKey rest
    | contact c =>
      exact (readsBack_record readsBack_contact c hbody).bind_pure Value.contact rest
    | contacts cs =>
      exact (readsBack_records readsBack_contact cs hbody).bind_pure Value.contacts rest
    | channel c =>
      exact (readsBack_record readsBack_channel c hbody).bind_pure Value.channel rest
    | channels cs =>
      exact (readsBack_records readsBack_channel cs hbody).bind_pure Value.channels rest
    | profile p =>
      exact (readsBack_record readsBack_profile p hbody).bind_pure Value.profile rest
    | profiles ps =>
      exact (readsBack_records readsBack_profile ps hbody).bind_pure Value.profiles rest
    | peer p => exact (readsBack_record readsBack_peer p hbody).bind_pure Value.peer rest
    | peers ps => exact (readsBack_records readsBack_peer ps hbody).bind_pure Value.peers rest
    | bundle b => exact (readsBack_record readsBack_bundle b hbody).bind_pure Value.bundle rest

/-- **A value that lies deeper is refused**, at the first element that is too deep. -/
theorem refuses_value {levels : Nat} {v : Value} (hdepth : levels ≤ v.depth)
    (hlen : v.encode.length < UInt64.size) : Refuses (value levels) v.encode .tooDeep := by
  induction levels generalizing v with
  | zero => exact fun _ => rfl
  | succ levels ih =>
    cases v with
    | array vs =>
      rw [Value.depth] at hdepth
      obtain ⟨hcount, hshort⟩ := length_lt_of_length_array_lt hlen
      have helements : ∀ w ∈ vs, Reads (value levels) w.encode w ∨
          Refuses (value levels) w.encode .tooDeep := by
        intro w hw
        rcases Nat.lt_or_ge w.depth levels with hlt | hge
        · exact .inl (reads_value hlt (hshort w hw))
        · exact .inr (ih hge (hshort w hw))
      obtain ⟨w, hw, hdeep⟩ := Value.exists_depth_succ hdepth
      have hlist : Refuses (list (value levels)) (putList Value.encode vs) .tooDeep :=
        refuses_list hcount (fun w _ => length_encode_pos w) helements
          ⟨w, hw, ih hdeep (hshort w hw)⟩
      have hb := hlist.bind (fun vs => pure (Value.array vs)) []
      rw [List.append_nil] at hb
      intro rest
      rw [Value.encode, body_array]
      exact hb rest
    | _ => simp [Value.depth] at hdepth

/-! ### Whole strings -/

/-- What comes after a whole value is too much. -/
theorem Reads.all_append {r : Reader α} {w t : Bytes} {a : α} (h : Reads r w a) (ht : t ≠ []) :
    r.all (w ++ t) = .error (.trailingBytes t.length) := by
  obtain ⟨b, t, rfl⟩ := List.exists_cons_of_ne_nil ht
  rw [Reader.all, h (b :: t)]

theorem Refuses.all {r : Reader α} {w : Bytes} {e : CodecError} (h : Refuses r w e) :
    r.all w = .error e := by
  have hr := h []
  rw [List.append_nil] at hr
  rw [Reader.all, hr]

theorem reads_anyValue {v : Value} (hv : v.Shallow) (hlen : v.encode.length < UInt64.size) :
    Reads anyValue v.encode v :=
  reads_value (Nat.lt_succ_of_le (Value.shallow_iff.mp hv)) hlen

/-- The written form of a call is that of a number and a list. -/
theorem encode_call (c : Call) :
    c.encode = Varint.encode c.action.number ++ putList Value.encode c.args := by
  rw [Call.encode, Value.encodeAll_eq, putList]

theorem reads_call {c : Call} (hargs : ∀ v ∈ c.args, v.Shallow)
    (hlen : c.encode.length < UInt64.size) : Reads Call.reader c.encode c := by
  have hnumber : c.action.number < UInt64.size := by cases c.action <;> decide
  have hcount : c.args.length ≤ (c.args.flatMap Value.encode).length :=
    length_le_length_flatMap fun v _ => length_encode_pos v
  rw [encode_call, putList, List.length_append, List.length_append] at hlen
  have hlist : Reads (list anyValue) (putList Value.encode c.args) c.args := by
    refine reads_list (by omega) (fun v _ => length_encode_pos v) fun v hv => ?_
    have hle := length_le_length_flatMap_of_mem Value.encode hv
    exact reads_anyValue (hargs v hv) (by omega)
  rw [encode_call]
  refine (reads_varint hnumber).bind ?_
  rw [Action.ofNumber?_number]
  exact hlist.bind_pure (Call.mk c.action)

/-- A call is refused at the first argument that lies too deep. -/
theorem refuses_call {c : Call} (hdeep : ∃ v ∈ c.args, ¬ v.Shallow)
    (hlen : c.encode.length < UInt64.size) : Refuses Call.reader c.encode .tooDeep := by
  have hnumber : c.action.number < UInt64.size := by cases c.action <;> decide
  have hcount : c.args.length ≤ (c.args.flatMap Value.encode).length :=
    length_le_length_flatMap fun v _ => length_encode_pos v
  rw [encode_call, List.length_append, putList, List.length_append] at hlen
  have hshort : ∀ v ∈ c.args, v.encode.length < UInt64.size := fun v hv => by
    have hle := length_le_length_flatMap_of_mem Value.encode hv
    omega
  have harg : ∀ v ∈ c.args, ¬ v.Shallow → Refuses anyValue v.encode .tooDeep := fun v hv hdeep =>
    refuses_value (Value.not_shallow_iff.mp hdeep) (hshort v hv)
  have hlist : Refuses (list anyValue) (putList Value.encode c.args) .tooDeep := by
    refine refuses_list (by omega) (fun v _ => length_encode_pos v) (fun v hv => ?_) ?_
    · by_cases hv' : v.Shallow
      · exact .inl (reads_anyValue hv' (hshort v hv))
      · exact .inr (harg v hv hv')
    · obtain ⟨v, hv, hv'⟩ := hdeep
      exact ⟨v, hv, harg v hv hv'⟩
  rw [encode_call]
  refine (reads_varint hnumber).bind_refuses ?_
  rw [Action.ofNumber?_number]
  have hb := hlist.bind (fun args => pure (Call.mk c.action args)) []
  rwa [List.append_nil] at hb

theorem reads_response {r : Response} (hvalue : r.value.Shallow)
    (hlen : r.encode.length < UInt64.size) : Reads Response.reader r.encode r := by
  rw [Response.encode, List.length_append] at hlen
  have herror := readsBack_string r.error (by omega)
  exact herror.bind ((reads_anyValue hvalue (by omega)).bind_pure (Response.mk r.error))

end Reader

/-! ### The whole format -/

namespace Codec

open Reader

/-- **Values, calls and answers read back.** Of every value whose written form has a length of 64
bits, one in which nothing lies under more than 32 arrays reads back, and whatever is put behind its
written form is told to be too much; any other value is told to lie too deep. Every call and every
answer whose values lie no deeper reads back. -/
theorem round_trip :
    (∀ v : Value, v.encode.length < UInt64.size →
      (v.Shallow → Value.decode v.encode = .ok v ∧
        ∀ t, t ≠ [] → Value.decode (v.encode ++ t) = .error (.trailingBytes t.length)) ∧
      (¬ v.Shallow → Value.decode v.encode = .error .tooDeep)) ∧
    (∀ c : Call, c.encode.length < UInt64.size → (∀ v ∈ c.args, v.Shallow) →
      Call.decode c.encode = .ok c) ∧
    (∀ r : Response, r.encode.length < UInt64.size → r.value.Shallow →
      Response.decode r.encode = .ok r) := by
  refine ⟨fun v hlen => ⟨fun hv => ?_, fun hv => ?_⟩, fun c hlen hargs => ?_, fun r hlen hvalue => ?_⟩
  · have hreads := reads_anyValue hv hlen
    exact ⟨hreads.all, fun t ht => hreads.all_append ht⟩
  · have hdepth : Value.maxDepth + 1 ≤ v.depth := Value.not_shallow_iff.mp hv
    exact (refuses_value hdepth hlen).all
  · exact (reads_call hargs hlen).all
  · exact (reads_response hvalue hlen).all

/-- Arrays of one element in each other. -/
def nested : Nat → Value
  | 0 => .nil
  | n + 1 => .array [nested n]

theorem depth_nested (n : Nat) : (nested n).depth = n := by
  induction n with
  | zero => rfl
  | succ n ih => simp [nested, Value.depth, Value.depthAll, ih]

theorem length_encode_nested (n : Nat) : (nested n).encode.length = 2 * n + 1 := by
  induction n with
  | zero => rfl
  | succ n ih =>
    have hlen : (Varint.encode 1).length = 1 := by simp [Varint.length]
    rw [nested, Value.encode, body_array, putList, List.length_cons, List.length_append,
      List.flatMap_singleton, ih, List.length_singleton, hlen]
    omega

/-- A nest of 32 arrays reads back, alone, in a call and in an answer; one more is too many. -/
theorem round_trip_nested :
    ((nested 32).encode.length < UInt64.size ∧ (nested 32).Shallow ∧
      Value.decode (nested 32).encode = .ok (nested 32) ∧
      Value.decode ((nested 32).encode ++ [1, 2]) = .error (.trailingBytes 2)) ∧
    ((nested 33).encode.length < UInt64.size ∧ ¬ (nested 33).Shallow ∧
      Value.decode (nested 33).encode = .error .tooDeep) ∧
    Call.decode (Call.encode ⟨.send, [.uint 7, nested 32]⟩) = .ok ⟨.send, [.uint 7, nested 32]⟩ ∧
    Response.decode (Response.encode ⟨"", nested 32⟩) = .ok ⟨"", nested 32⟩ := by
  have hlen (n : Nat) (h : n ≤ 33) : (nested n).encode.length < UInt64.size := by
    rw [length_encode_nested]
    unfold UInt64.size
    omega
  have hshallow : (nested 32).Shallow := Value.shallow_iff.mpr (Nat.le_of_eq (depth_nested 32))
  have hdeep : ¬ (nested 33).Shallow := Value.not_shallow_iff.mpr (by rw [depth_nested]; decide)
  obtain ⟨hvalue, hcall, hresponse⟩ := round_trip
  have hread := (hvalue (nested 32) (hlen 32 (by decide))).1 hshallow
  refine ⟨⟨hlen 32 (by decide), hshallow, hread.1, hread.2 [1, 2] (by decide)⟩,
    ⟨hlen 33 (by decide), hdeep, (hvalue (nested 33) (hlen 33 (by decide))).2 hdeep⟩,
    hcall _ ?_ ?_, hresponse _ ?_ hshallow⟩
  · have huint : (Value.uint 7).encode.length = 9 := rfl
    simp [Call.encode, Value.encodeAll_eq, huint, length_encode_nested, Varint.length,
      Action.number, UInt64.size]
  · refine List.forall_mem_cons.mpr ⟨Value.shallow_iff.mpr (by decide), ?_⟩
    exact List.forall_mem_singleton.mpr hshallow
  · simp [Response.encode, putString, length_putBytes, length_encode_nested, Varint.length,
      UInt64.size]

end Codec

end Courier
