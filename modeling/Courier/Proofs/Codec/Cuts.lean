import Mathlib
import Courier.Proofs.Codec.Numbers
import Courier.Proofs.Codec.RoundTrip

/-!
## Byte strings that are cut short

A reader takes its bytes from the front, and none that it has not come to yet can change what it has
made of the others. So more bytes mend a lack of bytes and nothing else: a value that was found stays
found, and any other fault stays where it is. What is read whole can then be cut anywhere, in a tag,
a number, a text, a key or a record within a record, and the part that is left is told to be too
short, before anything else is found wrong with it.

* `Steady.bind`: readers in a row.
* `steady_value`, `steady_call`, `steady_response`: the readers of the format.
* `Steady.all_take`: a part of what is read whole is too short.
* `Codec.cut_short`: the written forms of values, calls and answers.
-/

namespace Courier

namespace Reader

variable {α β : Type}

/-- More bytes change nothing about what a reader makes of some bytes, unless these were too few. -/
def Steady (r : Reader α) : Prop :=
  ∀ bs more, r bs = .error .inputTooShort ∨
    r (bs ++ more) = (r bs).map fun found => (found.1, found.2 ++ more)

theorem steady_pure (a : α) : Steady (pure a) := fun _ _ => .inr rfl

theorem steady_throw (e : CodecError) : Steady (throw e : Reader α) := fun _ _ => .inr rfl

/-- The second reader goes on in the bytes that the first has left. -/
theorem Steady.bind {r : Reader α} {f : α → Reader β} (h : Steady r) (hf : ∀ a, Steady (f a)) :
    Steady (r >>= f) := by
  intro bs more
  show (r bs >>= fun found => f found.1 found.2) = _ ∨
    (r (bs ++ more) >>= fun found => f found.1 found.2) =
      (r bs >>= fun found => f found.1 found.2).map _
  rcases h bs more with hshort | hmore
  · left
    rw [hshort]
    rfl
  · rw [hmore]
    cases hr : r bs with
    | error e => exact .inr rfl
    | ok found => exact hf found.1 found.2 more

theorem Steady.bind_pure {r : Reader α} (h : Steady r) (f : α → β) :
    Steady (r >>= fun a => pure (f a)) :=
  h.bind fun a => steady_pure (f a)

/-- **A part of what is read whole is too short.** -/
theorem Steady.all_take {r : Reader α} (h : Steady r) {bs : Bytes} {a : α}
    (hall : r.all bs = .ok a) {cut : Nat} (hcut : cut < bs.length) :
    r.all (bs.take cut) = .error .inputTooShort := by
  have hsplit := List.take_append_drop cut bs
  have hrest : bs.drop cut ≠ [] := List.ne_nil_of_length_pos (by rw [List.length_drop]; omega)
  rcases h (bs.take cut) (bs.drop cut) with hshort | hmore
  · rw [Reader.all, hshort]
  · -- What was found in the part would be found in the whole, and the cut bytes be left over.
    exfalso
    rw [hsplit] at hmore
    rw [Reader.all, hmore] at hall
    cases hpart : r (bs.take cut) with
    | error e =>
      rw [hpart] at hall
      cases hall
    | ok found =>
      obtain ⟨b, rest, hleft⟩ :=
        List.exists_cons_of_ne_nil (List.append_ne_nil_of_right_ne_nil found.2 hrest)
      simp only [hpart, Except.map, hleft] at hall
      cases hall

/-! ### Numbers and byte strings -/

theorem steady_byte : Steady byte := by
  intro bs more
  cases bs with
  | nil => exact .inl rfl
  | cons b rest => exact .inr rfl

theorem steady_take (n : Nat) : Steady (take n) := by
  intro bs more
  unfold take
  cases htake : Bytes.take? n bs with
  | none => exact .inl rfl
  | some r =>
    obtain ⟨rfl, hlen⟩ := Bytes.take?_eq_some_iff.mp htake
    have hmore : Bytes.take? n (r.1 ++ r.2 ++ more) = some (r.1, r.2 ++ more) :=
      Bytes.take?_eq_some_iff.mpr ⟨List.append_assoc _ _ _, hlen⟩
    right
    rw [hmore]
    rfl

theorem steady_varint : Steady varint := by
  intro bs more
  cases hbs : varint bs with
  | error e =>
    by_cases he : e = .inputTooShort
    · exact .inl (by rw [he])
    · exact .inr (Varint.decode_append_of_error hbs he more)
  | ok found =>
    obtain ⟨x, rfl, hx⟩ := Varint.exists_reads hbs
    right
    rw [List.append_assoc, hx]
    rfl

/-- A count is checked against the bytes that are there, and more bytes only hold it better. -/
theorem steady_count : Steady count := by
  refine Steady.bind steady_varint fun n rest more => ?_
  show (if Bytes.holds n rest then pure n else throw .inputTooShort : Reader Nat) rest = _ ∨
    (if Bytes.holds n (rest ++ more) then pure n else throw .inputTooShort : Reader Nat)
        (rest ++ more) =
      ((if Bytes.holds n rest then pure n else throw .inputTooShort : Reader Nat) rest).map _
  by_cases hholds : Bytes.holds n rest = true
  · have hle := Bytes.holds_iff.mp hholds
    have hmore : Bytes.holds n (rest ++ more) = true :=
      Bytes.holds_iff.mpr (by rw [List.length_append]; omega)
    rw [if_pos hholds, if_pos hmore]
    exact .inr rfl
  · rw [if_neg hholds]
    exact .inl rfl

theorem steady_nat64 : Steady nat64 := Steady.bind_pure (steady_take 8) _

theorem steady_int64 : Steady int64 := Steady.bind_pure steady_nat64 _

theorem steady_bytes : Steady bytes := Steady.bind steady_count steady_take

/-! ### Checked fields -/

theorem steady_string : Steady string := by
  refine Steady.bind steady_bytes fun bs => ?_
  cases Bytes.toString? bs with
  | some s => exact steady_pure _
  | none => exact steady_throw _

theorem steady_lift (r : Except KeyError α) : Steady (lift r) := by
  cases r with
  | ok a => exact steady_pure _
  | error e => exact steady_throw _

theorem steady_publicKey : Steady publicKey := Steady.bind steady_bytes fun _ => steady_lift _

/-! ### Records and lists -/

/-- A record is read once its body is there, so whatever is wrong with its fields is wrong for
good. -/
theorem steady_record (r : Reader α) : Steady (record r) := by
  refine Steady.bind steady_bytes fun body => ?_
  cases r.all body with
  | ok a => exact steady_pure _
  | error e => exact steady_throw _

theorem Steady.times {r : Reader α} (h : Steady r) (n : Nat) : Steady (times r n) := by
  induction n with
  | zero => exact steady_pure []
  | succ n ih => exact h.bind fun a => Steady.bind_pure ih _

theorem Steady.list {r : Reader α} (h : Steady r) : Steady (list r) :=
  Steady.bind steady_count h.times

/-! ### Values, calls and answers -/

theorem steady_value (levels : Nat) : Steady (value levels) := by
  induction levels with
  | zero => exact steady_throw _
  | succ levels ih =>
    refine Steady.bind steady_byte fun tag => ?_
    split
    · exact steady_throw _
    · exact steady_pure _
    · exact Steady.bind_pure steady_int64 _
    · exact Steady.bind_pure steady_nat64 _
    · exact Steady.bind_pure steady_string _
    · exact Steady.bind_pure steady_bytes _
    · exact Steady.bind_pure (Steady.list steady_bytes) _
    · exact Steady.bind_pure (Steady.list ih) _
    · exact Steady.bind_pure steady_publicKey _
    · exact Steady.bind_pure (steady_record contact) _
    · exact Steady.bind_pure (Steady.list (steady_record contact)) _
    · exact Steady.bind_pure (steady_record channel) _
    · exact Steady.bind_pure (Steady.list (steady_record channel)) _
    · exact Steady.bind_pure (steady_record profile) _
    · exact Steady.bind_pure (Steady.list (steady_record profile)) _
    · exact Steady.bind_pure (steady_record peer) _
    · exact Steady.bind_pure (Steady.list (steady_record peer)) _
    · exact Steady.bind_pure (steady_record bundle) _

theorem steady_anyValue : Steady anyValue := steady_value _

theorem steady_call : Steady Call.reader := by
  refine Steady.bind steady_varint fun number => ?_
  cases Action.ofNumber? number with
  | none => exact steady_throw _
  | some action => exact Steady.bind_pure (Steady.list steady_anyValue) _

theorem steady_response : Steady Response.reader :=
  Steady.bind steady_string fun _ => Steady.bind_pure steady_anyValue _

end Reader

/-! ### Written forms -/

namespace Codec

open Reader

/-- **Every cut of a written form is too short.** Of every value in which nothing lies under more
than 32 arrays, and of every call and every answer of such values, if its written form has a length
of 64 bits, each part that is left when the end is cut off is told to be too short, and nothing
else. -/
theorem cut_short :
    (∀ v : Value, v.encode.length < UInt64.size → v.Shallow →
      ∀ cut < v.encode.length, Value.decode (v.encode.take cut) = .error .inputTooShort) ∧
    (∀ c : Call, c.encode.length < UInt64.size → (∀ v ∈ c.args, v.Shallow) →
      ∀ cut < c.encode.length, Call.decode (c.encode.take cut) = .error .inputTooShort) ∧
    (∀ r : Response, r.encode.length < UInt64.size → r.value.Shallow →
      ∀ cut < r.encode.length, Response.decode (r.encode.take cut) = .error .inputTooShort) :=
  ⟨fun _ hlen hv _ hcut => steady_anyValue.all_take (reads_anyValue hv hlen).all hcut,
    fun _ hlen hargs _ hcut => steady_call.all_take (reads_call hargs hlen).all hcut,
    fun _ hlen hvalue _ hcut => steady_response.all_take (reads_response hvalue hlen).all hcut⟩

theorem putBytes_of_lt {bs : Bytes} (h : bs.length < 128) :
    putBytes bs = UInt8.ofNat bs.length :: bs := by
  rw [putBytes, Varint.encode_of_lt h, List.singleton_append]

/-- A peer in an array, cut between the two bytes of a letter of its name; a call, cut before the
count of its arguments; and an answer, cut in a number. -/
theorem cut_short_letter :
    ((Value.array [.peer ⟨"é", true, "m://b", ""⟩]).Shallow ∧
      (Value.array [.peer ⟨"é", true, "m://b", ""⟩]).encode =
        [6, 1, 14, 11, 2, 195, 169, 1, 5, 109, 58, 47, 47, 98, 0] ∧
      Value.decode [6, 1, 14, 11, 2, 195] = .error .inputTooShort) ∧
    (Call.encode ⟨.send, [.string "bob", .bytes [1]]⟩ = [33, 2, 3, 3, 98, 111, 98, 4, 1, 1] ∧
      Call.decode [33] = .error .inputTooShort) ∧
    (Response.encode ⟨"", .uint 7⟩ = [0, 2, 0, 0, 0, 0, 0, 0, 0, 7] ∧
      Response.decode [0, 2, 0, 0, 0] = .error .inputTooShort) := by
  have hempty : putString "" = [0] := putBytes_of_lt (by decide)
  have hvalue : (Value.array [.peer ⟨"é", true, "m://b", ""⟩]).encode =
      [6, 1, 14, 11, 2, 195, 169, 1, 5, 109, 58, 47, 47, 98, 0] := by
    have hname : putString "é" = [2, 195, 169] := putBytes_of_lt (by decide)
    have huri : putString "m://b" = [5, 109, 58, 47, 47, 98] := putBytes_of_lt (by decide)
    rw [Value.encode, body_array, putList, List.flatMap_singleton, Value.encode, Value.body,
      peerBody, hname, huri, hempty, putBytes_of_lt (by decide), Varint.encode_of_lt (by decide)]
    rfl
  have hcall : Call.encode ⟨.send, [.string "bob", .bytes [1]]⟩ =
      [33, 2, 3, 3, 98, 111, 98, 4, 1, 1] := by
    have hname : putString "bob" = [3, 98, 111, 98] := putBytes_of_lt (by decide)
    have hbytes : putBytes [1] = [1, 1] := putBytes_of_lt (by decide)
    rw [Call.encode, Value.encodeAll_eq, List.flatMap_cons, List.flatMap_singleton, Value.encode,
      Value.encode, Value.body, Value.body, hname, hbytes, Varint.encode_of_lt (by decide),
      Varint.encode_of_lt (by decide)]
    rfl
  have hresponse : Response.encode ⟨"", .uint 7⟩ = [0, 2, 0, 0, 0, 0, 0, 0, 0, 7] := by
    rw [Response.encode, hempty]
    rfl
  have hshallow : (Value.array [.peer ⟨"é", true, "m://b", ""⟩]).Shallow :=
    Value.shallow_iff.mpr (by decide)
  have hargs : ∀ v ∈ [Value.string "bob", .bytes [1]], v.Shallow :=
    List.forall_mem_cons.mpr ⟨Value.shallow_iff.mpr (Nat.zero_le _),
      List.forall_mem_singleton.mpr (Value.shallow_iff.mpr (Nat.zero_le _))⟩
  obtain ⟨hvalues, hcalls, hresponses⟩ := cut_short
  refine ⟨⟨hshallow, hvalue, ?_⟩, ⟨hcall, ?_⟩, hresponse, ?_⟩
  · have hcut := hvalues _ (by rw [hvalue]; decide) hshallow 6 (by rw [hvalue]; decide)
    rwa [hvalue] at hcut
  · have hcut := hcalls _ (by rw [hcall]; decide) hargs 1 (by rw [hcall]; decide)
    rwa [hcall] at hcut
  · have hcut := hresponses _ (by rw [hresponse]; decide) (Value.shallow_iff.mpr (Nat.zero_le _))
      5 (by rw [hresponse]; decide)
    rwa [hresponse] at hcut

end Codec

end Courier
