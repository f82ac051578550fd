import Mathlib
import Courier.Proofs.Codec.Spelling

/-!
## The written form is the shortest

Among all byte strings that are read as a thing, the one that is written is the shortest, and the
only one of its length. A padded number makes its own form longer and that of every length around
it no shorter, so the numbers in a thing may be looked at one by one: the forms agree just when no
number can be made shorter.

* `Shortens.append`, `Shortens.counted`: forms put one after the other, and behind their length.
* `Least`: a form is the shortest among the spellings of a thing.
* `Codec.canonical`: values, calls and answers.
-/

namespace Courier

open Codec Reader

/-- A form is no longer than a spelling with these numbers, is the same if they are equally long,
and is the same just if no number can be made shorter. -/
structure Shortens (p : Bytes) (ns : List Bytes) (w : Bytes) : Prop where
  length_le : p.length ≤ w.length
  eq_of_length : w.length ≤ p.length → w = p
  eq_iff : w = p ↔ ∀ x ∈ ns, Varint.Minimal x

namespace Shortens

variable {p q w w' x : Bytes} {ns ns' : List Bytes} {n : Nat}

theorem append (h : Shortens p ns w) (h' : Shortens q ns' w') :
    Shortens (p ++ q) (ns ++ ns') (w ++ w') := by
  have hle := h.length_le
  have hle' := h'.length_le
  have hsplit (hlen : (w ++ w').length ≤ (p ++ q).length) : w = p ∧ w' = q := by
    rw [List.length_append, List.length_append] at hlen
    exact ⟨h.eq_of_length (by omega), h'.eq_of_length (by omega)⟩
  refine ⟨?_, fun hlen => ?_, ?_⟩
  · rw [List.length_append, List.length_append]
    omega
  · obtain ⟨rfl, rfl⟩ := hsplit hlen
    rfl
  · rw [List.forall_mem_append, ← h.eq_iff, ← h'.eq_iff]
    constructor
    · exact fun heq => hsplit (Nat.le_of_eq (congrArg List.length heq))
    · rintro ⟨rfl, rfl⟩
      rfl

theorem number (h : Reads varint x n) : Shortens (Varint.encode n) [x] x := by
  refine ⟨?_, fun hlen => ?_, ?_⟩
  · rw [Varint.length_encode]
    exact Varint.length_le_of_reads h
  · rw [Varint.length_encode] at hlen
    exact Varint.eq_encode_of_reads h (Nat.le_antisymm hlen (Varint.length_le_of_reads h))
  · rw [List.forall_mem_singleton, Varint.minimal_iff h]

/-- A length in front of a form. That of a shorter form is a smaller number, which takes no more
bytes. -/
theorem counted (h : Shortens p ns w) (hx : Reads varint x w.length) :
    Shortens (putBytes p) (x :: ns) (x ++ w) := by
  have hle := h.length_le
  have hmono := Varint.length_mono hle
  have hxle := Varint.length_le_of_reads hx
  -- Neither the length nor the body of the form is longer, so no part can make up for another.
  have hsplit (hlen : (x ++ w).length ≤ (putBytes p).length) :
      w = p ∧ x = Varint.encode w.length := by
    rw [List.length_append, length_putBytes] at hlen
    obtain rfl := h.eq_of_length (by omega)
    exact ⟨rfl, Varint.eq_encode_of_reads hx (by omega)⟩
  have hjoin (hw : w = p) (hx : x = Varint.encode w.length) : x ++ w = putBytes p := by
    rw [hx, hw, putBytes]
  refine ⟨?_, fun hlen => ?_, ?_⟩
  · rw [List.length_append, length_putBytes]
    omega
  · obtain ⟨hw, hx⟩ := hsplit hlen
    exact hjoin hw hx
  · rw [List.forall_mem_cons, Varint.minimal_iff hx, ← h.eq_iff, and_comm]
    constructor
    · exact fun heq => hsplit (Nat.le_of_eq (congrArg List.length heq))
    · rintro ⟨hw, hx⟩
      exact hjoin hw hx

end Shortens

/-- A form is the shortest among the spellings of a thing, and one of them if there is any. -/
structure Least (S : Spelling) (p : Bytes) : Prop where
  spelled {ns : List Bytes} {w : Bytes} (h : S ns w) : ∃ ms, S ms p
  shortens {ns : List Bytes} {w : Bytes} (h : S ns w) : Shortens p ns w

namespace Least

variable {α : Type} {S T : Spelling} {p q : Bytes} {F : α → Spelling} {put : α → Bytes}

theorem fixed (bs : Bytes) : Least (.Fixed bs) bs where
  spelled _ := ⟨[], .mk⟩
  shortens := by
    rintro _ _ ⟨⟩
    exact ⟨Nat.le_refl _, fun _ => rfl, iff_of_true rfl (List.forall_mem_nil _)⟩

theorem number (n : Nat) : Least (.Number n) (Varint.encode n) where
  spelled := by
    rintro _ _ ⟨hx⟩
    exact ⟨_, .mk (reads_varint (Varint.lt_of_reads hx))⟩
  shortens := by
    rintro _ _ ⟨hx⟩
    exact .number hx

theorem pair (h : Least S p) (h' : Least T q) : Least (.Pair S T) (p ++ q) where
  spelled := by
    rintro _ _ ⟨hS, hT⟩
    obtain ⟨ms, hms⟩ := h.spelled hS
    obtain ⟨ms', hms'⟩ := h'.spelled hT
    exact ⟨_, hms, hms'⟩
  shortens := by
    rintro _ _ ⟨hS, hT⟩
    exact (h.shortens hS).append (h'.shortens hT)

theorem counted (h : Least S p) : Least (.Counted S) (putBytes p) where
  spelled := by
    rintro _ _ ⟨hx, hS⟩
    obtain ⟨ms, hms⟩ := h.spelled hS
    have hlt := Nat.lt_of_le_of_lt (h.shortens hS).length_le (Varint.lt_of_reads hx)
    exact ⟨_, reads_varint hlt, hms⟩
  shortens := by
    rintro _ _ ⟨hx, hS⟩
    exact (h.shortens hS).counted hx

theorem each (h : ∀ a, Least (F a) (put a)) (xs : List α) :
    Least (Spelling.each F xs) (xs.flatMap put) := by
  induction xs with
  | nil => exact fixed []
  | cons x xs ih => exact (h x).pair ih

theorem list (h : ∀ a, Least (F a) (put a)) (xs : List α) :
    Least (Spelling.list F xs) (putList put xs) :=
  (number xs.length).pair (each h xs)

/-! ### Fields, records and values -/

theorem bytes (bs : Bytes) : Least (Spelling.bytes bs) (putBytes bs) := (fixed bs).counted

theorem text (s : String) : Least (Spelling.text s) (putString s) := bytes (Bytes.ofString s)

theorem contact (c : Contact) : Least (Spelling.contact c) (contactBody c) :=
  (text c.name).pair (bytes c.publicKey.toBytes)

theorem channel (c : Channel) : Least (Spelling.channel c) (channelBody c) :=
  (text c.name).pair (bytes c.keypair.toBytes)

theorem profile (p : Profile) : Least (Spelling.profile p) (profileBody p) :=
  (text p.name).pair ((fixed (putBool p.enabled)).pair (bytes p.keypair.toBytes))

theorem peer (p : Peer) : Least (Spelling.peer p) (peerBody p) :=
  (text p.name).pair ((fixed (putBool p.enabled)).pair ((text p.uri).pair (text p.group)))

theorem bundle (b : Bundle) : Least (Spelling.bundle b) (bundleBody b) :=
  (bytes b.data).pair (fixed (putInt64 b.time))

/-- **The written form of a value is the shortest of its spellings.** -/
theorem value (levels : Nat) (v : Value) : Least (Spelling.value levels v) v.encode := by
  induction levels generalizing v with
  | zero => exact ⟨fun h => h.elim, fun h => h.elim⟩
  | succ levels ih =>
    have hbody : Least (Spelling.body (Spelling.value levels) v) v.body := by
      cases v with
      | nil => exact fixed []
      | int i => exact fixed (putInt64 i)
      | uint u => exact fixed (Bytes.ofNat 8 u.toNat)
      | string s => exact text s
      | bytes bs => exact bytes bs
      | bytesArray xs => exact list bytes xs
      | array vs =>
        rw [body_array]
        exact list ih vs
      | publicKey p => exact bytes p.toBytes
      | contact c => exact (contact c).counted
      | contacts cs => exact list (fun c => (contact c).counted) cs
      | channel c => exact (channel c).counted
      | channels cs => exact list (fun c => (channel c).counted) cs
      | profile p => exact (profile p).counted
      | profiles ps => exact list (fun p => (profile p).counted) ps
      | peer p => exact (peer p).counted
      | peers ps => exact list (fun p => (peer p).counted) ps
      | bundle b => exact (bundle b).counted
    exact (fixed [v.kind.tag]).pair hbody

theorem call (c : Call) : Least (Spelling.call c) c.encode := by
  rw [encode_call]
  exact (number c.action.number).pair (list (value _) c.args)

theorem response (r : Response) : Least (Spelling.response r) r.encode :=
  (text r.error).pair (value _ r.value)

end Least

namespace Codec

variable {α : Type}

/-- What the written form of a thing is to the byte string it was read off: it reads back, is no
longer, and is the same just if it is as long, which is when no number of variable length in the
byte string can be made shorter. -/
structure Canonical (decode : Bytes → Except CodecError α) (encode : α → Bytes)
    (spelling : α → Spelling) (bs : Bytes) (a : α) : Prop where
  decode_encode : decode (encode a) = .ok a
  length_le : (encode a).length ≤ bs.length
  eq_iff_length : encode a = bs ↔ (encode a).length = bs.length
  exists_numbers : ∃ numbers, spelling a numbers bs
  eq_iff_minimal : ∀ numbers, spelling a numbers bs →
    (encode a = bs ↔ ∀ x ∈ numbers, Varint.Minimal x)

theorem canonical_of_follows {r : Reader α} {S : α → Spelling} {put : α → Bytes}
    (hfollows : Follows r S) (hleast : ∀ a, Least (S a) (put a)) {bs : Bytes} {a : α}
    (h : r.all bs = .ok a) : Canonical r.all put S bs a := by
  obtain ⟨ns, hns⟩ := hfollows.all_eq_ok_iff.mp h
  have hshortens := (hleast a).shortens hns
  refine ⟨hfollows.all_eq_ok_iff.mpr ((hleast a).spelled hns), hshortens.length_le, ?_, ⟨ns, hns⟩,
    fun ms hms => ?_⟩
  · constructor
    · exact congrArg List.length
    · exact fun hlen => (hshortens.eq_of_length (Nat.le_of_eq hlen.symm)).symm
  · rw [eq_comm]
    exact ((hleast a).shortens hms).eq_iff

/-- **The written form is canonical.** Of every byte string that is read as a value, a call or an
answer, the written form reads back as the same, is no longer than the byte string, and is the same
byte string just if it is as long, which is when every number of variable length in the byte string
is as short as it can be. -/
theorem canonical :
    (∀ bs v, Value.decode bs = .ok v →
      Canonical Value.decode Value.encode Spelling.anyValue bs v) ∧
    (∀ bs c, Call.decode bs = .ok c → Canonical Call.decode Call.encode Spelling.call bs c) ∧
    (∀ bs r, Response.decode bs = .ok r →
      Canonical Response.decode Response.encode Spelling.response bs r) :=
  ⟨fun _ _ => canonical_of_follows (follows_value _) (.value _),
    fun _ _ => canonical_of_follows follows_call .call,
    fun _ _ => canonical_of_follows follows_response .response⟩

/-- An array and a byte string with padded lengths; a bundle of 127 bytes that a padded length makes
128 bytes long, so that the length around it takes a byte more, without being padded; and a call and
an answer with padded numbers. -/
theorem canonical_padded :
    (Value.decode [6, 129, 0, 4, 129, 128, 0, 97] = .ok (.array [.bytes [97]]) ∧
      Value.encode (.array [.bytes [97]]) = [6, 1, 4, 1, 97] ∧
      Canonical Value.decode Value.encode Spelling.anyValue [6, 129, 0, 4, 129, 128, 0, 97]
        (.array [.bytes [97]])) ∧
    (Value.decode (16 :: 128 :: 1 :: 246 :: 0 :: (List.replicate 118 7 ++ putInt64 5)) =
        .ok (.bundle ⟨List.replicate 118 7, 5⟩) ∧
      Value.encode (.bundle ⟨List.replicate 118 7, 5⟩) =
        16 :: 127 :: 118 :: (List.replicate 118 7 ++ putInt64 5) ∧
      Canonical Value.decode Value.encode Spelling.anyValue
        (16 :: 128 :: 1 :: 246 :: 0 :: (List.replicate 118 7 ++ putInt64 5))
        (.bundle ⟨List.replicate 118 7, 5⟩)) ∧
    (Call.decode [129, 0, 128, 0] = .ok ⟨.id, []⟩ ∧
      Canonical Call.decode Call.encode Spelling.call [129, 0, 128, 0] ⟨.id, []⟩) ∧
    (Response.decode [128, 0, 0] = .ok ⟨"", .nil⟩ ∧
      Canonical Response.decode Response.encode Spelling.response [128, 0, 0] ⟨"", .nil⟩) := by
  obtain ⟨hvalue, hcall, hresponse⟩ := canonical
  have harray : Value.decode [6, 129, 0, 4, 129, 128, 0, 97] = .ok (.array [.bytes [97]]) := rfl
  have hbundle : Value.decode (16 :: 128 :: 1 :: 246 :: 0 :: (List.replicate 118 7 ++ putInt64 5)) =
      .ok (.bundle ⟨List.replicate 118 7, 5⟩) := by
    set_option maxRecDepth 2000 in rfl
  have hid : Call.decode [129, 0, 128, 0] = .ok ⟨.id, []⟩ := rfl
  have hempty : Response.decode [128, 0, 0] = .ok ⟨"", .nil⟩ := rfl
  refine ⟨⟨harray, ?_, hvalue _ _ harray⟩, ⟨hbundle, ?_, hvalue _ _ hbundle⟩,
    ⟨hid, hcall _ _ hid⟩, ⟨hempty, hresponse _ _ hempty⟩⟩
  · have hone : Varint.encode 1 = [1] := Varint.encode_of_lt (by decide)
    rw [Value.encode, body_array, putList, List.flatMap_singleton, Value.encode, Value.body,
      putBytes, List.length_singleton, List.length_singleton, hone]
    rfl
  · have hdata : putBytes (List.replicate 118 7) = 118 :: List.replicate 118 7 := by
      rw [putBytes, List.length_replicate, Varint.encode_of_lt (by decide)]
      rfl
    have hbody : putBytes (118 :: (List.replicate 118 7 ++ putInt64 5)) =
        127 :: 118 :: (List.replicate 118 7 ++ putInt64 5) := by
      have hlength : (118 :: (List.replicate 118 7 ++ putInt64 5)).length = 127 := rfl
      rw [putBytes, hlength, Varint.encode_of_lt (by decide)]
      rfl
    rw [Value.encode, Value.body, bundleBody, hdata, List.cons_append, hbody]
    rfl

end Codec

end Courier
