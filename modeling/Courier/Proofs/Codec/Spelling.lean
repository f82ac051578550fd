import Mathlib
import Courier.Proofs.Codec.Numbers
import Courier.Proofs.Codec.RoundTrip

/-!
## The byte strings that are read as a value

A reader accepts more than what is written: every number of variable length may be padded. Nothing
else may differ. So a value has one written form for each choice of its numbers, and the readers
take these and nothing else.

* `Spelling`: the forms of a thing, each with the numbers of variable length in it.
* `Follows`: a reader takes just the spellings of what it finds.
* `Follows.bind_eq_ok`, `Follows.record`, `Follows.list`: readers built from others.
* `follows_value`, `follows_call`, `follows_response`: a value, call or answer is read off its
  spellings only, and off each of them.
-/

namespace Courier

open Codec Reader

/-- How a thing may be written: the numbers of variable length in it, in their order, and its
bytes. -/
abbrev Spelling := (numbers : List Bytes) → (written : Bytes) → Prop

namespace Spelling

variable {α : Type}

/-! ### The forms of parts -/

/-- Bytes that may not differ. -/
inductive Fixed (bs : Bytes) : List Bytes → Bytes → Prop
  | mk : Fixed bs [] bs

/-- A number of variable length. -/
inductive Number (n : Nat) : List Bytes → Bytes → Prop
  | mk {x : Bytes} (h : Reads varint x n) : Number n [x] x

/-- One thing after another. -/
inductive Pair (S T : Spelling) : List Bytes → Bytes → Prop
  | mk {ns ns' : List Bytes} {w w' : Bytes} (left : S ns w) (right : T ns' w') :
    Pair S T (ns ++ ns') (w ++ w')

/-- A thing behind its length in bytes. The length is that of this form of the thing, in which its
own numbers count as they are spelled. -/
inductive Counted (S : Spelling) : List Bytes → Bytes → Prop
  | mk {ns : List Bytes} {x w : Bytes} (count : Reads varint x w.length) (body : S ns w) :
    Counted S (x :: ns) (x ++ w)

/-- Things one after the other. -/
def each (S : α → Spelling) : List α → Spelling
  | [] => Fixed []
  | x :: xs => Pair (S x) (each S xs)

/-- A counted list. -/
def list (S : α → Spelling) (xs : List α) : Spelling := Pair (Number xs.length) (each S xs)

/-- A counted byte string. -/
def bytes (bs : Bytes) : Spelling := Counted (Fixed bs)

/-- A counted text. -/
def text (s : String) : Spelling := bytes (Bytes.ofString s)

/-! ### The forms of records and values -/

/-- The fields of a contact. -/
def contact (c : Contact) : Spelling := Pair (text c.name) (bytes c.publicKey.toBytes)

/-- The fields of a channel. -/
def channel (c : Channel) : Spelling := Pair (text c.name) (bytes c.keypair.toBytes)

/-- The fields of a profile. -/
def profile (p : Profile) : Spelling :=
  Pair (text p.name) (Pair (Fixed (putBool p.enabled)) (bytes p.keypair.toBytes))

/-- The fields of a peer. -/
def peer (p : Peer) : Spelling :=
  Pair (text p.name) (Pair (Fixed (putBool p.enabled)) (Pair (text p.uri) (text p.group)))

/-- The fields of a bundle. -/
def bundle (b : Bundle) : Spelling := Pair (bytes b.data) (Fixed (putInt64 b.time))

/-- What comes after the tag of a value, by the forms of the elements of an array. -/
def body (element : Value → Spelling) : Value → Spelling
  | .nil => Fixed []
  | .int i => Fixed (putInt64 i)
  | .uint u => Fixed (Bytes.ofNat 8 u.toNat)
  | .string s => text s
  | .bytes bs => bytes bs
  | .bytesArray xs => list bytes xs
  | .array vs => list element vs
  | .publicKey p => bytes p.toBytes
  | .contact c => Counted (contact c)
  | .contacts cs => list (fun c => Counted (contact c)) cs
  | .channel c => Counted (channel c)
  | .channels cs => list (fun c => Counted (channel c)) cs
  | .profile p => Counted (profile p)
  | .profiles ps => list (fun p => Counted (profile p)) ps
  | .peer p => Counted (peer p)
  | .peers ps => list (fun p => Counted (peer p)) ps
  | .bundle b => Counted (bundle b)

/-- A value in which arrays are nested less deep than the given number of levels. -/
def value : (levels : Nat) → Value → Spelling
  | 0, _ => fun _ _ => False
  | levels + 1, v => Pair (Fixed [v.kind.tag]) (body (value levels) v)

/-- A value nested in no more arrays than allowed. -/
def anyValue : Value → Spelling := value (Value.maxDepth + 1)

/-- A call. -/
def call (c : Call) : Spelling := Pair (Number c.action.number) (list anyValue c.args)

/-- An answer. -/
def response (r : Response) : Spelling := Pair (text r.error) (anyValue r.value)

theorem Fixed.of_eq {bs w : Bytes} (h : bs = w) : Fixed bs [] w := h ▸ .mk

theorem Counted.length_pos {S : Spelling} {ns : List Bytes} {w : Bytes} (h : Counted S ns w) :
    0 < w.length := by
  obtain ⟨hcount, -⟩ := h
  have hx := Nat.lt_of_lt_of_le (Varint.length_pos _) (Varint.length_le_of_reads hcount)
  rw [List.length_append]
  omega

theorem length_value_pos {levels : Nat} {v : Value} {ns : List Bytes} {w : Bytes}
    (h : value levels v ns w) : 0 < w.length := by
  cases levels with
  | zero => cases h
  | succ levels =>
    obtain ⟨⟨⟩, -⟩ := h
    exact Nat.succ_pos _

end Spelling

namespace Reader

variable {α β : Type} {r : Reader α} {S : α → Spelling} {bs rest : Bytes} {a : α}

theorem bind_eq_ok {f : α → Reader β} {b : β} (h : (r >>= f) bs = .ok (b, rest)) :
    ∃ a left, r bs = .ok (a, left) ∧ f a left = .ok (b, rest) := by
  have hbind : (r bs >>= fun p => f p.1 p.2) = .ok (b, rest) := h
  cases hr : r bs with
  | error e =>
    rw [hr] at hbind
    cases hbind
  | ok p =>
    rw [hr] at hbind
    exact ⟨p.1, p.2, rfl, hbind⟩

/-- A reader takes the spellings of what it finds and nothing else. -/
structure Follows (r : Reader α) (S : α → Spelling) : Prop where
  spelled {bs rest : Bytes} {a : α} (h : r bs = .ok (a, rest)) :
    ∃ ns w, S a ns w ∧ bs = w ++ rest
  reads {ns : List Bytes} {w : Bytes} {a : α} (h : S a ns w) : Reads r w a

theorem Follows.all_eq_ok_iff (h : Follows r S) : r.all bs = .ok a ↔ ∃ ns, S a ns bs := by
  constructor
  · intro hall
    unfold Reader.all at hall
    split at hall
    · cases hall
    · rename_i hr
      obtain rfl := Except.ok.inj hall
      obtain ⟨ns, w, hw, rfl⟩ := h.spelled hr
      rw [List.append_nil]
      exact ⟨ns, hw⟩
    · cases hall
  · rintro ⟨ns, hw⟩
    exact (h.reads hw).all

/-- The second reader goes on behind a spelling of what the first has found. -/
theorem Follows.bind_eq_ok (h : Follows r S) {f : α → Reader β} {b : β}
    (hr : (r >>= f) bs = .ok (b, rest)) :
    ∃ a ns w left, S a ns w ∧ bs = w ++ left ∧ f a left = .ok (b, rest) := by
  obtain ⟨a, left, ha, hb⟩ := Reader.bind_eq_ok hr
  obtain ⟨ns, w, hw, rfl⟩ := h.spelled ha
  exact ⟨a, ns, w, left, hw, rfl, hb⟩

/-- What is found is put into a larger thing. -/
theorem Follows.bind_pure_eq_ok (h : Follows r S) {f : α → β} {b : β}
    (hr : (r >>= fun a => pure (f a)) bs = .ok (b, rest)) :
    ∃ a ns w, S a ns w ∧ bs = w ++ rest ∧ f a = b := by
  obtain ⟨a, ns, w, left, hw, rfl, hb⟩ := h.bind_eq_ok hr
  cases hb
  exact ⟨a, ns, w, hw, rfl, rfl⟩

/-! ### Parts -/

theorem take_eq_ok {n : Nat} {front : Bytes} (h : take n bs = .ok (front, rest)) :
    bs = front ++ rest ∧ front.length = n := by
  unfold take at h
  split at h
  · cases h
  · rename_i htake
    cases h
    exact Bytes.take?_eq_some_iff.mp htake

theorem count_eq_ok {n : Nat} (h : count bs = .ok (n, rest)) :
    ∃ x, Reads varint x n ∧ bs = x ++ rest := by
  obtain ⟨m, left, hm, hrest⟩ := bind_eq_ok h
  obtain ⟨x, rfl, hx⟩ := Varint.exists_reads hm
  have hcheck : (if Bytes.holds m left then pure m else throw .inputTooShort : Reader Nat) left =
      .ok (n, rest) := hrest
  split at hcheck
  · cases hcheck
    exact ⟨x, hx, rfl⟩
  · cases hcheck

theorem follows_bytes : Follows bytes Spelling.bytes where
  spelled {bs rest a} h := by
    obtain ⟨n, left, hn, htake⟩ := bind_eq_ok h
    obtain ⟨x, hx, rfl⟩ := count_eq_ok hn
    obtain ⟨rfl, rfl⟩ := take_eq_ok htake
    exact ⟨[x], x ++ a, ⟨hx, .mk⟩, (List.append_assoc _ _ _).symm⟩
  reads := by
    rintro _ _ a ⟨hx, ⟨⟩⟩
    exact Reads.count_bind hx (Nat.le_refl _) (reads_take a)

/-- A byte string that is checked once it is read, of which one only passes as the thing. -/
theorem follows_checked {check : Bytes → Reader α} {put : α → Bytes}
    (h : ∀ bs a rest left, check bs rest = .ok (a, left) ↔ bs = put a ∧ rest = left) :
    Follows (bytes >>= check) fun a => Spelling.bytes (put a) where
  spelled {bs rest a} hr := by
    obtain ⟨cs, left, hcs, hcheck⟩ := bind_eq_ok hr
    obtain ⟨rfl, rfl⟩ := (h _ _ _ _).mp hcheck
    exact follows_bytes.spelled hcs
  reads {ns w a} hw := by
    refine (follows_bytes.reads hw).bind_nil fun rest => ?_
    exact (h _ _ _ _).mpr ⟨rfl, rfl⟩

theorem follows_string : Follows string Spelling.text := by
  refine follows_checked fun bs s rest left => ?_
  cases hs : Bytes.toString? bs with
  | none =>
    refine ⟨fun h => (by cases h), fun h => ?_⟩
    rw [h.1, Bytes.toString?_ofString] at hs
    cases hs
  | some t =>
    obtain rfl := Bytes.toString?_eq_some_iff.mp hs
    constructor
    · intro h
      cases h
      exact ⟨rfl, rfl⟩
    · rintro ⟨h, rfl⟩
      rw [h, Bytes.toString?_ofString] at hs
      cases hs
      rfl

theorem lift_eq_ok_iff {e : Except KeyError α} {left : Bytes} :
    lift e rest = .ok (a, left) ↔ e = .ok a ∧ rest = left := by
  cases e with
  | error e =>
    constructor
    · intro h
      cases h
    · rintro ⟨h, -⟩
      cases h
  | ok b =>
    constructor
    · intro h
      cases h
      exact ⟨rfl, rfl⟩
    · rintro ⟨h, rfl⟩
      cases h
      rfl

theorem follows_publicKey : Follows publicKey fun p => Spelling.bytes p.toBytes := by
  refine follows_checked fun bs p rest left => lift_eq_ok_iff.trans (and_congr_left' ?_)
  constructor
  · exact PublicKey.eq_toBytes_of_ofBytes
  · rintro rfl
    exact PublicKey.ofBytes_toBytes p

theorem follows_keypair : Follows keypair fun k => Spelling.bytes k.toBytes := by
  refine follows_checked fun bs k rest left => lift_eq_ok_iff.trans (and_congr_left' ?_)
  constructor
  · exact Keypair.eq_toBytes_of_ofBytes
  · rintro rfl
    exact Keypair.ofBytes_toBytes k

theorem byte_eq_ok {b : UInt8} (h : byte bs = .ok (b, rest)) : bs = b :: rest := by
  cases bs with
  | nil => cases h
  | cons c bs =>
    cases h
    rfl

theorem follows_bool : Follows bool fun b => .Fixed (putBool b) where
  spelled {bs rest b} h := by
    obtain ⟨c, left, hc, hrest⟩ := bind_eq_ok h
    obtain rfl := byte_eq_ok hc
    split at hrest
    · rename_i hzero
      cases hrest
      exact ⟨[], [c], hzero ▸ .mk, rfl⟩
    · split at hrest
      · rename_i hone
        cases hrest
        exact ⟨[], [c], hone ▸ .mk, rfl⟩
      · cases hrest
  reads := by
    rintro _ _ b ⟨⟩
    exact reads_bool b

theorem follows_nat64 :
    Follows nat64 fun n ns w => n < UInt64.size ∧ Spelling.Fixed (Bytes.ofNat 8 n) ns w where
  spelled {bs rest n} h := by
    obtain ⟨cs, left, hcs, hleft⟩ := bind_eq_ok h
    obtain ⟨rfl, hlen⟩ := take_eq_ok hcs
    cases hleft
    have hof := Bytes.ofNat_toNat cs
    have hlt := Bytes.toNat_lt cs
    rw [hlen] at hof hlt
    exact ⟨[], cs, ⟨hlt, .of_eq hof⟩, rfl⟩
  reads := by
    rintro _ _ n ⟨hlt, ⟨⟩⟩
    exact reads_nat64 hlt

theorem follows_int64 : Follows int64 fun i => .Fixed (putInt64 i) where
  spelled {bs rest i} h := by
    obtain ⟨n, _, _, ⟨hlt, ⟨⟩⟩, rfl, rfl⟩ := follows_nat64.bind_pure_eq_ok h
    have hnat : (UInt64.ofNat n).toNat = n := UInt64.toNat_ofNat_of_lt hlt
    exact ⟨[], _, .of_eq (congrArg (Bytes.ofNat 8) hnat), rfl⟩
  reads := by
    rintro _ _ i ⟨⟩
    exact reads_int64 i

/-! ### Records and lists -/

/-- A body that is read in full is counted in the record. -/
theorem Follows.record (h : Follows r S) : Follows (record r) fun a => .Counted (S a) where
  spelled {bs rest a} hr := by
    obtain ⟨cs, _, _, left, ⟨hx, ⟨⟩⟩, rfl, hbody⟩ := follows_bytes.bind_eq_ok hr
    cases hall : r.all cs with
    | error e =>
      rw [hall] at hbody
      cases hbody
    | ok b =>
      rw [hall] at hbody
      cases hbody
      obtain ⟨ns, hw⟩ := h.all_eq_ok_iff.mp hall
      exact ⟨_, _, ⟨hx, hw⟩, rfl⟩
  reads := by
    rintro _ _ a ⟨hx, hw⟩
    refine (follows_bytes.reads ⟨hx, .mk⟩).bind_nil ?_
    rw [h.all_eq_ok_iff.mpr ⟨_, hw⟩]
    exact reads_pure a

theorem Follows.exists_each_of_times (h : Follows r S) {n : Nat} {xs : List α}
    (hr : times r n bs = .ok (xs, rest)) :
    ∃ ns w, xs.length = n ∧ Spelling.each S xs ns w ∧ bs = w ++ rest := by
  induction n generalizing bs xs with
  | zero =>
    cases hr
    exact ⟨[], [], rfl, .mk, rfl⟩
  | succ n ih =>
    obtain ⟨x, ns, w, left, hx, rfl, hleft⟩ := h.bind_eq_ok hr
    obtain ⟨ys, left', hys, hrest⟩ := Reader.bind_eq_ok hleft
    cases hrest
    obtain ⟨ns', w', rfl, hw', rfl⟩ := ih hys
    exact ⟨ns ++ ns', w ++ w', rfl, ⟨hx, hw'⟩, (List.append_assoc _ _ _).symm⟩

theorem Follows.reads_times (h : Follows r S) {ns : List Bytes} {w : Bytes} {xs : List α}
    (hw : Spelling.each S xs ns w) : Reads (times r xs.length) w xs := by
  induction xs generalizing ns w with
  | nil =>
    obtain ⟨⟩ := hw
    exact reads_pure []
  | cons x xs ih =>
    obtain ⟨hx, hxs⟩ := hw
    exact (h.reads hx).bind ((ih hxs).bind_pure (x :: ·))

theorem length_le_of_each (hpos : ∀ {a ns w}, S a ns w → 0 < w.length) {ns : List Bytes}
    {w : Bytes} {xs : List α} (hw : Spelling.each S xs ns w) : xs.length ≤ w.length := by
  induction xs generalizing ns w with
  | nil => exact Nat.zero_le _
  | cons x xs ih =>
    obtain ⟨hx, hxs⟩ := hw
    have hfirst := hpos hx
    have hrest := ih hxs
    rw [List.length_cons, List.length_append]
    omega

/-- A count of elements is refused where it exceeds the bytes left, so no element may be empty. -/
theorem Follows.list (h : Follows r S) (hpos : ∀ {a ns w}, S a ns w → 0 < w.length) :
    Follows (list r) (Spelling.list S) where
  spelled {bs rest xs} hr := by
    obtain ⟨n, left, hn, hxs⟩ := Reader.bind_eq_ok hr
    obtain ⟨x, hx, rfl⟩ := count_eq_ok hn
    obtain ⟨ns, w, rfl, hw, rfl⟩ := h.exists_each_of_times hxs
    exact ⟨_, _, ⟨⟨hx⟩, hw⟩, (List.append_assoc _ _ _).symm⟩
  reads := by
    rintro _ _ xs ⟨⟨hx⟩, hw⟩
    exact Reads.count_bind hx (length_le_of_each hpos hw) (h.reads_times hw)

theorem Follows.records (h : Follows r S) :
    Follows (Reader.list (Reader.record r)) (Spelling.list fun a => .Counted (S a)) :=
  h.record.list Spelling.Counted.length_pos

theorem follows_contact : Follows contact Spelling.contact where
  spelled {bs rest c} h := by
    obtain ⟨name, ns, w, left, hname, rfl, hleft⟩ := follows_string.bind_eq_ok h
    obtain ⟨key, ns', w', hkey, rfl, rfl⟩ := follows_publicKey.bind_pure_eq_ok hleft
    exact ⟨_, _, ⟨hname, hkey⟩, (List.append_assoc _ _ _).symm⟩
  reads := by
    rintro _ _ c ⟨hname, hkey⟩
    exact (follows_string.reads hname).bind
      ((follows_publicKey.reads hkey).bind_pure (Contact.mk c.name))

theorem follows_channel : Follows channel Spelling.channel where
  spelled {bs rest c} h := by
    obtain ⟨name, ns, w, left, hname, rfl, hleft⟩ := follows_string.bind_eq_ok h
    obtain ⟨pair, ns', w', hpair, rfl, rfl⟩ := follows_keypair.bind_pure_eq_ok hleft
    exact ⟨_, _, ⟨hname, hpair⟩, (List.append_assoc _ _ _).symm⟩
  reads := by
    rintro _ _ c ⟨hname, hpair⟩
    exact (follows_string.reads hname).bind
      ((follows_keypair.reads hpair).bind_pure (Channel.mk c.name))

theorem follows_profile : Follows profile Spelling.profile where
  spelled {bs rest p} h := by
    obtain ⟨name, ns, w, left, hname, rfl, hleft⟩ := follows_string.bind_eq_ok h
    obtain ⟨enabled, ns', w', left', henabled, rfl, hleft'⟩ := follows_bool.bind_eq_ok hleft
    obtain ⟨pair, ns'', w'', hpair, rfl, rfl⟩ := follows_keypair.bind_pure_eq_ok hleft'
    exact ⟨_, _, ⟨hname, henabled, hpair⟩, by simp only [List.append_assoc]⟩
  reads := by
    rintro _ _ p ⟨hname, henabled, hpair⟩
    exact (follows_string.reads hname).bind ((follows_bool.reads henabled).bind
      ((follows_keypair.reads hpair).bind_pure (Profile.mk p.name p.enabled)))

theorem follows_peer : Follows peer Spelling.peer where
  spelled {bs rest p} h := by
    obtain ⟨name, ns, w, left, hname, rfl, hleft⟩ := follows_string.bind_eq_ok h
    obtain ⟨enabled, ns', w', left', henabled, rfl, hleft'⟩ := follows_bool.bind_eq_ok hleft
    obtain ⟨uri, ms, x, left'', huri, rfl, hleft''⟩ := follows_string.bind_eq_ok hleft'
    obtain ⟨group, ms', x', hgroup, rfl, rfl⟩ := follows_string.bind_pure_eq_ok hleft''
    exact ⟨_, _, ⟨hname, henabled, huri, hgroup⟩, by simp only [List.append_assoc]⟩
  reads := by
    rintro _ _ p ⟨hname, henabled, huri, hgroup⟩
    exact (follows_string.reads hname).bind ((follows_bool.reads henabled).bind
      ((follows_string.reads huri).bind
        ((follows_string.reads hgroup).bind_pure (Peer.mk p.name p.enabled p.uri))))

theorem follows_bundle : Follows bundle Spelling.bundle where
  spelled {bs rest b} h := by
    obtain ⟨data, ns, w, left, hdata, rfl, hleft⟩ := follows_bytes.bind_eq_ok h
    obtain ⟨time, ns', w', htime, rfl, rfl⟩ := follows_int64.bind_pure_eq_ok hleft
    exact ⟨_, _, ⟨hdata, htime⟩, (List.append_assoc _ _ _).symm⟩
  reads := by
    rintro _ _ b ⟨hdata, htime⟩
    exact (follows_bytes.reads hdata).bind
      ((follows_int64.reads htime).bind_pure (Bundle.mk b.data))

/-! ### Values, calls and answers -/

/-- A body behind a tag, which is one of the fields of a value. -/
theorem Follows.exists_value_of_bind_pure (h : Follows r S) {mk : α → Value} {levels : Nat}
    {k : Kind} {v : Value} (hmk : ∀ a, (mk a).kind = k ∧
      Spelling.body (Spelling.value levels) (mk a) = S a)
    (hr : (r >>= fun a => pure (mk a)) bs = .ok (v, rest)) :
    ∃ ns w, Spelling.value (levels + 1) v ns w ∧ k.tag :: bs = w ++ rest := by
  obtain ⟨a, ns, w, hw, rfl, rfl⟩ := h.bind_pure_eq_ok hr
  obtain ⟨rfl, hbody⟩ := hmk a
  rw [← hbody] at hw
  exact ⟨_, _, ⟨.mk, hw⟩, rfl⟩

/-- **A value is read off its spellings and nothing else.** -/
theorem follows_value (levels : Nat) : Follows (value levels) (Spelling.value levels) := by
  induction levels with
  | zero => exact ⟨fun h => (by cases h), fun h => h.elim⟩
  | succ levels ih =>
    have hvalues := ih.list Spelling.length_value_pos
    have hbytes := follows_bytes.list Spelling.Counted.length_pos
    refine ⟨fun {bs rest v} h => ?_, ?_⟩
    · obtain ⟨tag, left, htag, hleft⟩ := bind_eq_ok h
      obtain rfl := byte_eq_ok htag
      cases hkind : Kind.ofTag? tag with
      | none =>
        rw [hkind] at hleft
        cases hleft
      | some k =>
        obtain rfl := Kind.eq_tag_of_ofTag? hkind
        rw [hkind] at hleft
        cases k with
        | nil =>
          cases hleft
          exact ⟨_, _, ⟨.mk, .mk⟩, rfl⟩
        | int => exact follows_int64.exists_value_of_bind_pure (fun _ => ⟨rfl, rfl⟩) hleft
        | uint =>
          -- Eight bytes stay below 64 bits, so the number is not cut off.
          obtain ⟨n, _, _, ⟨hlt, ⟨⟩⟩, rfl, rfl⟩ := follows_nat64.bind_pure_eq_ok hleft
          have hnat : (UInt64.ofNat n).toNat = n := UInt64.toNat_ofNat_of_lt hlt
          have hbody : Spelling.body (Spelling.value levels) (.uint (UInt64.ofNat n)) []
              (Bytes.ofNat 8 n) := .of_eq (by rw [hnat])
          exact ⟨_, _, ⟨.mk, hbody⟩, rfl⟩
        | string => exact follows_string.exists_value_of_bind_pure (fun _ => ⟨rfl, rfl⟩) hleft
        | bytes => exact follows_bytes.exists_value_of_bind_pure (fun _ => ⟨rfl, rfl⟩) hleft
        | bytesArray => exact hbytes.exists_value_of_bind_pure (fun _ => ⟨rfl, rfl⟩) hleft
        | array => exact hvalues.exists_value_of_bind_pure (fun _ => ⟨rfl, rfl⟩) hleft
        | publicKey =>
          exact follows_publicKey.exists_value_of_bind_pure (fun _ => ⟨rfl, rfl⟩) hleft
        | contact =>
          exact follows_contact.record.exists_value_of_bind_pure (fun _ => ⟨rfl, rfl⟩) hleft
        | contactArray =>
          exact follows_contact.records.exists_value_of_bind_pure (fun _ => ⟨rfl, rfl⟩) hleft
        | channel =>
          exact follows_channel.record.exists_value_of_bind_pure (fun _ => ⟨rfl, rfl⟩) hleft
        | channelArray =>
          exact follows_channel.records.exists_value_of_bind_pure (fun _ => ⟨rfl, rfl⟩) hleft
        | profile =>
          exact follows_profile.record.exists_value_of_bind_pure (fun _ => ⟨rfl, rfl⟩) hleft
        | profileArray =>
          exact follows_profile.records.exists_value_of_bind_pure (fun _ => ⟨rfl, rfl⟩) hleft
        | peer => exact follows_peer.record.exists_value_of_bind_pure (fun _ => ⟨rfl, rfl⟩) hleft
        | peerArray =>
          exact follows_peer.records.exists_value_of_bind_pure (fun _ => ⟨rfl, rfl⟩) hleft
        | bundle =>
          exact follows_bundle.record.exists_value_of_bind_pure (fun _ => ⟨rfl, rfl⟩) hleft
    · rintro _ _ v ⟨⟨⟩, hbody⟩ rest
      cases v with
      | nil =>
        obtain ⟨⟩ := hbody
        rfl
      | int i => exact (follows_int64.reads hbody).bind_pure Value.int rest
      | uint u =>
        have hread := (follows_nat64.reads ⟨u.toNat_lt, hbody⟩).bind_pure fun n =>
          Value.uint (UInt64.ofNat n)
        rw [UInt64.ofNat_toNat] at hread
        exact hread rest
      | string s => exact (follows_string.reads hbody).bind_pure Value.string rest
      | bytes bs => exact (follows_bytes.reads hbody).bind_pure Value.bytes rest
      | bytesArray xs => exact (hbytes.reads hbody).bind_pure Value.bytesArray rest
      | array vs => exact (hvalues.reads hbody).bind_pure Value.array rest
      | publicKey p => exact (follows_publicKey.reads hbody).bind_pure Value.publicKey rest
      | contact c => exact (follows_contact.record.reads hbody).bind_pure Value.contact rest
      | contacts cs => exact (follows_contact.records.reads hbody).bind_pure Value.contacts rest
      | channel c => exact (follows_channel.record.reads hbody).bind_pure Value.channel rest
      | channels cs => exact (follows_channel.records.reads hbody).bind_pure Value.channels rest
      | profile p => exact (follows_profile.record.reads hbody).bind_pure Value.profile rest
      | profiles ps => exact (follows_profile.records.reads hbody).bind_pure Value.profiles rest
      | peer p => exact (follows_peer.record.reads hbody).bind_pure Value.peer rest
      | peers ps => exact (follows_peer.records.reads hbody).bind_pure Value.peers rest
      | bundle b => exact (follows_bundle.record.reads hbody).bind_pure Value.bundle rest

/-- **A call is read off its spellings and nothing else.** -/
theorem follows_call : Follows Call.reader Spelling.call where
  spelled {bs rest c} h := by
    obtain ⟨n, left, hn, hleft⟩ := bind_eq_ok h
    obtain ⟨x, rfl, hx⟩ := Varint.exists_reads hn
    cases haction : Action.ofNumber? n with
    | none =>
      rw [haction] at hleft
      cases hleft
    | some action =>
      rw [haction] at hleft
      obtain rfl := Action.eq_number_of_ofNumber? haction
      obtain ⟨args, ns, w, hargs, rfl, rfl⟩ :=
        ((follows_value _).list Spelling.length_value_pos).bind_pure_eq_ok hleft
      exact ⟨_, _, ⟨⟨hx⟩, hargs⟩, (List.append_assoc _ _ _).symm⟩
  reads := by
    rintro _ _ c ⟨⟨hx⟩, hargs⟩
    refine hx.bind ?_
    rw [Action.ofNumber?_number]
    exact (((follows_value _).list Spelling.length_value_pos).reads hargs).bind_pure
      (Call.mk c.action)

/-- **An answer is read off its spellings and nothing else.** -/
theorem follows_response : Follows Response.reader Spelling.response where
  spelled {bs rest r} h := by
    obtain ⟨error, ns, w, left, herror, rfl, hleft⟩ := follows_string.bind_eq_ok h
    obtain ⟨v, ns', w', hv, rfl, rfl⟩ := (follows_value _).bind_pure_eq_ok hleft
    exact ⟨_, _, ⟨herror, hv⟩, (List.append_assoc _ _ _).symm⟩
  reads := by
    rintro _ _ r ⟨herror, hv⟩
    exact (follows_string.reads herror).bind
      (((follows_value _).reads hv).bind_pure (Response.mk r.error))

end Reader

end Courier
