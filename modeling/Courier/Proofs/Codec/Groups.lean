import Mathlib
import Courier.Proofs.Codec.Numbers

/-!
## Numbers by their groups

What a reader of numbers says of some bytes can be told from the bytes themselves. Either they end
before the number does, or the number takes more than 64 bits, or the bytes up to the first one without
the top bit are read as digits to the base 128, the least significant digit first.

* `Unfinished`, `TooLarge`, `Whole`: the three ways in which bytes can begin.
* `decodeWithin_cons_of_continues`: one group, for the numbers and the faults alike.
* `unfinished_or_tooLarge_or_whole`: every byte string begins in one of these ways.
* `written_and_read`: written forms read back and are the shortest, and every byte string is read by
  the way in which it begins.
-/

namespace Courier.Varint

variable {left : Nat} {b : UInt8} {bs x rest : Bytes}

/-- Whether a further group follows on the one in a byte. -/
def Continues (b : UInt8) : Prop := 128 ≤ b.toNat

instance : DecidablePred Continues := fun b => Nat.decLe 128 b.toNat

/-- The number in some bytes, of which each holds a digit to the base 128 in its lowest bits. -/
def value (x : Bytes) : Nat := Nat.ofDigits 128 (x.map fun b => b.toNat % 128)

theorem value_cons (b : UInt8) (x : Bytes) : value (b :: x) = b.toNat % 128 + 128 * value x :=
  Nat.ofDigits_cons

/-- A byte that ends a number is its own digit. -/
theorem value_singleton (h : ¬Continues b) : value [b] = b.toNat := by
  rw [Continues, Nat.not_le] at h
  rw [value, List.map_singleton, Nat.ofDigits_singleton, Nat.mod_eq_of_lt h]

/-! ### How bytes can begin -/

/-- Bytes that end before a number of at most `left + 1` bytes does. -/
def Unfinished (left : Nat) (bs : Bytes) : Prop := bs.length ≤ left ∧ ∀ b ∈ bs, Continues b

/-- Bytes that begin with `left` groups upon which others follow, where the next byte is more than the
one bit that is left for it. -/
def TooLarge (left : Nat) (bs : Bytes) : Prop :=
  (∀ b ∈ bs.take left, Continues b) ∧ ∃ b, bs[left]? = some b ∧ 1 < b.toNat

/-- The bytes of one whole number: at most `left` of them are followed by another, and a byte behind
so many holds no more than one bit. -/
def Whole (left : Nat) (x : Bytes) : Prop :=
  ∃ groups last, x = groups ++ [last] ∧ (∀ b ∈ groups, Continues b) ∧ ¬Continues last ∧
    groups.length ≤ left ∧ (groups.length = left → last.toNat ≤ 1)

theorem unfinished_cons (h : Unfinished left bs) (hb : Continues b) :
    Unfinished (left + 1) (b :: bs) :=
  ⟨Nat.succ_le_succ h.1, List.forall_mem_cons.mpr ⟨hb, h.2⟩⟩

theorem tooLarge_cons (h : TooLarge left bs) (hb : Continues b) : TooLarge (left + 1) (b :: bs) :=
  ⟨List.forall_mem_cons.mpr ⟨hb, h.1⟩, h.2⟩

theorem whole_cons (h : Whole left x) (hb : Continues b) : Whole (left + 1) (b :: x) := by
  obtain ⟨groups, last, rfl, hgroups, hlast, hlength, hbit⟩ := h
  exact ⟨b :: groups, last, rfl, List.forall_mem_cons.mpr ⟨hb, hgroups⟩, hlast,
    Nat.succ_le_succ hlength, fun heq => hbit (Nat.succ.inj heq)⟩

/-- **Every byte string begins in one of three ways.** -/
theorem unfinished_or_tooLarge_or_whole (left : Nat) (bs : Bytes) :
    Unfinished left bs ∨ TooLarge left bs ∨ ∃ x rest, bs = x ++ rest ∧ Whole left x := by
  induction left generalizing bs with
  | zero =>
    cases bs with
    | nil => exact .inl ⟨Nat.le_refl 0, List.forall_mem_nil _⟩
    | cons b bs =>
      -- There is room for one bit, so the first byte decides.
      rcases Nat.lt_or_ge 1 b.toNat with hlarge | hbit
      · exact .inr (.inl ⟨List.forall_mem_nil _, b, rfl, hlarge⟩)
      · have hlast : ¬Continues b := by
          rw [Continues]
          omega
        exact .inr (.inr ⟨[b], bs, rfl, [], b, rfl, List.forall_mem_nil _, hlast, Nat.le_refl 0,
          fun _ => hbit⟩)
  | succ left ih =>
    cases bs with
    | nil => exact .inl ⟨Nat.zero_le _, List.forall_mem_nil _⟩
    | cons b bs =>
      by_cases hb : Continues b
      · rcases ih bs with hshort | hlarge | ⟨x, rest, rfl, hx⟩
        · exact .inl (unfinished_cons hshort hb)
        · exact .inr (.inl (tooLarge_cons hlarge hb))
        · exact .inr (.inr ⟨b :: x, rest, rfl, whole_cons hx hb⟩)
      · exact .inr (.inr ⟨[b], bs, rfl, [], b, rfl, List.forall_mem_nil _, hb, Nat.zero_le _,
          fun heq => absurd heq.symm (Nat.succ_ne_zero left)⟩)

/-! ### How they are read -/

/-- A group upon which another follows adds its digit to a number and nothing to a fault. -/
theorem decodeWithin_cons_of_continues (h : Continues b) (bs : Bytes) :
    decodeWithin (left + 2) (b :: bs) =
      (decodeWithin (left + 1) bs).map fun found => (b.toNat % 128 + 128 * found.1, found.2) := by
  have hlarge : ¬b.toNat < 128 := Nat.not_lt.mpr h
  simp only [decodeWithin]
  rw [if_neg (fun hleft => Nat.succ_ne_zero left hleft.1), if_neg hlarge]

theorem decodeWithin_of_unfinished (h : Unfinished left bs) :
    decodeWithin (left + 1) bs = .error .inputTooShort := by
  obtain ⟨hlength, hall⟩ := h
  induction left generalizing bs with
  | zero => rw [List.eq_nil_of_length_eq_zero (Nat.le_zero.mp hlength), decodeWithin]
  | succ left ih =>
    cases bs with
    | nil => rw [decodeWithin]
    | cons b bs =>
      obtain ⟨hb, hall⟩ := List.forall_mem_cons.mp hall
      rw [decodeWithin_cons_of_continues hb, ih (Nat.le_of_succ_le_succ hlength) hall]
      rfl

theorem decodeWithin_of_tooLarge (h : TooLarge left bs) :
    decodeWithin (left + 1) bs = .error .varintOverflow := by
  obtain ⟨hall, c, hc, hlarge⟩ := h
  induction left generalizing bs with
  | zero =>
    cases bs with
    | nil => cases hc
    | cons b bs =>
      obtain rfl : b = c := Option.some.inj hc
      simp only [decodeWithin]
      -- A byte below 128 is its own digit, and after any other there is no room left.
      by_cases hlow : 1 < b.toNat % 128
      · rw [if_pos ⟨trivial, hlow⟩]
      · rw [if_neg (fun hboth => hlow hboth.2), if_neg (by omega)]
        rfl
  | succ left ih =>
    cases bs with
    | nil => cases hc
    | cons b bs =>
      obtain ⟨hb, hall⟩ := List.forall_mem_cons.mp hall
      rw [decodeWithin_cons_of_continues hb, ih hall hc]
      rfl

theorem decodeWithin_of_last (h : ¬Continues b) (hbit : left = 0 → b.toNat ≤ 1) (rest : Bytes) :
    decodeWithin (left + 1) ([b] ++ rest) = .ok (value [b], rest) := by
  rw [value_singleton h]
  exact decodeWithin_cons_of_lt (Nat.not_le.mp h) hbit

theorem decodeWithin_of_whole (h : Whole left x) (rest : Bytes) :
    decodeWithin (left + 1) (x ++ rest) = .ok (value x, rest) := by
  obtain ⟨groups, last, rfl, hgroups, hlast, hlength, hbit⟩ := h
  induction left generalizing groups with
  | zero =>
    obtain rfl := List.eq_nil_of_length_eq_zero (Nat.le_zero.mp hlength)
    exact decodeWithin_of_last hlast (fun _ => hbit rfl) rest
  | succ left ih =>
    cases groups with
    | nil =>
      exact decodeWithin_of_last hlast (fun heq => absurd heq (Nat.succ_ne_zero left)) rest
    | cons b groups =>
      obtain ⟨hb, hgroups⟩ := List.forall_mem_cons.mp hgroups
      have hrest := ih groups hgroups (Nat.le_of_succ_le_succ hlength)
        fun heq => hbit (congrArg Nat.succ heq)
      rw [List.cons_append, List.cons_append, decodeWithin_cons_of_continues hb, hrest, value_cons]
      rfl

/-! ### Numbers of 64 bits -/

/-- The bytes end before the number does exactly if there are fewer than ten, and a further group is
to follow on each. -/
theorem decode_eq_inputTooShort_iff :
    decode bs = .error .inputTooShort ↔ bs.length < maxLength ∧ ∀ b ∈ bs, Continues b := by
  have hunfinished : Unfinished 9 bs ↔ bs.length < maxLength ∧ ∀ b ∈ bs, Continues b :=
    and_congr_left fun _ => Nat.lt_succ_iff.symm
  rw [← hunfinished]
  refine ⟨fun h => ?_, decodeWithin_of_unfinished⟩
  rcases unfinished_or_tooLarge_or_whole 9 bs with hshort | hlarge | ⟨x, rest, rfl, hx⟩
  · exact hshort
  · cases h.symm.trans (decodeWithin_of_tooLarge hlarge)
  · cases h.symm.trans (decodeWithin_of_whole hx rest)

/-- The number is too large exactly if nine groups that others follow on are followed by more than one
bit. -/
theorem decode_eq_varintOverflow_iff :
    decode bs = .error .varintOverflow ↔
      (∀ b ∈ bs.take 9, Continues b) ∧ ∃ b, bs[9]? = some b ∧ 1 < b.toNat := by
  have htooLarge : TooLarge 9 bs ↔ (∀ b ∈ bs.take 9, Continues b) ∧
      ∃ b, bs[9]? = some b ∧ 1 < b.toNat := Iff.rfl
  rw [← htooLarge]
  refine ⟨fun h => ?_, decodeWithin_of_tooLarge⟩
  rcases unfinished_or_tooLarge_or_whole 9 bs with hshort | hlarge | ⟨x, rest, rfl, hx⟩
  · cases h.symm.trans (decodeWithin_of_unfinished hshort)
  · exact hlarge
  · cases h.symm.trans (decodeWithin_of_whole hx rest)

/-- Any other bytes begin with a number, which is that of the digits up to the first byte upon which
none follows. -/
theorem exists_decode_eq_ok (hshort : decode bs ≠ .error .inputTooShort)
    (hlarge : decode bs ≠ .error .varintOverflow) :
    ∃ groups last rest, bs = groups ++ last :: rest ∧ (∀ b ∈ groups, Continues b) ∧
      ¬Continues last ∧ decode bs = .ok (value (groups ++ [last]), rest) ∧
      value (groups ++ [last]) < UInt64.size := by
  rcases unfinished_or_tooLarge_or_whole 9 bs with hbegin | hbegin | ⟨x, rest, rfl, hx⟩
  · exact absurd (decodeWithin_of_unfinished hbegin) hshort
  · exact absurd (decodeWithin_of_tooLarge hbegin) hlarge
  · have hread := decodeWithin_of_whole hx rest
    obtain ⟨groups, last, rfl, hgroups, hlast, -, -⟩ := hx
    exact ⟨groups, last, rest, List.append_assoc _ _ _, hgroups, hlast, hread,
      lt_of_decodeWithin hread⟩

/-- **Numbers of variable length.** The written form of every number of 64 bits reads back in front
of whatever follows it; it has the length that is foretold, which is at most ten bytes, and no fewer
bytes are read as that number. And of every byte string: it is too short exactly if it has fewer than
ten bytes and a further group is to follow on each; its number is too large exactly if a tenth byte
follows on nine such groups and is above one; any other is read as the digits to the base 128 up to
the first byte upon which none follows, and their number has 64 bits. -/
theorem written_and_read :
    (∀ n < UInt64.size,
      (∀ t, decode (encode n ++ t) = .ok (n, t)) ∧ (encode n).length = length n ∧
        length n ≤ maxLength ∧
        ∀ bs rest, decode bs = .ok (n, rest) → length n + rest.length ≤ bs.length) ∧
    ∀ bs : Bytes,
      (decode bs = .error .inputTooShort ↔ bs.length < maxLength ∧ ∀ b ∈ bs, Continues b) ∧
      (decode bs = .error .varintOverflow ↔
        (∀ b ∈ bs.take 9, Continues b) ∧ ∃ b, bs[9]? = some b ∧ 1 < b.toNat) ∧
      (decode bs ≠ .error .inputTooShort → decode bs ≠ .error .varintOverflow →
        ∃ groups last rest, bs = groups ++ last :: rest ∧ (∀ b ∈ groups, Continues b) ∧
          ¬Continues last ∧ decode bs = .ok (value (groups ++ [last]), rest) ∧
          value (groups ++ [last]) < UInt64.size) := by
  refine ⟨fun n hn => ⟨decode_encode hn, length_encode n, length_le hn, fun bs rest h => ?_⟩,
    fun bs => ⟨decode_eq_inputTooShort_iff, decode_eq_varintOverflow_iff, exists_decode_eq_ok⟩⟩
  obtain ⟨x, rfl, hx⟩ := exists_reads h
  rw [List.length_append]
  exact Nat.add_le_add_right (length_le_of_reads hx) _

/-- The largest number of 64 bits, which takes all ten bytes, 300 with a group too many, and faults at
the ninth and the tenth byte. -/
theorem written_and_read_extremes :
    (2 ^ 64 - 1 < UInt64.size ∧ encode (2 ^ 64 - 1) = List.replicate 9 255 ++ [1] ∧
      decode (List.replicate 9 255 ++ [1] ++ [7]) = .ok (2 ^ 64 - 1, [7]) ∧
      length (2 ^ 64 - 1) + [7].length ≤ (List.replicate 9 (255 : UInt8) ++ [1] ++ [7]).length) ∧
    (∃ groups last rest, ([172, 130, 0, 9] : Bytes) = groups ++ last :: rest ∧
      (∀ b ∈ groups, Continues b) ∧ ¬Continues last ∧
      decode [172, 130, 0, 9] = .ok (value (groups ++ [last]), rest) ∧
      value (groups ++ [last]) < UInt64.size) ∧
    decode (List.replicate 9 128) = .error .inputTooShort ∧
    decode (List.replicate 9 128 ++ [2]) = .error .varintOverflow := by
  obtain ⟨hwritten, hread⟩ := written_and_read
  obtain ⟨hback, -, -, hshortest⟩ := hwritten (2 ^ 64 - 1) (by decide)
  have hlast : encode (2 ^ 64 - 1) = List.replicate 9 255 ++ [1] := by
    simp [encode]
  have hmax := hback [7]
  rw [hlast] at hmax
  have hgroups : ∀ b ∈ List.replicate 9 (128 : UInt8), Continues b := by
    intro b hb
    rw [List.eq_of_mem_replicate hb]
    decide
  refine ⟨⟨by decide, hlast, hmax, hshortest _ _ hmax⟩, ?_, ?_, ?_⟩
  · exact (hread [172, 130, 0, 9]).2.2 (by rw [decode]; decide) (by decide)
  · exact (hread _).1.mpr ⟨by decide, hgroups⟩
  · exact (hread _).2.1.mpr ⟨hgroups, 2, rfl, by decide⟩

end Courier.Varint
