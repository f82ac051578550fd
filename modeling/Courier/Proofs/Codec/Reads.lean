import Mathlib
import Courier.Codec.Reader
import Courier.Codec.Writer

/-!
## What is written reads back

A reader reads a value off its written form if it does so whatever comes after, and leaves that.
Written forms put one after the other are then read by readers put one after the other, so every
format reads back once its parts do.

* `Reads.bind`: readers in a row.
* `reads_bytes`, `reads_list`: counted byte strings and lists.
* `Value.decode_encode_bytesArray`: an array of byte strings.
-/

namespace Courier

open Codec

/-- A number below a power of 128 takes at most as many bytes as the exponent. -/
theorem Varint.length_le_of_lt_pow {k n : Nat} (h : n < 128 ^ (k + 1)) :
    Varint.length n ≤ k + 1 := by
  induction k generalizing n with
  | zero =>
    rw [Varint.length, if_pos (by omega)]
  | succ k ih =>
    unfold Varint.length
    split
    · omega
    · have hdiv : n / 128 < 128 ^ (k + 1) :=
        Nat.div_lt_of_lt_mul (by rwa [Nat.pow_succ, Nat.mul_comm] at h)
      exact Nat.succ_le_succ (ih hdiv)

theorem Varint.length_le {n : Nat} (h : n < UInt64.size) : Varint.length n ≤ Varint.maxLength :=
  Varint.length_le_of_lt_pow (k := 9) (Nat.lt_of_lt_of_le h (by decide))

namespace Reader

variable {α β : Type}

/-- A reader takes exactly these bytes off the front of any string and finds the value in them. -/
def Reads (r : Reader α) (written : Bytes) (a : α) : Prop :=
  ∀ rest, r (written ++ rest) = .ok (a, rest)

theorem reads_pure (a : α) : Reads (pure a) [] a := fun _ => rfl

/-- The second reader goes on where the first has stopped. -/
theorem Reads.bind {r : Reader α} {w w' : Bytes} {a : α} {f : α → Reader β} {b : β}
    (h : Reads r w a) (h' : Reads (f a) w' b) : Reads (r >>= f) (w ++ w') b := by
  intro rest
  show (r (w ++ w' ++ rest) >>= fun p => f p.1 p.2) = .ok (b, rest)
  rw [List.append_assoc, h (w' ++ rest)]
  exact h' rest

theorem Reads.bind_pure {r : Reader α} {w : Bytes} {a : α} (f : α → β) (h : Reads r w a) :
    Reads (r >>= fun a => pure (f a)) w (f a) := by
  have hb := h.bind (f := fun a => pure (f a)) (reads_pure (f a))
  rwa [List.append_nil] at hb

theorem Reads.all {r : Reader α} {w : Bytes} {a : α} (h : Reads r w a) : r.all w = .ok a := by
  have hr := h []
  rw [List.append_nil] at hr
  rw [Reader.all, hr]

/-! ### Parts of values -/

theorem reads_take (bs : Bytes) : Reads (take bs.length) bs bs := by
  intro rest
  rw [take, Bytes.take?_eq_some_iff.mpr ⟨rfl, rfl⟩]

theorem reads_varint {n : Nat} (h : n < UInt64.size) : Reads varint (Varint.encode n) n :=
  fun rest => Varint.decode_encode h rest

/-- A count reads back where so many bytes follow. -/
theorem count_append {x : Bytes} {n : Nat} (h : Reads varint x n) {rest : Bytes}
    (hn : n ≤ rest.length) : count (x ++ rest) = .ok (n, rest) := by
  show (varint (x ++ rest) >>= fun p =>
    (if Bytes.holds p.1 p.2 then pure p.1 else throw .inputTooShort : Reader Nat) p.2) = _
  rw [h rest]
  show (if Bytes.holds n rest then pure n else throw .inputTooShort : Reader Nat) rest = _
  rw [if_pos (Bytes.holds_iff.mpr hn)]
  rfl

/-- What comes after a count in a written form holds as many bytes as it says. -/
theorem Reads.count_bind {x : Bytes} {n : Nat} (h : Reads varint x n) {w : Bytes}
    (hn : n ≤ w.length) {f : Nat → Reader β} {b : β} (h' : Reads (f n) w b) :
    Reads (count >>= f) (x ++ w) b := by
  intro rest
  show (count (x ++ w ++ rest) >>= fun p => f p.1 p.2) = .ok (b, rest)
  rw [List.append_assoc, count_append h (by rw [List.length_append]; omega)]
  exact h' rest

theorem reads_bytes {bs : Bytes} (h : bs.length < UInt64.size) : Reads bytes (putBytes bs) bs :=
  Reads.count_bind (reads_varint h) (Nat.le_refl _) (reads_take bs)

/-- Elements of which each reads back read back in a row. -/
theorem reads_times {r : Reader α} {put : α → Bytes} {xs : List α}
    (h : ∀ x ∈ xs, Reads r (put x) x) : Reads (times r xs.length) (xs.flatMap put) xs := by
  induction xs with
  | nil => exact reads_pure []
  | cons x xs ih =>
    have hx := h x List.mem_cons_self
    have hxs := ih fun y hy => h y (List.mem_cons_of_mem _ hy)
    exact hx.bind (hxs.bind_pure (x :: ·))

theorem length_le_length_flatMap {put : α → Bytes} {xs : List α}
    (h : ∀ x ∈ xs, 0 < (put x).length) : xs.length ≤ (xs.flatMap put).length := by
  induction xs with
  | nil => exact Nat.le_refl 0
  | cons x xs ih =>
    have hx := h x List.mem_cons_self
    have hxs := ih fun y hy => h y (List.mem_cons_of_mem _ hy)
    rw [List.flatMap_cons, List.length_append, List.length_cons]
    omega

theorem reads_list {r : Reader α} {put : α → Bytes} {xs : List α} (hn : xs.length < UInt64.size)
    (hpos : ∀ x ∈ xs, 0 < (put x).length) (h : ∀ x ∈ xs, Reads r (put x) x) :
    Reads (list r) (putList put xs) xs :=
  Reads.count_bind (reads_varint hn) (length_le_length_flatMap hpos) (reads_times h)

theorem length_putBytes (bs : Bytes) :
    (putBytes bs).length = Varint.length bs.length + bs.length := by
  rw [putBytes, List.length_append, Varint.length_encode]

theorem length_putBytes_pos (bs : Bytes) : 0 < (putBytes bs).length := by
  have h := Varint.length_pos bs.length
  rw [length_putBytes]
  omega

end Reader

/-! ### Values -/

theorem Reader.reads_bytesArray {xs : List Bytes} (hn : xs.length < UInt64.size)
    (h : ∀ x ∈ xs, x.length < UInt64.size) (levels : Nat) :
    Reads (value (levels + 1)) (Value.encode (.bytesArray xs)) (.bytesArray xs) := by
  have hlist : Reads (list bytes) (putList putBytes xs) xs :=
    reads_list hn (fun x _ => length_putBytes_pos x) fun x hx => reads_bytes (h x hx)
  intro rest
  exact hlist.bind_pure Value.bytesArray rest

/-- An array of byte strings reads back. -/
theorem Value.decode_encode_bytesArray {xs : List Bytes} (hn : xs.length < UInt64.size)
    (h : ∀ x ∈ xs, x.length < UInt64.size) :
    Value.decode (Value.encode (.bytesArray xs)) = .ok (.bytesArray xs) :=
  (Reader.reads_bytesArray hn h Value.maxDepth).all

end Courier
