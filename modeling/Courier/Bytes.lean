/-!
## Byte strings

Messages, keys and records are lists of bytes. This module holds the operations on them that every
format shares: taking an exact number of bytes, and unsigned numbers of a fixed width with the most
significant byte first.

* `take?_eq_some_iff`: a successful `take?` splits its input at exactly that many bytes.
* `flatten_chunks`: nothing is lost in cutting.
-/

namespace Courier

/-- A string of bytes. -/
abbrev Bytes := List UInt8

namespace Bytes

/-- The bytes held in an array. -/
def ofByteArray (a : ByteArray) : Bytes := a.data.toList

/-- The UTF-8 bytes of a text. -/
def ofString (s : String) : Bytes := ofByteArray s.toByteArray

/-- The text whose UTF-8 bytes these are, if there is one. -/
def toString? (bs : Bytes) : Option String := String.fromUTF8? bs.toByteArray

@[simp] theorem toByteArray_ofByteArray (a : ByteArray) : (ofByteArray a).toByteArray = a := by
  cases a with
  | mk data => simp [ofByteArray, ByteArray.ext_iff, List.data_toByteArray]

theorem ofByteArray_toByteArray (bs : Bytes) : ofByteArray bs.toByteArray = bs :=
  List.toList_data_toByteArray

theorem length_ofByteArray (a : ByteArray) : (ofByteArray a).length = a.size := by
  rw [ofByteArray, Array.length_toList, ByteArray.size_data]

@[simp] theorem toString?_ofString (s : String) : toString? (ofString s) = some s := by
  simp [toString?, ofString, String.fromUTF8?, s.isValidUTF8, String.fromUTF8]

/-- A text is read off its own bytes only. -/
theorem toString?_eq_some_iff {bs : Bytes} {s : String} :
    toString? bs = some s ↔ bs = ofString s := by
  constructor
  · intro h
    unfold toString? String.fromUTF8? at h
    split at h
    · cases h
      simp [ofString, ofByteArray, String.fromUTF8]
    · cases h
  · rintro rfl
    exact toString?_ofString s

theorem ofString_inj {s t : String} : ofString s = ofString t ↔ s = t := by
  refine ⟨fun h => ?_, congrArg ofString⟩
  rw [← Option.some_inj, ← toString?_ofString, h, toString?_ofString]

theorem ofString_append (s t : String) : ofString (s ++ t) = ofString s ++ ofString t := by
  simp [ofString, ofByteArray]

@[simp] theorem length_ofString (s : String) : (ofString s).length = s.utf8ByteSize := by
  simp [ofString, ofByteArray]

/-! ### Taking a counted part -/

/-- The first `n` bytes and the bytes after them, when there are that many. -/
def take? (n : Nat) (bs : Bytes) : Option (Bytes × Bytes) :=
  let rest := bs.drop n
  if rest.isEmpty then if bs.length = n then some (bs, []) else none
  else some (bs.take n, rest)

theorem take?_eq_some_iff {n : Nat} {bs front rest : Bytes} :
    take? n bs = some (front, rest) ↔ bs = front ++ rest ∧ front.length = n := by
  unfold take?
  dsimp only
  split
  · rename_i h
    have hle : bs.length ≤ n := by simpa using h
    split
    · rename_i hn
      constructor
      · intro h'
        obtain ⟨rfl, rfl⟩ := by simpa using h'
        exact ⟨(List.append_nil _).symm, hn⟩
      · rintro ⟨rfl, hf⟩
        have : rest = [] := List.eq_nil_of_length_eq_zero (by rw [List.length_append] at hn; omega)
        simp [this]
    · rename_i hn
      constructor
      · simp
      · rintro ⟨rfl, hf⟩
        rw [List.length_append] at hle hn
        omega
  · rename_i h
    constructor
    · intro h'
      obtain ⟨rfl, rfl⟩ := by simpa using h'
      have hlt : n < bs.length := by simpa using h
      exact ⟨(List.take_append_drop n bs).symm, by rw [List.length_take]; omega⟩
    · rintro ⟨rfl, rfl⟩
      simp

/-- Whether there are at least `n` bytes. -/
def holds (n : Nat) (bs : Bytes) : Bool := n == 0 || !(bs.drop (n - 1)).isEmpty

theorem holds_iff {n : Nat} {bs : Bytes} : holds n bs = true ↔ n ≤ bs.length := by
  simp [holds]
  omega

/-! ### Cutting into pieces -/

/-- The pieces of at most `n` bytes that a byte string falls into, all but the last of them full. A
length of zero counts as one. -/
def chunks (n : Nat) (bs : Bytes) : List Bytes :=
  match bs with
  | [] => []
  | b :: rest => (b :: rest).take (max n 1) :: chunks n ((b :: rest).drop (max n 1))
termination_by bs.length
decreasing_by simp only [List.length_drop, List.length_cons]; omega

/-- The pieces of at most `n` bytes, of which there is always one, empty if need be. -/
def pieces (n : Nat) (bs : Bytes) : List Bytes := if bs.isEmpty then [[]] else chunks n bs

/-- Nothing is lost in cutting. -/
theorem flatten_chunks (n : Nat) (bs : Bytes) : (chunks n bs).flatten = bs := by
  fun_induction chunks n bs with
  | case1 => rfl
  | case2 b rest ih => rw [List.flatten_cons, ih, List.take_append_drop]

theorem flatten_pieces (n : Nat) (bs : Bytes) : (pieces n bs).flatten = bs := by
  unfold pieces
  split
  · simp_all
  · exact flatten_chunks n bs

/-! ### Numbers, most significant byte first -/

/-- The last `width` base-256 digits of `n`, the most significant first. -/
def ofNat : (width : Nat) → (n : Nat) → Bytes
  | 0, _ => []
  | width + 1, n => UInt8.ofNat (n >>> (8 * width)) :: ofNat width n

/-- The number whose base-256 digits are the bytes, the most significant first. -/
def toNat (bs : Bytes) : Nat := bs.foldl (fun n b => n * 256 + b.toNat) 0

@[simp] theorem length_ofNat (width n : Nat) : (ofNat width n).length = width := by
  induction width with
  | zero => rfl
  | succ width ih => simp [ofNat, ih]

end Bytes

end Courier
