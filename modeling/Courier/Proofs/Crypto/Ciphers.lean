import Mathlib
import Courier.Crypto.AesGcm
import Courier.Crypto.ChaChaPoly

/-!
## Ciphers undo themselves

Both ciphers combine the input, block by block, with bytes that depend on the key, the number and the
position alone, and put a tag of 16 bytes behind. The same combination takes the bytes off again.

* `combine`: what both key streams do; `combine_combine`: done twice, it does nothing.
* `Aead.Lawful`: a cipher that adds the length of a tag and decrypts what it encrypted.
* `ChaChaPoly.lawful_cipher`, `AesGcm.lawful_cipher`: the ciphers of this library.
-/

namespace Courier.Crypto

/-! ### Key streams -/

/-- The first blocks of the input, each combined with bytes that depend on the block and on the
position in it. The last block may be shorter. -/
def combine (width : Nat) (mask : Nat → Nat → UInt8) (input : ByteArray) (blocks : Nat) : ByteArray :=
  Nat.fold blocks (fun i _ out =>
    Nat.fold (min width (input.size - width * i)) (fun j _ out =>
      out.push (byteAt input (width * i + j) ^^^ mask i j)) out) ByteArray.empty

theorem toList_data_fold_push (f : Nat → UInt8) (n : Nat) (out : ByteArray) :
    (Nat.fold n (fun j _ out => out.push (f j)) out).data.toList =
      out.data.toList ++ (List.range n).map f := by
  induction n with
  | zero => simp
  | succ n ih =>
    rw [Nat.fold_succ, ByteArray.data_push, Array.toList_push, ih, List.range_succ, List.map_append,
      List.map_singleton, List.append_assoc]

/-- The bytes of an array are those at its positions. -/
theorem getElem_toList_data {a : ByteArray} {p : Nat} (hp : p < a.data.toList.length) :
    a.data.toList[p] = byteAt a p := by
  have hsize : p < a.size := by rwa [← ByteArray.size_data, ← Array.length_toList]
  rw [byteAt, dif_pos hsize, Array.getElem_toList]
  rfl

section Combine

variable {width : Nat} (hwidth : 0 < width) (mask : Nat → Nat → UInt8) (input : ByteArray)

include hwidth

theorem toList_data_combine (blocks : Nat) :
    (combine width mask input blocks).data.toList =
      (List.range (min (width * blocks) input.size)).map fun p =>
        byteAt input p ^^^ mask (p / width) (p % width) := by
  induction blocks with
  | zero => simp [combine]
  | succ blocks ih =>
    have hlast : min (width * (blocks + 1)) input.size =
        min (width * blocks) input.size + min width (input.size - width * blocks) := by
      rw [Nat.mul_succ]
      omega
    rw [combine, Nat.fold_succ, toList_data_fold_push, ← combine, ih, hlast, List.range_add,
      List.map_append, List.map_map]
    congr 1
    refine List.map_congr_left fun j hj => ?_
    rw [List.mem_range] at hj
    have hj' : j < width := by omega
    -- There is a position in the last block, so the blocks before it are full.
    have hfull : min (width * blocks) input.size = width * blocks := by omega
    rw [Function.comp_apply, hfull, Nat.mul_add_div hwidth, Nat.div_eq_of_lt hj', Nat.add_zero,
      Nat.mul_add_mod, Nat.mod_eq_of_lt hj']

variable {mask input}

theorem size_combine {blocks : Nat} (h : input.size ≤ width * blocks) :
    (combine width mask input blocks).size = input.size := by
  rw [← ByteArray.size_data, ← Array.length_toList, toList_data_combine hwidth, List.length_map,
    List.length_range, Nat.min_eq_right h]

/-- Done twice, the combination does nothing. -/
theorem combine_combine {blocks : Nat} (h : input.size ≤ width * blocks) :
    combine width mask (combine width mask input blocks) blocks = input := by
  have hsize : (combine width mask input blocks).size = input.size := size_combine hwidth h
  have hlength : input.data.toList.length = input.size := by
    rw [Array.length_toList, ByteArray.size_data]
  refine ByteArray.ext (Array.toList_inj.mp (List.ext_getElem ?_ fun p _ hp => ?_))
  · rw [toList_data_combine hwidth, List.length_map, List.length_range, hsize, hlength,
      Nat.min_eq_right h]
  · have hfirst : p < (combine width mask input blocks).data.toList.length := by
      rw [Array.length_toList, ByteArray.size_data, hsize, ← hlength]
      exact hp
    simp only [toList_data_combine hwidth, List.getElem_map, List.getElem_range,
      ← getElem_toList_data hfirst]
    rw [UInt8.xor_assoc, UInt8.xor_self, UInt8.xor_zero, getElem_toList_data hp]

end Combine

/-! ### Authenticated ciphers -/

/-- A cipher that makes every message longer by a tag and opens what it wrote. -/
structure Aead.Lawful (a : Aead) : Prop where
  size_encrypt : ∀ key number associated plaintext,
    (a.encrypt key number associated plaintext).size = plaintext.size + Aead.tagSize
  decrypt_encrypt : ∀ key number associated plaintext,
    a.decrypt? key number associated (a.encrypt key number associated plaintext) = some plaintext

/-- A key stream that undoes itself and a tag make a lawful cipher. -/
theorem Aead.lawful_ofStream {stream : ByteArray → Nat → ByteArray → ByteArray}
    {tag : ByteArray → Nat → ByteArray → ByteArray → ByteArray}
    (hsize : ∀ key number input, (stream key number input).size = input.size)
    (hundo : ∀ key number input, stream key number (stream key number input) = input)
    (htag : ∀ key number associated body, (tag key number associated body).size = tagSize) :
    (Aead.ofStream stream tag).Lawful where
  size_encrypt key number associated plaintext := by
    rw [ofStream, ByteArray.size_append, hsize, htag]
  decrypt_encrypt key number associated plaintext := by
    set body := stream key number plaintext with hbody
    have hlen : (body ++ tag key number associated body).size = body.size + tagSize := by
      rw [ByteArray.size_append, htag]
    have hfront : (body ++ tag key number associated body).extract 0 body.size = body :=
      ByteArray.extract_append_eq_left rfl
    have hback : (body ++ tag key number associated body).extract body.size
        (body.size + tagSize) = tag key number associated body :=
      ByteArray.extract_append_eq_right rfl (by rw [htag])
    -- The cut falls between ciphertext and tag, and the tag is that of the ciphertext.
    simp only [ofStream, ← hbody, hlen, Nat.add_sub_cancel, hfront, hback]
    rw [if_neg (by omega), if_pos trivial, hbody, hundo]

/-- A combination of all blocks and a tag make a lawful cipher. -/
theorem Aead.lawful_of_combine {width : Nat} (hwidth : 0 < width)
    {stream : ByteArray → Nat → ByteArray → ByteArray}
    {tag : ByteArray → Nat → ByteArray → ByteArray → ByteArray}
    (mask : ByteArray → Nat → Nat → Nat → UInt8)
    (hstream : ∀ key number input, stream key number input =
      combine width (mask key number) input ((input.size + (width - 1)) / width))
    (htag : ∀ key number associated body, (tag key number associated body).size = tagSize) :
    (Aead.ofStream stream tag).Lawful := by
  have hblocks : ∀ input : ByteArray, input.size ≤ width * ((input.size + (width - 1)) / width) := by
    intro input
    have hmod := Nat.mod_lt (input.size + (width - 1)) hwidth
    have hdiv := Nat.div_add_mod (input.size + (width - 1)) width
    omega
  have hsize : ∀ key number input, (stream key number input).size = input.size := by
    intro key number input
    rw [hstream, size_combine hwidth (hblocks input)]
  refine lawful_ofStream hsize (fun key number input => ?_) htag
  rw [hstream, hsize, hstream, combine_combine hwidth (hblocks input)]

/-- The bytes of a key stream, by block and position. -/
def ChaCha20.keyByte (key nonce : ByteArray) (i j : Nat) : UInt8 :=
  ((block key nonce (UInt32.ofNat (i + 1))).getD (j / 4) 0 >>> UInt32.ofNat (8 * (j % 4))).toUInt8

theorem ChaCha20.xor_eq_combine (key nonce input : ByteArray) :
    xor key nonce input = combine 64 (keyByte key nonce) input ((input.size + 63) / 64) := by
  unfold xor mixBlock combine keyByte
  rfl

theorem ChaChaPoly.size_tag (key : ByteArray) (number : Nat) (associated body : ByteArray) :
    (tag key number associated body).size = Aead.tagSize := by
  rw [tag, Poly1305.size_tag, Aead.tagSize]

theorem ChaChaPoly.lawful_cipher : cipher.Lawful :=
  Aead.lawful_of_combine (by decide) (fun key number => ChaCha20.keyByte key (nonce number))
    (fun key number => ChaCha20.xor_eq_combine key (nonce number)) size_tag

/-- The bytes of a key stream, by block and position. -/
def AesGcm.keyByte (key : ByteArray) (number i j : Nat) : UInt8 :=
  let k := Aes.encryptBlock (Aes.expandKey key) (counterBlock number (UInt32.ofNat (i + 2)))
  let w := if j < 8 then (if j < 4 then k.c0 else k.c1) else (if j < 12 then k.c2 else k.c3)
  Aes.byteOf w (UInt32.ofNat (j % 4))

theorem AesGcm.stream_eq_combine (key : ByteArray) (number : Nat) (input : ByteArray) :
    stream key number input = combine 16 (keyByte key number) input ((input.size + 15) / 16) := by
  unfold stream mixBlock combine keyByte
  rfl

theorem AesGcm.size_tag (key : ByteArray) (number : Nat) (associated body : ByteArray) :
    (tag key number associated body).size = Aead.tagSize := by
  simp only [tag, List.foldl_cons, List.foldl_nil, size_pushBE]
  rfl

theorem AesGcm.lawful_cipher : cipher.Lawful :=
  Aead.lawful_of_combine (by decide) keyByte stream_eq_combine size_tag

end Courier.Crypto
