import Courier.Crypto.Blake

/-!
## BLAKE3 key derivation

The key-derivation mode of BLAKE3: a context text is hashed to a key, and the key material is hashed
under that key. Input is cut into chunks of 1024 bytes, the leaves of a binary tree in which every
left subtree is full.
-/

namespace Courier.Crypto.Blake3

open Blake (initial round blockWords)

/-- The order in which a round's words are read by the next round. -/
def permutation : Array Nat := #[2, 6, 3, 10, 7, 0, 4, 13, 1, 11, 12, 5, 9, 14, 15, 8]

/-! ### Flags that separate the uses of the compression -/

/-- Set on the first block of a chunk. -/
def chunkStart : UInt32 := 1
/-- Set on the last block of a chunk. -/
def chunkEnd : UInt32 := 2
/-- Set on the join of two subtrees. -/
def parent : UInt32 := 4
/-- Set on the compression whose output leaves the tree. -/
def root : UInt32 := 8
/-- Set throughout the hash of a context text. -/
def contextMode : UInt32 := 32
/-- Set throughout the hash of key material. -/
def materialMode : UInt32 := 64

/-- The eight chaining words after a block. -/
def compress (chain block : Array UInt32) (counter : Nat) (size flags : UInt32) : Array UInt32 :=
  let v := chain ++ initial.extract 0 4 ++
    #[UInt32.ofNat counter, UInt32.ofNat (counter >>> 32), size, flags]
  let step := fun (_ : Nat) (_ : _ < 6) (s : Array UInt32 × Array UInt32) =>
    let m := permutation.map fun i => s.2.getD i 0
    (round s.1 m, m)
  let v := (Nat.fold 6 step (round v block, block)).1
  Array.ofFn fun i : Fin 8 => v.getD i 0 ^^^ v.getD (i + 8) 0

/-- The chaining words of one chunk of at most 1024 bytes. The last block also carries the flags in
`final`. -/
def chunk (key : Array UInt32) (mode final : UInt32) (input : ByteArray) (index : Nat) :
    Array UInt32 :=
  let blocks := max 1 ((input.size + 63) / 64)
  Nat.fold blocks (fun i _ chain =>
    let size := UInt32.ofNat (min 64 (input.size - 64 * i))
    let first := if i = 0 then chunkStart else 0
    let last := if i + 1 = blocks then chunkEnd ||| final else 0
    compress chain (blockWords input (64 * i)) index size (mode ||| first ||| last)) key

/-- The number of chunks in the left subtree over `n > 1` chunks: the largest power of two below
`n`. -/
def leftChunks (n : Nat) : Nat := 1 <<< (n - 1).log2

theorem leftChunks_pos (n : Nat) : 0 < leftChunks n := by
  rw [leftChunks, Nat.one_shiftLeft]
  exact Nat.two_pow_pos _

theorem leftChunks_lt {n : Nat} (h : 1 < n) : leftChunks n < n := by
  have := Nat.log2_self_le (n := n - 1) (by omega)
  rw [leftChunks, Nat.one_shiftLeft]
  omega

/-- The chaining words of the subtree over `n` chunks of which the first has number `index`. -/
def tree (key : Array UInt32) (mode final : UInt32) (input : ByteArray) (index n : Nat) :
    Array UInt32 :=
  if h : 1 < n then
    let l := leftChunks n
    let left := tree key mode 0 input index l
    let right := tree key mode 0 input (index + l) (n - l)
    compress key (left ++ right) 0 64 (mode ||| parent ||| final)
  else
    chunk key mode final (input.extract (1024 * index) (1024 * (index + 1))) index
termination_by n
decreasing_by
  · exact leftChunks_lt h
  · have := leftChunks_pos n; omega

/-- The eight words of a digest. -/
def digest (key : Array UInt32) (mode : UInt32) (input : ByteArray) : Array UInt32 :=
  tree key mode root input 0 (max 1 ((input.size + 1023) / 1024))

/-- The 32-byte key for some material in a context. -/
def deriveKey (context : String) (material : ByteArray) : ByteArray :=
  let key := digest initial contextMode context.toByteArray
  let out := digest key materialMode material
  Nat.fold 8 (fun i _ bytes => pushLE bytes (out.getD i 0)) (ByteArray.emptyWithCapacity 32)

theorem size_deriveKey (context : String) (material : ByteArray) :
    (deriveKey context material).size = 32 := by
  simp only [deriveKey, Nat.fold, size_pushLE]
  rfl

end Courier.Crypto.Blake3
