import Courier.Crypto.Blake

/-!
## BLAKE2s

The unkeyed hash with a digest of 32 bytes. Words are read with the least significant byte first; a
counter of the bytes hashed and a mark on the last block enter each compression.
-/

namespace Courier.Crypto.Blake2s

open Blake (initial round blockWords)

/-- The order in which each of the ten rounds reads the words of a block. -/
def schedules : Array (Array Nat) := #[
  #[0, 1, 2, 3, 4, 5, 6, 7, 8, 9, 10, 11, 12, 13, 14, 15],
  #[14, 10, 4, 8, 9, 15, 13, 6, 1, 12, 0, 2, 11, 7, 5, 3],
  #[11, 8, 12, 0, 5, 2, 15, 13, 10, 14, 3, 6, 7, 1, 9, 4],
  #[7, 9, 3, 1, 13, 12, 11, 14, 2, 6, 5, 10, 4, 0, 15, 8],
  #[9, 0, 5, 7, 2, 4, 10, 15, 14, 1, 11, 12, 6, 8, 3, 13],
  #[2, 12, 6, 10, 0, 11, 8, 3, 4, 13, 7, 5, 15, 14, 1, 9],
  #[12, 5, 1, 15, 14, 13, 4, 10, 0, 7, 6, 3, 9, 2, 8, 11],
  #[13, 11, 7, 14, 12, 1, 3, 9, 5, 0, 15, 4, 8, 6, 2, 10],
  #[6, 15, 14, 9, 11, 3, 0, 8, 12, 2, 13, 7, 1, 4, 10, 5],
  #[10, 2, 8, 4, 7, 6, 1, 5, 15, 11, 9, 14, 3, 12, 13, 0]]

/-- The chain after the block at a position, with `count` bytes hashed up to its end. -/
def compress (h : Array UInt32) (message : ByteArray) (start count : Nat) (last : Bool) :
    Array UInt32 :=
  let m := blockWords message start
  let low := (initial.getD 4 0) ^^^ UInt32.ofNat count
  let high := (initial.getD 5 0) ^^^ UInt32.ofNat (count >>> 32)
  let mark := if last then ~~~ (initial.getD 6 0) else initial.getD 6 0
  let v := h ++ initial.extract 0 4 ++ #[low, high, mark, initial.getD 7 0]
  let v := schedules.foldl (fun v order => round v (order.map fun i => m.getD i 0)) v
  Array.ofFn fun i : Fin 8 => h.getD i 0 ^^^ v.getD i 0 ^^^ v.getD (i + 8) 0

/-- The 32-byte digest of a message. The first word carries the parameters: no key, a digest of 32
bytes, and sequential mode. -/
def hash (message : ByteArray) : ByteArray :=
  let n := message.size
  let blocks := max 1 ((n + 63) / 64)
  let h := initial.setIfInBounds 0 (initial.getD 0 0 ^^^ 0x01010020)
  let h := Nat.fold blocks (fun i _ h =>
    compress h message (64 * i) (min n (64 * (i + 1))) (i + 1 == blocks)) h
  Nat.fold 8 (fun i _ out => pushLE out (h.getD i 0)) (ByteArray.emptyWithCapacity 32)

theorem size_hash (message : ByteArray) : (hash message).size = 32 := by
  simp only [hash, Nat.fold, size_pushLE]
  rfl

end Courier.Crypto.Blake2s
