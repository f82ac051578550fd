import Courier.Codec.Frame
import Courier.Transport

/-!
## Frames on a stream of bytes

A connection brings bytes in pieces that need not fall together with frames. Bytes that do not make up
a whole frame yet are kept in a buffer, up to the longest frame that is wanted.

* `Inbound.next`: the next record, with the stream after it.
* `Inbound.size_next_lt`: every record takes bytes from the stream.
-/

namespace Courier.Tcp

/-- What a connection brings: bytes that were read already, and the pieces that are still to come
before it ends. -/
structure Inbound where
  buffer : Bytes := []
  pieces : List Bytes
deriving DecidableEq

namespace Inbound

/-- The number of bytes that are left. -/
def size (i : Inbound) : Nat := i.buffer.length + i.pieces.flatten.length

/-- The next record, or nothing where the stream ends between two frames. A frame that is longer than
the limit is refused, at the latest when so many bytes of it are there that it must be. -/
def nextFrom (limit : Nat) (buffer : Bytes) (pieces : List Bytes) :
    Except TransportError (Option Bytes × Inbound) :=
  match Frame.decode buffer with
  | .ok (record, rest) =>
    let length := buffer.length - rest.length
    if limit < length then .error (.frameTooLarge length limit)
    else .ok (some record, ⟨rest, pieces⟩)
  | .error .needMore =>
    if limit + Varint.maxLength < buffer.length then .error (.frameTooLarge buffer.length limit)
    else match pieces with
      | [] => if buffer.isEmpty then .ok (none, ⟨[], []⟩) else .error .closed
      | piece :: later => nextFrom limit (buffer ++ piece) later
  | .error e => .error (.codec e)
termination_by structural pieces

/-- The next record, with the stream after it. -/
def next (limit : Nat) (i : Inbound) : Except TransportError (Option Bytes × Inbound) :=
  nextFrom limit i.buffer i.pieces

theorem size_nextFrom_lt {limit : Nat} {buffer record : Bytes} {pieces : List Bytes} {j : Inbound}
    (h : nextFrom limit buffer pieces = .ok (some record, j)) :
    j.size < buffer.length + pieces.flatten.length := by
  fun_induction nextFrom limit buffer pieces with
  | case1 => cases h
  | case2 buffer pieces r rest hd length hlen =>
    cases h
    have := Frame.length_lt_of_decode hd
    simp only [size]
    omega
  | case3 => cases h
  | case4 => cases h
  | case5 => cases h
  | case6 buffer hd hlen piece later ih =>
    have := ih h
    simp only [List.length_append, List.flatten_cons] at *
    omega
  | case7 => cases h

theorem size_next_lt {limit : Nat} {i j : Inbound} {record : Bytes}
    (h : i.next limit = .ok (some record, j)) : j.size < i.size :=
  size_nextFrom_lt h

/-- Every record of a stream, and what ended it: an error, or nothing where it ended well. -/
def records (limit : Nat) (i : Inbound) : List Bytes × Option TransportError :=
  match _h : i.next limit with
  | .error e => ([], some e)
  | .ok (none, _) => ([], none)
  | .ok (some record, rest) =>
    let (later, e) := records limit rest
    (record :: later, e)
termination_by i.size
decreasing_by exact size_next_lt ‹_›

end Inbound

end Courier.Tcp
