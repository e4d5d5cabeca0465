import Mathlib.Data.List.TakeDrop

/-! A buffer that is written around, and that keeps the newest bytes not yet read. -/

namespace GemDroid

/-- The first number that is no longer an `int`. -/
def intBound : Nat := 2147483648

/-- A circular buffer (`CircleBuf`). -/
structure CircleBuf where
  buf : List UInt8
  rollover : Bool
  size : Nat
  start : Nat
  stop : Nat
  deriving DecidableEq, Repr

/-- Some bytes from a position on. -/
def slice (buf : List UInt8) (position len : Nat) : List UInt8 :=
  (buf.drop position).take len

/-- Copy bytes into a buffer (`memcpy`). -/
def store (buf : List UInt8) (position : Nat) (bytes : List UInt8) : List UInt8 :=
  buf.take position ++ bytes ++ buf.drop (position + bytes.length)

namespace CircleBuf

/-- A buffer over some bytes that were never written. -/
def construct (buf : List UInt8) : CircleBuf where
  buf
  rollover := false
  size := 0
  start := 0
  stop := 0

/-- The capacity (`_buflen`). -/
def buflen (b : CircleBuf) : Nat :=
  b.buf.length

/-- Forget what was written (`flush`). -/
def flush (b : CircleBuf) : CircleBuf :=
  { b with start := 0, stop := 0, rollover := false }

/--
Read at most some bytes (`read`).

There is no result where a negative number of bytes would be copied.
-/
def read (len : Nat) (b : CircleBuf) : Option (List UInt8 × CircleBuf) :=
  let size := b.size - len
  if b.start < b.stop then
    let len := min len (b.stop - b.start)
    some (slice b.buf b.start len, { b with size, start := b.start + len })
  else if b.buflen < b.start then none
  else
    -- An empty buffer takes this way like a full one.
    let endlen := b.buflen - b.start
    if len < endlen then
      some (slice b.buf b.start len, { b with size, start := b.start + len })
    else
      let start := min (len - endlen) b.stop
      some (slice b.buf b.start endlen ++ slice b.buf 0 start, { b with size, start })

/-- Read all bytes (`read` to a descriptor or a stream). -/
def readFull (b : CircleBuf) : Option (List UInt8 × CircleBuf) :=
  if b.start < b.stop then
    some (slice b.buf b.start (b.stop - b.start), { b with size := 0, start := b.stop })
  else if b.buflen < b.start then none
  else
    some (slice b.buf b.start (b.buflen - b.start) ++ slice b.buf 0 b.stop,
      { b with size := 0, start := b.stop })

/-- Read all that is left of what was ever written (`readall`). -/
def readall (b : CircleBuf) : List UInt8 × CircleBuf :=
  ((if b.rollover then slice b.buf b.stop (b.buflen - b.stop) else []) ++ slice b.buf 0 b.stop,
    { b with start := b.stop })

/-- Write some bytes (`write`), without a result where a sum is no longer an `int`. -/
def write (bytes : List UInt8) (b : CircleBuf) : Option CircleBuf :=
  let len := bytes.length
  if len = 0 then some b
  else if intBound ≤ b.size + len then none
  else
    let size := min (b.size + len) b.buflen
    let old_start := b.start
    let old_stop := b.stop
    if b.buflen ≤ len then
      some { buf := bytes.drop (len - b.buflen), rollover := true, size, start := 0, stop :=
        b.buflen }
    else if intBound ≤ b.stop + len then none
    else
      let b :=
        if b.stop + len ≤ b.buflen then
          { b with size, buf := store b.buf b.stop bytes, stop := b.stop + len }
        else
          let end_len := b.buflen - old_stop
          { b with
            size
            buf := store (store b.buf old_stop (bytes.take end_len)) 0 (bytes.drop end_len)
            stop := len - end_len
            rollover := true }
      -- The start is moved behind the stop also where the write has not reached it.
      if old_stop < old_start ∧ old_start < b.stop ∨ old_start < old_stop ∧ b.stop < old_stop then
        some { b with start := b.stop + 1 }
      else some b

end CircleBuf

/-- What can be done with a buffer. -/
inductive CircleOp
  | write (bytes : List UInt8)
  | read (len : Nat)
  | readFull
  | readall
  | flush
  deriving DecidableEq, Repr

namespace CircleBuf

/-- Carry out an operation, with the bytes that it returns. -/
def step (op : CircleOp) (b : CircleBuf) : Option (List UInt8 × CircleBuf) :=
  match op with
  | .write bytes => (b.write bytes).map fun b => ([], b)
  | .read len => b.read len
  | .readFull => b.readFull
  | .readall => some b.readall
  | .flush => some ([], b.flush)

/-- What is seen of operations: the bytes that each returns, and the size after it. -/
def trace : List CircleOp → CircleBuf → Option (List (List UInt8 × Nat))
  | [], _ => some []
  | op :: ops, b => do
    let (out, b) ← b.step op
    let rest ← trace ops b
    some ((out, b.size) :: rest)

end CircleBuf

/-- An operation on a queue that keeps the newest bytes: what it returns and what it leaves. -/
def queueStep (capacity : Nat) (op : CircleOp) (q : List UInt8) : List UInt8 × List UInt8 :=
  match op with
  | .write bytes => ([], (q ++ bytes).drop ((q ++ bytes).length - capacity))
  | .read len => (q.take len, q.drop len)
  | .readFull | .readall => (q, [])
  | .flush => ([], [])

/-- What is seen of the operations on such a queue. -/
def queueTrace (capacity : Nat) : List CircleOp → List UInt8 → List (List UInt8 × Nat)
  | [], _ => []
  | op :: ops, q =>
    let (out, q) := queueStep capacity op q
    (out, q.length) :: queueTrace capacity ops q

end GemDroid
