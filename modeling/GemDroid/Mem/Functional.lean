import GemDroid.Mem.Packet

/-! Functional accesses: a packet that is checked against the buffers in its way. -/

namespace GemDroid

/-- A functional packet with the range of bytes that were found for it so far. -/
structure FunctionalPacket where
  pkt : Packet
  bytesValidStart : BitVec 16
  bytesValidEnd : BitVec 16

/-- What ends a functional access. -/
inductive FunctionalFault
  /-- A partial overlap is of no known kind. -/
  | missedCase
  /-- The bytes found would not be contiguous. -/
  | discontiguous
  /-- More bytes are found than there are (`assert(bytesValidEnd <= getSize())`). -/
  | beyondSize
  /-- The command neither reads nor writes. -/
  | unknownCommand
  deriving DecidableEq, Repr

namespace FunctionalPacket

/-- An address difference in an `int`. -/
def int (difference : Addr) : Int :=
  (difference.setWidth 32).toInt

/-- Copy bytes from one array to another (`memcpy`). -/
def memcpy (dest : Nat → UInt8) (destOffset : Int) (src : Nat → UInt8) (srcOffset count : Int) :
    Nat → UInt8 :=
  fun i =>
    if destOffset ≤ i ∧ i < destOffset + count then src (srcOffset + (i - destOffset)).toNat
    else dest i

/-- Which bytes a partial overlap copies: from where in the value to where in the packet. -/
structure Overlap where
  func_offset : Int
  val_offset : Int
  overlap_size : Int
  deriving DecidableEq, Repr

/-- The offsets and the size of a partial overlap (in `checkFunctional`). -/
def overlapOf (func_start func_end val_start val_end : Addr) (size : Int) :
    Except FunctionalFault Overlap :=
  if val_start < func_start ∧ val_end ≤ func_end then
    .ok { val_offset := int (func_start - val_start), func_offset := 0,
          overlap_size := int (val_end - func_start) }
  else if func_start ≤ val_start ∧ func_end < val_end then
    .ok { val_offset := 0, func_offset := int (val_start - func_start),
          overlap_size := int (func_end - val_start) }
  else if func_start ≤ val_start ∧ val_end ≤ func_end then
    .ok { val_offset := 0, func_offset := int (val_start - func_start), overlap_size := size }
  else .error .missedCase

/-- Store a count in the sixteen bits of the record. -/
def record (count : Int) : BitVec 16 :=
  BitVec.ofInt 16 count

/--
Take over the bytes of a partial overlap that were not found before (in `checkFunctional`).

Bytes that were found earlier stay, so a superset of them is copied in two pieces.
-/
def copyPartial (o : Overlap) (data : Nat → UInt8) (p : FunctionalPacket) :
    Except FunctionalFault FunctionalPacket :=
  let validStart : Int := p.bytesValidStart.toNat
  let validEnd : Int := p.bytesValidEnd.toNat
  let foundEnd := o.func_offset + o.overlap_size
  let copied := fun (o : Overlap) (dest : Nat → UInt8) =>
    memcpy dest o.func_offset data o.val_offset o.overlap_size
  let update := fun (bytesValidStart bytesValidEnd : BitVec 16) (dest : Nat → UInt8) =>
    ({ pkt := { p.pkt with data := dest }, bytesValidStart, bytesValidEnd } : FunctionalPacket)
  if p.bytesValidStart = 0 ∧ p.bytesValidEnd = 0 then
    -- No bytes have been copied yet.
    .ok (update (record o.func_offset) (record foundEnd) (copied o p.pkt.data))
  else
    let a := o.func_offset - validStart
    let b := foundEnd - validEnd
    let c := o.func_offset - validEnd
    let d := foundEnd - validStart
    if 0 ≤ a ∧ b ≤ 0 then .ok p
    else if a < 0 ∧ 0 ≤ d ∧ b ≤ 0 then
      let o := { o with overlap_size := validStart - o.func_offset }
      .ok (update (record o.func_offset) p.bytesValidEnd (copied o p.pkt.data))
    else if 0 < b ∧ c ≤ 0 ∧ 0 ≤ a then
      let o : Overlap :=
        { func_offset := validEnd, val_offset := o.val_offset + (validEnd - o.func_offset),
          overlap_size := foundEnd - validEnd }
      .ok (update p.bytesValidStart (record (validEnd + o.overlap_size)) (copied o p.pkt.data))
    else if a < 0 ∧ 0 < b then
      let first := { o with overlap_size := validStart - o.func_offset }
      let second : Overlap :=
        { func_offset := validEnd, val_offset := o.val_offset + (validEnd - o.func_offset),
          overlap_size := foundEnd - validEnd }
      .ok (update (record o.func_offset) (record (validEnd + second.overlap_size))
        (copied second (copied first p.pkt.data)))
    else if (0 < c ∧ 0 < b) ∨ (a < 0 ∧ d < 0) then .error .discontiguous
    else
      .ok (update p.bytesValidStart p.bytesValidEnd (copied o p.pkt.data))

/--
Check a functional access against a value (`checkFunctional`).

The answer says whether the access is satisfied; a write updates the value instead.
-/
def checkFunctional (addr : Addr) (is_secure : Bool) (size : Int) (data : Option (Nat → UInt8))
    (p : FunctionalPacket) :
    Except FunctionalFault (Bool × FunctionalPacket × Option (Nat → UInt8)) :=
  let func_start := p.pkt.addr
  let func_end := p.pkt.addr + BitVec.ofNat 64 p.pkt.size - 1#64
  let val_start := addr
  let val_end := val_start + BitVec.ofInt 64 size - 1#64
  if is_secure ≠ p.pkt.isSecure ∨ val_end < func_start ∨ func_end < val_start then
    .ok (false, p, data)
  else if p.pkt.cmd.testCmdAttrib .isPrint then .ok (false, p, data)
  else
    match data with
    | none => .ok (false, p, none)
    | some value =>
      let offset := int (func_start - val_start)
      if p.pkt.cmd.isRead then
        if val_start ≤ func_start ∧ func_end ≤ val_end then
          .ok (true, { p with pkt := { p.pkt with
            data := memcpy p.pkt.data 0 value offset p.pkt.size } }, data)
        else do
          let o ← overlapOf func_start func_end val_start val_end size
          let p ← copyPartial o value p
          if p.pkt.size < p.bytesValidEnd.toNat then .error .beyondSize
          else
            .ok (p.bytesValidStart = 0 ∧ p.bytesValidEnd.toNat = p.pkt.size, p, data)
      else if p.pkt.cmd.isWrite then
        let last := if func_end < val_end then func_end else val_end
        .ok (false, p, some (
          if 0 ≤ offset then memcpy value offset p.pkt.data 0 (int (last - func_start) + 1)
          else memcpy value 0 p.pkt.data (-offset) (int (last - val_start) + 1)))
      else .error .unknownCommand

end FunctionalPacket

end GemDroid
