import Mathlib.Logic.Function.Basic
import GemDroid.Mem.Mshr

/-! A queue of registers: the free ones, the allocated ones and those ready to be sent. -/

namespace GemDroid

/-- A fixed number of registers, linked in lists by their indices (`MSHRQueue`). -/
structure MshrQueue where
  numEntries : Nat
  numReserve : Nat
  registers : Nat → Mshr
  allocatedList : List Nat
  readyList : List Nat
  freeList : List Nat
  allocated : Int
  inServiceEntries : Int

namespace MshrQueue

/-- A queue without requests (`MSHRQueue::MSHRQueue`). -/
def create (num_entries reserve : Nat) : MshrQueue :=
  let numEntries := num_entries + reserve - 1
  { numEntries := numEntries, numReserve := reserve, registers := fun _ => .blank,
    allocatedList := [], readyList := [], freeList := List.range numEntries, allocated := 0,
    inServiceEntries := 0 }

/-- Whether only reserved entries are left (`isFull`). -/
def isFull (q : MshrQueue) : Bool :=
  q.allocated > (q.numEntries : Int) - q.numReserve

/-- When an entry may be sent. -/
def readyTime (q : MshrQueue) (i : Nat) : Nat :=
  (q.registers i).readyTime

/-- Change one register. -/
def setRegister (i : Nat) (mshr : Mshr) (q : MshrQueue) : MshrQueue :=
  { q with registers := Function.update q.registers i mshr }

/-- Take an entry out of a list by the iterator that is stored in it. -/
def unlink (i : Nat) (list : List Nat) : Except CacheFault (List Nat) :=
  if i ∈ list then .ok (list.erase i) else .error .staleIterator

/-- Insert an entry behind those that are ready no later (`addToReadyList`). -/
def addToReadyList (i : Nat) (q : MshrQueue) : Except CacheFault MshrQueue :=
  let earlier := fun j => decide (q.readyTime j ≤ q.readyTime i)
  if q.readyList.getLast?.all earlier then .ok { q with readyList := q.readyList ++ [i] }
  else
    match q.readyList.dropWhile earlier with
    | [] => .error .noLaterEntry
    | next :: rest =>
      .ok { q with readyList := q.readyList.takeWhile earlier ++ i :: next :: rest }

/-- Give the first free entry to a request (`allocate`). -/
def allocate (addr : Addr) (size : Nat) (pkt : Packet) (whenReady order : Nat) (q : MshrQueue) :
    Except CacheFault (MshrQueue × Nat) :=
  match q.freeList with
  | [] => .error .noFreeEntry
  | i :: rest =>
    if (q.registers i).getNumTargets ≠ 0 then .error .targetsLeft
    else do
      let mshr ← (q.registers i).allocate addr size pkt whenReady order
      let q := { q.setRegister i mshr with
        freeList := rest
        allocatedList := q.allocatedList ++ [i] }
      let q ← q.addToReadyList i
      return ({ q with allocated := q.allocated + 1 }, i)

/-- Free an entry (`deallocateOne`). -/
def deallocateOne (i : Nat) (q : MshrQueue) : Except CacheFault MshrQueue := do
  let allocatedList ← unlink i q.allocatedList
  let q := { q with
    allocatedList := allocatedList
    freeList := i :: q.freeList
    allocated := q.allocated - 1 }
  let q ←
    if (q.registers i).inService then
      .ok { q with inServiceEntries := q.inServiceEntries - 1 }
    else do
      let readyList ← unlink i q.readyList
      .ok { q with readyList := readyList }
  let mshr ← (q.registers i).deallocate
  return q.setRegister i mshr

/-- Let an entry go first (`moveToFront`). -/
def moveToFront (i : Nat) (q : MshrQueue) : Except CacheFault MshrQueue :=
  if (q.registers i).inService then .ok q
  else do
    let readyList ← unlink i q.readyList
    return { q with readyList := i :: readyList }

/-- Record that an entry was sent, which frees it if no response is expected (`markInService`). -/
def markInService (i : Nat) (shared memInhibit : Bool) (q : MshrQueue) :
    Except CacheFault MshrQueue := do
  let (mshr, done) ← (q.registers i).markInService shared memInhibit
  let q := q.setRegister i mshr
  if done then q.deallocateOne i
  else do
    let readyList ← unlink i q.readyList
    return { q with readyList := readyList, inServiceEntries := q.inServiceEntries + 1 }

/-- Put an entry back among those to be sent (`markPending`). -/
def markPending (i : Nat) (q : MshrQueue) : Except CacheFault MshrQueue :=
  if (q.registers i).inService then
    { q.setRegister i { q.registers i with inService := false } with
      inServiceEntries := q.inServiceEntries - 1 }.addToReadyList i
  else .error .notInService

/-- Drop the first target of an entry, and free it with its last (`forceDeallocateTarget`). -/
def forceDeallocateTarget (i now : Nat) (q : MshrQueue) : Except CacheFault (MshrQueue × Bool) :=
  if (q.registers i).targets.list.isEmpty then .error .noTargets
  else do
    let mshr := (q.registers i).popTarget
    let after ←
      if mshr.targets.list.isEmpty then do
        let (mshr, promoted) ← mshr.promoteDeferredTargets now
        if promoted then .ok (q.setRegister i mshr)
        else (q.setRegister i mshr).deallocateOne i
      else .ok (q.setRegister i mshr)
    -- Tell whether the queue is no longer full.
    return (after, q.isFull && !after.isFull)

end MshrQueue

end GemDroid
