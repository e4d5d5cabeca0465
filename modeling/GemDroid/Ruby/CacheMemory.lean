import Mathlib.Algebra.Group.Nat.Defs
import Mathlib.Logic.Function.Basic

/-! The cache of a controller: its slots, the index of its tags, and the locks of its blocks. -/

namespace GemDroid

/-- What a controller may do with a block. -/
inductive AccessPermission where
  | readOnly
  | readWrite
  | maybeStale
  | backingStore
  | busy
  | invalid
  | notPresent
  deriving DecidableEq

/-- The permissions that end a reservation. -/
def AccessPermission.lost (perm : AccessPermission) : Bool :=
  perm = .invalid || perm = .notPresent

/-- The bytes of a block. -/
abbrev DataBlock := Nat → UInt8

namespace DataBlock

/-- The block with some of its bytes overwritten. -/
def setData (block : DataBlock) (data : Nat → UInt8) (offset len : Nat) : DataBlock :=
  fun k => if offset ≤ k ∧ k < offset + len then data (k - offset) else block k

/-- The block with some of its bytes taken from the same place in another block. -/
def copyPartial (block dblk : DataBlock) (offset len : Nat) : DataBlock :=
  block.setData (fun k => dblk (offset + k)) offset len

/-- Bytes of the block from an offset on. -/
def getData (block : DataBlock) (offset : Nat) : Nat → UInt8 :=
  fun k => block (offset + k)

end DataBlock

/-- A block in the cache. -/
structure CacheEntry where
  address : Nat
  permission : AccessPermission
  /-- Who holds the lock, if anyone does. -/
  locked : Option Nat
  dataBlk : DataBlock

/-- A change of permission, which may clear the lock. -/
def CacheEntry.changePermission (new_perm : AccessPermission) (entry : CacheEntry) : CacheEntry :=
  { entry with
    permission := new_perm
    locked := if new_perm.lost then none else entry.locked }

/-- The slots of the cache and the index that says in which one an address is. -/
structure CacheMemory where
  start_index_bit : Nat
  cache_num_set_bits : Nat
  cache_assoc : Nat
  cache : Nat → Nat → Option CacheEntry := fun _ _ => none
  tag_index : Nat → Option Nat := fun _ => none

namespace CacheMemory

/-- The set of an address. -/
def addressToCacheSet (m : CacheMemory) (address : Nat) : Nat :=
  address / 2 ^ m.start_index_bit % 2 ^ m.cache_num_set_bits

/-- The slot in which an address is, unless its permission says that it is not there. -/
def findTagInSet (m : CacheMemory) (cacheSet tag : Nat) : Option Nat :=
  (m.tag_index tag).filter fun loc =>
    (m.cache cacheSet loc).any fun entry => entry.permission != .notPresent

/-- The entry of an address. -/
def lookup (m : CacheMemory) (address : Nat) : Option CacheEntry :=
  (m.findTagInSet (m.addressToCacheSet address) address).bind
    (m.cache (m.addressToCacheSet address))

def isTagPresent (m : CacheMemory) (address : Nat) : Bool :=
  (m.findTagInSet (m.addressToCacheSet address) address).isSome

/-- There is room for the address in its set. -/
def cacheAvail (m : CacheMemory) (address : Nat) : Bool :=
  (List.range m.cache_assoc).any fun i =>
    (m.cache (m.addressToCacheSet address) i).all fun entry =>
      entry.address = address || entry.permission = .notPresent

/-- The first slot that can be taken. -/
def openSlot (m : CacheMemory) (address : Nat) : Option Nat :=
  (List.range m.cache_assoc).find? fun i =>
    (m.cache (m.addressToCacheSet address) i).all fun entry => entry.permission = .notPresent

/-- A change of one slot. -/
def setSlot (m : CacheMemory) (cacheSet loc : Nat) (entry : Option CacheEntry) : CacheMemory :=
  { m with
    cache := Function.update m.cache cacheSet (Function.update (m.cache cacheSet) loc entry) }

/-- A new entry takes the first open slot; there is a panic if there is none. -/
def allocate (m : CacheMemory) (address : Nat) (dataBlk : DataBlock) : Option CacheMemory :=
  (m.openSlot address).map fun i =>
    { m.setSlot (m.addressToCacheSet address) i
        (some { address, permission := .invalid, locked := none, dataBlk }) with
      tag_index := Function.update m.tag_index address (some i) }

/-- The entry of an address leaves its slot. -/
def deallocate (m : CacheMemory) (address : Nat) : CacheMemory :=
  match m.findTagInSet (m.addressToCacheSet address) address with
  | some loc =>
    { m.setSlot (m.addressToCacheSet address) loc none with
      tag_index := Function.update m.tag_index address none }
  | none => m

/-- A change of the entry of an address. -/
def modify (m : CacheMemory) (address : Nat) (change : CacheEntry → CacheEntry) : CacheMemory :=
  match m.findTagInSet (m.addressToCacheSet address) address with
  | some loc => m.setSlot (m.addressToCacheSet address) loc
      ((m.cache (m.addressToCacheSet address) loc).map change)
  | none => m

def setLocked (m : CacheMemory) (address context : Nat) : CacheMemory :=
  m.modify address fun entry => { entry with locked := some context }

def clearLocked (m : CacheMemory) (address : Nat) : CacheMemory :=
  m.modify address fun entry => { entry with locked := none }

def isLocked (m : CacheMemory) (address context : Nat) : Bool :=
  (m.lookup address).any fun entry => entry.locked = some context

end CacheMemory

end GemDroid
