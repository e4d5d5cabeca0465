import GemDroid.Lib.Links
import GemDroid.Mem.FaLru

/-! The fully associative tag store with the pointers of its blocks. -/

namespace GemDroid

namespace FaLruConfig

variable (config : FaLruConfig)

/-- A bit for each smaller cache. -/
def cacheMask : BitVec 32 :=
  (1#32 <<< config.numCaches) - 1#32

/-- How many blocks a smaller cache has. -/
def blocksIn (i : Nat) : Nat :=
  (2 ^ 17 <<< i) / config.blkSize

end FaLruConfig

/-- The fully associative tag store, with a map for each field of its blocks. -/
structure FALRU where
  blks : Nat → CacheBlk
  inCache : Nat → BitVec 32
  /-- The pointers between the blocks (`prev`, `next`, `head` and `tail`). -/
  list : Links Nat
  cacheBoundaries : Nat → Option Nat
  tagHash : Addr → Option Nat
  warmedUp : Bool
  warmupCycle : Nat
  accesses : Nat
  hits : Nat → Nat
  misses : Nat → Nat
  /-- The first entry of `replacements`, the only one that is counted. -/
  replacements : Nat
  tagsInUse : Int

/-- What ends a run of the tag store. -/
inductive FALRUFault
  /-- A block is found under an address that is not its tag (`assert(blk->tag == blkAddr)`). -/
  | wrongTag
  /-- The last block is in one of the smaller caches (`assert(blk->inCache == 0)`). -/
  | victimInCache
  /-- A block lies behind the last one (`assert(blk->next == NULL)`). -/
  | behindTail
  | nullPointer
  deriving DecidableEq, Repr

namespace FALRU

variable (config : FaLruConfig)

def setInCache (i : Nat) (bits : BitVec 32) (tags : FALRU) : FALRU :=
  { tags with inCache := Function.update tags.inCache i bits }

def setBoundary (j : Nat) (blk : Option Nat) (tags : FALRU) : FALRU :=
  { tags with cacheBoundaries := Function.update tags.cacheBoundaries j blk }

/-- A pointer that the code follows. -/
def deref : Option Nat → Except FALRUFault Nat
  | some blk => .ok blk
  | none => .error .nullPointer

/-- How far the constructor is with the blocks. -/
structure Building where
  tags : FALRU
  index : BitVec 32
  j : Nat
  flags : BitVec 32

/-- Set up a block between the first and the last one (in the constructor). -/
def Building.add (b : Building) (i : Nat) : Building :=
  let tags := { b.tags.setInCache i b.flags with
    list := (b.tags.list.setPrev i (some (i - 1))).setNext i (some (i + 1)) }
  if BitVec.ofNat 32 i = b.index - 1#32 then
    { tags := tags.setBoundary b.j (some i)
      index := b.index <<< 1
      j := b.j + 1
      flags := b.flags &&& ~~~(1#32 <<< b.j) }
  else { b with tags }

/-- The first and the last block, before the others are set up (in the constructor). -/
def ends (raw : Nat → Nat → UInt8) : FALRU where
  blks i := { tag := 0, status := .zero, data := raw i, lockList := [] }
  inCache := Function.update (fun _ => 0#32) 0 config.cacheMask
  list :=
    { prev := Function.update (fun _ => none) (config.numBlocks - 1) (some (config.numBlocks - 2))
      next := Function.update (fun _ => none) 0 (some 1)
      head := some 0
      tail := some (config.numBlocks - 1) }
  cacheBoundaries _ := none
  tagHash _ := none
  warmedUp := false
  warmupCycle := 0
  accesses := 0
  hits _ := 0
  misses _ := 0
  replacements := 0
  tagsInUse := 0

/-- The constructor before it sets up the blocks between the first and the last one. -/
def begun (raw : Nat → Nat → UInt8) : Building where
  tags := ends config raw
  index := BitVec.ofNat 32 (2 ^ 17 / config.blkSize)
  j := 0
  flags := config.cacheMask

/-- The constructor, unless one of the assertions at its end fails. -/
def construct (raw : Nat → Nat → UInt8) : Option FALRU :=
  let built := (List.range' 1 (config.numBlocks - 2)).foldl Building.add (begun config raw)
  if built.j = config.numCaches ∧ built.index = BitVec.ofNat 32 config.numBlocks then
    some built.tags
  else none

/-- Keep the boundary of a smaller cache when a block moves to the front (in `moveToHead`). -/
def moveBoundary (blk : Nat) (updateMask : BitVec 32) (tags : FALRU) (i : Nat) :
    Except FALRUFault FALRU :=
  if 1#32 <<< i &&& updateMask ≠ 0 then do
    let last ← deref (tags.cacheBoundaries i)
    let tags := tags.setInCache last (tags.inCache last &&& ~~~(1#32 <<< i))
    return tags.setBoundary i (tags.list.prev last)
  else if tags.cacheBoundaries i = some blk then
    .ok (tags.setBoundary i (tags.list.prev blk))
  else .ok tags

/-- Let the neighbours of a block that is not the first lead past it (in `moveToHead`). -/
def takeOut (blk : Nat) (list : Links Nat) : Except FALRUFault (Links Nat) :=
  if list.tail = some blk then
    if list.next blk ≠ none then .error .behindTail
    else do
      let last ← deref (list.prev blk)
      return { list with tail := list.prev blk }.setNext last none
  else do
    let before ← deref (list.prev blk)
    let behind ← deref (list.next blk)
    return (list.setNext before (list.next blk)).setPrev behind (list.prev blk)

/-- Make a block the first of the list (in `moveToHead`). -/
def relink (blk : Nat) (list : Links Nat) : Except FALRUFault (Links Nat) :=
  if list.head = some blk then .ok list
  else do
    let list ← takeOut blk list
    let first ← deref list.head
    return { ((list.setNext blk list.head).setPrev blk none).setPrev first (some blk) with
      head := some blk }

def moveToHead (blk : Nat) (tags : FALRU) : Except FALRUFault FALRU := do
  let updateMask := tags.inCache blk ^^^ config.cacheMask
  let tags ← (List.range config.numCaches).foldlM (moveBoundary blk updateMask) tags
  let list ← relink blk tags.list
  return { tags.setInCache blk config.cacheMask with list }

/-- The valid block under an address, which has to be its tag. -/
def findBlock (addr : Addr) (tags : FALRU) : Except FALRUFault (Option Nat) :=
  let blkAddr := config.blkAlign addr
  match tags.tagHash blkAddr with
  | some blk =>
    if (tags.blks blk).isValid then
      if (tags.blks blk).tag = blkAddr then .ok (some blk) else .error .wrongTag
    else .ok none
  | none => .ok none

/-- Count a hit in the whole cache and in those smaller ones that a block is in. -/
def countHit (inCache : BitVec 32) (tags : FALRU) : FALRU :=
  { tags with
    hits := fun i =>
      if i < config.numCaches ∧ 1#32 <<< i &&& inCache ≠ 0 ∨ i = config.numCaches then
        tags.hits i + 1
      else tags.hits i
    misses := fun i =>
      if i < config.numCaches ∧ ¬ 1#32 <<< i &&& inCache ≠ 0 then tags.misses i + 1
      else tags.misses i }

/-- Count a miss in all caches. -/
def countMiss (tags : FALRU) : FALRU :=
  { tags with
    misses := fun i => if i ≤ config.numCaches then tags.misses i + 1 else tags.misses i }

/-- Look a block up, which moves it to the front, and return the caches it was in. -/
def accessBlock (addr : Addr) (tags : FALRU) :
    Except FALRUFault (FALRU × Option Nat × BitVec 32) := do
  let tags := { tags with accesses := tags.accesses + 1 }
  match ← findBlock config addr tags with
  | some blk =>
    let inCache := tags.inCache blk
    let tags := tags.countHit config inCache
    let tags ← if tags.list.head = some blk then .ok tags else moveToHead config blk tags
    return (tags, some blk, inCache)
  | none => return (tags.countMiss config, none, 0#32)

/-- Count a block that comes into use, the last of which ends the warm-up (in `findVictim`). -/
def countInUse (now : Nat) (tags : FALRU) : FALRU :=
  let tags := { tags with tagsInUse := tags.tagsInUse + 1 }
  if !tags.warmedUp ∧ tags.tagsInUse ≥ (config.numBlocks : Int) then
    { tags with warmedUp := true, warmupCycle := now }
  else tags

/-- Take the last block of the list for an address. -/
def findVictim (addr : Addr) (now : Nat) (tags : FALRU) : Except FALRUFault (FALRU × Nat) := do
  let blk ← deref tags.list.tail
  if tags.inCache blk ≠ 0#32 then .error .victimInCache
  else
    let tags ← moveToHead config blk tags
    let erased := Function.update tags.tagHash (tags.blks blk).tag none
    let tags := { tags with
      tagHash := Function.update erased (config.blkAlign addr) (some blk) }
    if (tags.blks blk).isValid then
      return ({ tags with replacements := tags.replacements + 1 }, blk)
    else return (tags.countInUse config now, blk)

/-- Nothing but a number changes when a block is dropped (`invalidate`). -/
def invalidate (tags : FALRU) : FALRU :=
  { tags with tagsInUse := tags.tagsInUse - 1 }

/-- Walk the list on from a block and compare it with what is expected (in `check`). -/
def checkFrom (tags : FALRU) : Nat → Option Nat → BitVec 32 → BitVec 32 → Nat → BitVec 32 →
    Option Bool
  | 0, _, _, _, _, _ => none
  | _ + 1, none, _, _, _, _ => some true
  | fuel + 1, some blk, before, boundary, j, flags =>
    let tot_size := before + BitVec.ofNat 32 config.blkSize
    if tags.inCache blk ≠ flags then some false
    else if tot_size = boundary ∧ tags.list.tail ≠ some blk then
      if tags.cacheBoundaries j ≠ some blk then some false
      else
        checkFrom tags fuel (tags.list.next blk) tot_size (boundary <<< 1) (j + 1)
          (flags &&& ~~~(1#32 <<< j))
    else checkFrom tags fuel (tags.list.next blk) tot_size boundary j flags

/-- Whether all boundaries are where they should be, if the list has an end in reach. -/
def check (fuel : Nat) (tags : FALRU) : Option Bool :=
  checkFrom config tags fuel tags.list.head 0#32 (1#32 <<< 17) 0 config.cacheMask

end FALRU

end GemDroid
