import GemDroid.Lib.Align
import GemDroid.Lib.Run
import GemDroid.Mem.Lru

/-! The page table of a process, and the three entries it keeps for the next lookups. -/

namespace GemDroid

/-- What the architecture says of the entries of a page table (`TheISA::TlbEntry`). -/
structure TlbIsa (Entry : Type) where
  /-- The entry of a new object. -/
  blank : Entry
  /-- The entry that maps a page of a process. -/
  entry : (pid : BitVec 64) → (vaddr paddr : Addr) → Entry
  updateVaddr : (new_vaddr : Addr) → Entry → Entry

/-- What a page table is made with. -/
structure PageTableConfig (Entry : Type) where
  isa : TlbIsa Entry
  pid : BitVec 64
  pageSize : Nat
  pageSize_isPowerOf2 : isPowerOf2 pageSize = true
  pageSize_addr : pageSize < 2 ^ 64

/-- An entry that is kept for the next lookups (`cacheElement`). -/
structure CacheElement (Entry : Type) where
  valid : Bool
  vaddr : Addr
  entry : Entry

/-- A slot answers for a page. -/
def CacheElement.holds {Entry : Type} (vaddr : Addr) (slot : CacheElement Entry) : Bool :=
  slot.valid && slot.vaddr == vaddr

/-- A page table, whose cache has three slots (`pTableCache`). -/
structure PageTable (Entry : Type) where
  pTable : Addr → Option Entry
  slot0 : CacheElement Entry
  slot1 : CacheElement Entry
  slot2 : CacheElement Entry

namespace PageTable

variable {Entry : Type} (config : PageTableConfig Entry)

def pageAlign (a : Addr) : Addr :=
  Align.align config.pageSize a

def pageOffset (a : Addr) : Nat :=
  Align.offset config.pageSize a

/-- How many pages a range of some size begins, for each of which the loops go round once. -/
def pages (size : Int) : Nat :=
  ((size + config.pageSize - 1) / config.pageSize).toNat

/-- The page behind another one. -/
def nextPage (vaddr : Addr) : Addr :=
  vaddr + BitVec.ofNat 64 config.pageSize

/-- Put an entry into the first slot, and those of the others one slot back. -/
def updateCache (vaddr : Addr) (entry : Entry) (t : PageTable Entry) : PageTable Entry :=
  { t with slot0 := { valid := true, vaddr, entry }, slot1 := t.slot0, slot2 := t.slot1 }

/-- Clear the first slot that answers for a page. -/
def eraseCacheEntry (vaddr : Addr) (t : PageTable Entry) : PageTable Entry :=
  if t.slot0.holds vaddr then { t with slot0 := { t.slot0 with valid := false } }
  else if t.slot1.holds vaddr then { t with slot1 := { t.slot1 with valid := false } }
  else if t.slot2.holds vaddr then { t with slot2 := { t.slot2 with valid := false } }
  else t

def setPage (vaddr : Addr) (entry : Option Entry) (t : PageTable Entry) : PageTable Entry :=
  { t with pTable := Function.update t.pTable vaddr entry }

/-- A new page table; its slots have no valid entry (the constructor). -/
def create (slots : Fin 3 → CacheElement Entry) : PageTable Entry where
  pTable _ := none
  slot0 := { slots 0 with valid := false }
  slot1 := { slots 1 with valid := false }
  slot2 := { slots 2 with valid := false }

/-- Map one page (in `map`). -/
def mapPage (vaddr paddr : Addr) (t : PageTable Entry) : PageTable Entry :=
  let entry := config.isa.entry config.pid vaddr paddr
  ((t.setPage vaddr (some entry)).eraseCacheEntry vaddr).updateCache vaddr entry

/-- The loop of `map`, which ends at a page that is mapped already if it may not be replaced. -/
def mapPages (clobber : Bool) : Nat → (vaddr paddr : Addr) → PageTable Entry →
    Option (PageTable Entry)
  | 0, _, _, t => some t
  | n + 1, vaddr, paddr, t =>
    if !clobber && (t.pTable vaddr).isSome then none
    else mapPages clobber n (nextPage config vaddr) (nextPage config paddr)
      (t.mapPage config vaddr paddr)

def map (vaddr paddr : Addr) (size : Int) (clobber : Bool) (t : PageTable Entry) :
    Option (PageTable Entry) :=
  if pageOffset config vaddr ≠ 0 then none
  else mapPages config clobber (pages config size) vaddr paddr t

/-- Move one page, which has to be mapped (in `remap`). -/
def remapPage (vaddr new_vaddr : Addr) (t : PageTable Entry) : Option (PageTable Entry) :=
  match t.pTable vaddr with
  | none => none
  | some entry =>
    let t := ((t.setPage new_vaddr (some entry)).setPage vaddr none).eraseCacheEntry vaddr
    let moved := config.isa.updateVaddr new_vaddr ((t.pTable new_vaddr).getD config.isa.blank)
    some ((t.setPage new_vaddr (some moved)).updateCache new_vaddr moved)

def remapPages : Nat → (vaddr new_vaddr : Addr) → PageTable Entry → Option (PageTable Entry)
  | 0, _, _, t => some t
  | n + 1, vaddr, new_vaddr, t =>
    (t.remapPage config vaddr new_vaddr).bind
      (remapPages n (nextPage config vaddr) (nextPage config new_vaddr))

def remap (vaddr : Addr) (size : Int) (new_vaddr : Addr) (t : PageTable Entry) :
    Option (PageTable Entry) :=
  if pageOffset config vaddr ≠ 0 ∨ pageOffset config new_vaddr ≠ 0 then none
  else remapPages config (pages config size) vaddr new_vaddr t

/-- Unmap one page, which has to be mapped (in `unmap`). -/
def unmapPage (vaddr : Addr) (t : PageTable Entry) : Option (PageTable Entry) :=
  if (t.pTable vaddr).isNone then none
  else some ((t.setPage vaddr none).eraseCacheEntry vaddr)

def unmapPages : Nat → (vaddr : Addr) → PageTable Entry → Option (PageTable Entry)
  | 0, _, t => some t
  | n + 1, vaddr, t => (t.unmapPage vaddr).bind (unmapPages n (nextPage config vaddr))

def unmap (vaddr : Addr) (size : Int) (t : PageTable Entry) : Option (PageTable Entry) :=
  if pageOffset config vaddr ≠ 0 then none
  else unmapPages config (pages config size) vaddr t

/-- Look a page up, first in the slots of the cache and then in the table. -/
def lookup (vaddr : Addr) (t : PageTable Entry) : PageTable Entry × Option Entry :=
  let page_addr := pageAlign config vaddr
  if t.slot0.holds page_addr then (t, some t.slot0.entry)
  else if t.slot1.holds page_addr then (t, some t.slot1.entry)
  else if t.slot2.holds page_addr then (t, some t.slot2.entry)
  else
    match t.pTable page_addr with
    | none => (t, none)
    | some entry => (t.updateCache page_addr entry, some entry)

/-- Load the entries of a checkpoint in place of those of the table. -/
def unserialize (entries : List (Addr × Entry)) (t : PageTable Entry) : PageTable Entry :=
  entries.foldl (fun t e => t.setPage e.1 (some e.2)) { t with pTable := fun _ => none }

/-- The ranges of a move, which have no page in common. -/
structure Move where
  vaddr : Addr
  size : Int
  new_vaddr : Addr
  apart : ∀ j < pages config size, ∀ k < pages config size,
    vaddr + BitVec.ofNat 64 (j * config.pageSize) ≠
      new_vaddr + BitVec.ofNat 64 (k * config.pageSize)

/-- What is done with a page table. -/
inductive Op
  | map (vaddr paddr : Addr) (size : Int) (clobber : Bool)
  | remap (move : Move config)
  | unmap (vaddr : Addr) (size : Int)
  | lookup (vaddr : Addr)
  | unserialize (entries : List (Addr × Entry))

/-- Take one step, which an assertion or a fatal error may refuse. -/
def step (t : PageTable Entry) : Op config → Option (PageTable Entry)
  | .map vaddr paddr size clobber => t.map config vaddr paddr size clobber
  | .remap move => t.remap config move.vaddr move.size move.new_vaddr
  | .unmap vaddr size => t.unmap config vaddr size
  | .lookup vaddr => some (t.lookup config vaddr).1
  | .unserialize entries => some (t.unserialize entries)

end PageTable

end GemDroid
