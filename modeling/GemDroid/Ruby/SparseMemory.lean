import GemDroid.Defines
import GemDroid.Lib.Nested
import GemDroid.Mem.Lru
import GemDroid.Ruby.CacheMemory

/-! The sparse memory of a directory: nested tables whose keys are cut out of the address. -/

namespace GemDroid

/-- The exponent of the power of two that a number is rounded up to. -/
def ceilLog2 (n : Nat) : Nat :=
  if n = 1 then 0 else (n - 1).log2 + 1

/-- The sizes that the memory system is made with. -/
structure RubySystem where
  m_block_size_bytes : Nat
  block_isPowerOf2 : isPowerOf2 m_block_size_bytes = true
  block_unsigned : m_block_size_bytes < 2 ^ 32
  m_memory_size_bytes : Nat
  memory_uint64 : m_memory_size_bytes < 2 ^ 64

namespace RubySystem

def getBlockSizeBits (ruby : RubySystem) : Nat :=
  ruby.m_block_size_bytes.log2

def getMemorySizeBits (ruby : RubySystem) : Nat :=
  if ruby.m_memory_size_bytes = 0 then 0 else ceilLog2 ruby.m_memory_size_bytes

end RubySystem

/-- The bits of an address between two positions, both of which become `unsigned`. -/
def bitSelect (small big : Int) (m_address : Addr) : Option Addr :=
  let small := (small % 2 ^ 32).toNat
  let big := (big % 2 ^ 32).toNat
  if big ≥ small then
    if big ≥ 64 - 1 then some (m_address >>> small)
    else
      let mask := ~~~(BitVec.allOnes 64 <<< (big + 1))
      some ((m_address &&& mask) >>> small)
  else none

def maskLowOrderBits (number : Nat) (m_address : Addr) : Addr :=
  if number ≥ 64 - 1 then m_address &&& BitVec.allOnes 64
  else m_address &&& (BitVec.allOnes 64 <<< number)

/-- The address of the block. -/
def lineAddress (ruby : RubySystem) (addr : Addr) : Addr :=
  maskLowOrderBits ruby.getBlockSizeBits addr

/-- An entry of a directory, as far as the memory goes. -/
structure DirectoryEntry where
  /-- The object that the pointer leads to. -/
  object : Nat
  m_DataBlk : DataBlock

/-- The entry after `getDataBlk().clear()`. -/
def DirectoryEntry.clear (entry : DirectoryEntry) : DirectoryEntry :=
  { entry with m_DataBlk := fun _ => 0 }

/-- A record of the trace, always of a store at time zero. -/
structure BlockRecord where
  cntrl : Int
  data_addr : Addr
  data : DataBlock

/-- The memory, with one level more than the number of its last one. -/
structure SparseMemory (last_level : Nat) where
  ruby : RubySystem
  m_total_number_of_bits : Int
  m_number_of_bits_per_level : Nat → Int
  m_map_head : Nested Addr DirectoryEntry (last_level + 1)

namespace SparseMemory

variable {last_level : Nat}

/-- The constructor, for a number of levels that is not zero. -/
def create (ruby : RubySystem) (last_level : Nat) : SparseMemory last_level :=
  let m_total_number_of_bits : Int := ruby.getMemorySizeBits - ruby.getBlockSizeBits
  let m_number_of_levels : Int := last_level + 1
  let even_level_bits := m_total_number_of_bits.tdiv m_number_of_levels
  let extra := m_total_number_of_bits.tmod m_number_of_levels
  { ruby
    m_total_number_of_bits
    m_number_of_bits_per_level := fun level =>
      if (level : Int) < extra then even_level_bits + 1 else even_level_bits
    m_map_head := (∅ : AList fun _ : Addr => Nested Addr DirectoryEntry last_level) }

section loops

variable (m_number_of_bits_per_level : Nat → Int) (address : Addr)

/-- The loop of `exist`, from some level on. -/
def existLoop : (n : Nat) → (level : Nat) → (highBit : Int) → Nested Addr DirectoryEntry n →
    Option Bool
  | 0, _, _, _ => some true
  | n + 1, level, highBit, curTable =>
    let lowBit := highBit - m_number_of_bits_per_level level
    (bitSelect lowBit (highBit - 1) address).bind fun curAddress =>
      match curTable.get curAddress with
      | some next =>
        existLoop n (level + 1) (highBit - m_number_of_bits_per_level level) next
      | none => some false

/-- The loop of `lookup`. -/
def lookupLoop : (n : Nat) → (level : Nat) → (highBit : Int) → Nested Addr DirectoryEntry n →
    Option (Option DirectoryEntry)
  | 0, _, _, entry => some (some entry)
  | n + 1, level, highBit, curTable =>
    let lowBit := highBit - m_number_of_bits_per_level level
    (bitSelect lowBit (highBit - 1) address).bind fun curAddress =>
      match curTable.get curAddress with
      | some next =>
        lookupLoop n (level + 1) (highBit - m_number_of_bits_per_level level) next
      | none => some none

/-- The loop of `add`, which gives the table with what it puts in. -/
def addLoop (entry : DirectoryEntry) : (n : Nat) → (level : Nat) → (highBit : Int) →
    Nested Addr DirectoryEntry n → Option (Nested Addr DirectoryEntry n)
  | 0, _, _, curTable => some curTable
  | n + 1, level, highBit, curTable =>
    let lowBit := highBit - m_number_of_bits_per_level level
    (bitSelect lowBit (highBit - 1) address).bind fun curAddress =>
      match curTable.get curAddress with
      | some next =>
        (addLoop entry n (level + 1) (highBit - m_number_of_bits_per_level level) next).map
          (curTable.put curAddress)
      | none =>
        -- On the last level the new entry is that of the directory, else a new table.
        let newEntry := Nested.fresh n entry.clear
        (addLoop entry n (level + 1) (highBit - m_number_of_bits_per_level level) newEntry).map
          (curTable.put curAddress)

/-- Remove the entry and the tables that become empty, with the size of what is left. -/
def recursivelyRemoveLevels : (n : Nat) → (level : Nat) → (highBit lowBit : Int) →
    Nested Addr DirectoryEntry (n + 1) → Option (Nat × Nested Addr DirectoryEntry (n + 1))
  -- The last level has the entries of the directory.
  | 0, _, highBit, lowBit, curTable =>
    (bitSelect lowBit (highBit - 1) address).bind fun curAddress =>
      (curTable.get curAddress).map fun _ =>
        let curTable := curTable.drop curAddress
        (curTable.items.length, curTable)
  | n + 1, level, highBit, lowBit, curTable =>
    (bitSelect lowBit (highBit - 1) address).bind fun curAddress =>
      (curTable.get curAddress).bind fun nextTable =>
        (recursivelyRemoveLevels n (level + 1) (highBit - m_number_of_bits_per_level level)
          (lowBit - m_number_of_bits_per_level (level + 1)) nextTable).map fun next =>
            let curTable :=
              if next.1 = 0 then curTable.drop curAddress else curTable.put curAddress next.2
            (curTable.items.length, curTable)

end loops

/-- The highest bit of an address that counts, and one more. -/
def highBit (m : SparseMemory last_level) : Int :=
  m.m_total_number_of_bits + m.ruby.getBlockSizeBits

def exist (address : Addr) (m : SparseMemory last_level) : Option Bool :=
  if address = lineAddress m.ruby address then
    existLoop m.m_number_of_bits_per_level address (last_level + 1) 0 m.highBit m.m_map_head
  else none

def lookup (address : Addr) (m : SparseMemory last_level) : Option (Option DirectoryEntry) :=
  if address = lineAddress m.ruby address then
    lookupLoop m.m_number_of_bits_per_level address (last_level + 1) 0 m.highBit m.m_map_head
  else none

/-- Whether an address is there must be as an assertion says. -/
def assertExist (address : Addr) (expected : Bool) (m : SparseMemory last_level) : Option Unit :=
  (m.exist address).bind fun there => if there = expected then some () else none

def add (address : Addr) (entry : DirectoryEntry) (m : SparseMemory last_level) :
    Option (SparseMemory last_level) :=
  if address = lineAddress m.ruby address then
    (m.assertExist address false).bind fun _ =>
      (addLoop m.m_number_of_bits_per_level address entry (last_level + 1) 0 m.highBit
        m.m_map_head).bind fun m_map_head =>
          let m := { m with m_map_head }
          (m.assertExist address true).map fun _ => m
  else none

def remove (address : Addr) (m : SparseMemory last_level) : Option (SparseMemory last_level) :=
  if address = lineAddress m.ruby address then
    (m.assertExist address true).bind fun _ =>
      (recursivelyRemoveLevels m.m_number_of_bits_per_level address last_level 0 m.highBit
        (m.highBit - m.m_number_of_bits_per_level 0) m.m_map_head).bind fun left =>
          let m := { m with m_map_head := left.2 }
          (m.assertExist address false).map fun _ => m
  else none

/-- Take all nodes out of one queue and put what is in them into the other. -/
def explore (lowBit : Int) {n : Nat} : (queue : List (Nested Addr DirectoryEntry (n + 1) × Addr)) →
    (other : List (Nested Addr DirectoryEntry n × Addr)) →
    List (Nested Addr DirectoryEntry n × Addr)
  | [], other => other
  | (node, address) :: queue, other =>
    explore lowBit queue
      (other ++ node.items.map fun (curAddress, entry) =>
        (entry, address ||| (curAddress <<< lowBit.toNat)))

/-- Go through the levels, the nodes of one after the other. -/
def walkLevels (m_number_of_bits_per_level : Nat → Int) : (n : Nat) → (cur_level : Nat) →
    (highBit : Int) → List (Nested Addr DirectoryEntry n × Addr) → List (DirectoryEntry × Addr)
  | 0, _, _, nodes => nodes
  | n + 1, cur_level, highBit, nodes =>
    let lowBit := highBit - m_number_of_bits_per_level cur_level
    walkLevels m_number_of_bits_per_level n (cur_level + 1)
      (highBit - m_number_of_bits_per_level cur_level) (explore lowBit nodes [])

/-- The record of an entry. -/
def record (cntrl_id : Int) (e : DirectoryEntry × Addr) : BlockRecord where
  cntrl := cntrl_id
  data_addr := e.2
  data := e.1.m_DataBlk

/-- The records of all entries. -/
def recordBlocks (cntrl_id : Int) (m : SparseMemory last_level) : List BlockRecord :=
  (walkLevels m.m_number_of_bits_per_level (last_level + 1) 0 m.highBit
    [(m.m_map_head, 0)]).map (record cntrl_id)

end SparseMemory

end GemDroid
