import Mathlib.Data.List.AList
import GemDroid.Lib.LittleEndian

/-! Disk images, and the overlay of written sectors that is kept over one and saved to a file. -/

namespace GemDroid

/-- The bytes of a sector (`SectorSize`). -/
def sectorSize : Nat := 512

/-- The data of one sector. -/
structure Sector where
  data : List UInt8
  size : data.length = sectorSize
  deriving DecidableEq

/-- What makes the simulation panic over a disk image. -/
inductive DiskFault
  | outOfBounds
  | prematureEof
  | invalidMagic
  | invalidVersion
  /-- A sector that is already in the table, which an assertion rules out. -/
  | repeatedSector
  deriving DecidableEq, Repr

/-- An image of some sectors that can be read and written; nothing is said of sectors beyond. -/
structure DiskImage (σ : Type) where
  size : Nat
  /-- A stream position is a signed number of 64 bits. -/
  size_lt : size < 2 ^ 63
  read : Nat → σ → Except DiskFault Sector
  write : Sector → Nat → σ → Except DiskFault σ
  reads : ∀ k < size, ∀ s, ∃ data, read k s = .ok data
  writes : ∀ k < size, ∀ data s, ∃ s', write data k s = .ok s' ∧
    ∀ j < size, read j s' = if j = k then .ok data else read j s

/-- A sector with its number. -/
abbrev NumberedSector : Type :=
  Sigma fun _ : Nat => Sector

/-- The sectors that have been written (`SectorTable`). -/
abbrev SectorTable : Type :=
  AList fun _ : Nat => Sector

/-- An order in which the hash table goes through its sectors. -/
structure Traversal where
  order : SectorTable → List NumberedSector
  perm : ∀ table, (order table).Perm table.entries

/-- An overlay of written sectors over a child image. -/
structure CowDiskImage (σ : Type) where
  child : σ
  table : SectorTable

/-- The letters at the start of every saved image. -/
def cowMagic : List UInt8 :=
  "COWDISK!".toList.map fun letter => UInt8.ofNat letter.toNat

/-- The version that is saved (`VersionMajor` and `VersionMinor`). -/
def versionMajor : Nat := 1
def versionMinor : Nat := 0

/-- Read some bytes of a stream, with what is left of it (`SafeRead`). -/
def safeRead (count : Nat) (stream : List UInt8) :
    Except DiskFault (List UInt8 × List UInt8) :=
  if count ≤ stream.length then .ok (stream.take count, stream.drop count)
  else .error .prematureEof

/-- Read a number of some bytes (`SafeReadSwap`). -/
def safeReadSwap (width : Nat) (stream : List UInt8) : Except DiskFault (Nat × List UInt8) := do
  let (data, stream) ← safeRead width stream
  .ok (LittleEndian.decode data, stream)

/-- Read the data of a sector. -/
def safeReadSector (stream : List UInt8) : Except DiskFault (Sector × List UInt8) :=
  if enough : sectorSize ≤ stream.length then
    .ok (⟨stream.take sectorSize, by simp [enough]⟩, stream.drop sectorSize)
  else .error .prematureEof

/-- Read some sectors with their numbers into a table. -/
def readSectors : Nat → SectorTable → List UInt8 → Except DiskFault SectorTable
  | 0, table, _ => .ok table
  | count + 1, table, stream => do
    let (offset, stream) ← safeReadSwap 8 stream
    let (sector, stream) ← safeReadSector stream
    if offset ∈ table then .error .repeatedSector
    else readSectors count (table.insert offset sector) stream

namespace CowDiskImage

/-- The table that a saved image holds (`open`). -/
def openTable (stream : List UInt8) : Except DiskFault SectorTable := do
  let (magic, stream) ← safeRead 8 stream
  if magic ≠ cowMagic then .error .invalidMagic
  else do
    let (major, stream) ← safeReadSwap 4 stream
    let (minor, stream) ← safeReadSwap 4 stream
    -- One of the two numbers is enough for an image to be taken.
    if major ≠ versionMajor ∧ minor ≠ versionMinor then .error .invalidVersion
    else do
      let (sector_count, stream) ← safeReadSwap 8 stream
      readSectors sector_count ∅ stream

/-- A sector with its number, as it is saved. -/
def encodeSector (entry : NumberedSector) : List UInt8 :=
  LittleEndian.encode 8 entry.1 ++ entry.2.data

/-- The bytes of an image with some version and some sectors. -/
def encodeImage (major minor : Nat) (entries : List NumberedSector) : List UInt8 :=
  cowMagic ++ LittleEndian.encode 4 major ++ LittleEndian.encode 4 minor ++
    LittleEndian.encode 8 entries.length ++ entries.flatMap encodeSector

/-- The bytes that a table is saved as (`save`). -/
def save (traversal : Traversal) (table : SectorTable) : List UInt8 :=
  encodeImage versionMajor versionMinor (traversal.order table)

variable {σ : Type}

/-- An overlay without sectors (`initSectorTable`). -/
def initSectorTable (child : σ) : CowDiskImage σ :=
  ⟨child, ∅⟩

/-- Read a sector from the overlay, or else from the child (`read`). -/
def read (disk : DiskImage σ) (offset : Nat) (image : CowDiskImage σ) : Except DiskFault Sector :=
  if disk.size < offset then .error .outOfBounds
  else
    match image.table.lookup offset with
    | none => disk.read offset image.child
    | some sector => .ok sector

/-- Write a sector to the overlay (`write`). -/
def write (disk : DiskImage σ) (data : Sector) (offset : Nat) (image : CowDiskImage σ) :
    Except DiskFault (CowDiskImage σ) :=
  if disk.size < offset then .error .outOfBounds
  -- A sector that is there takes the data, another one is inserted with it.
  else .ok { image with table := image.table.insert offset data }

/-- Write all sectors of the overlay to the child (`writeback`). -/
def writeback (disk : DiskImage σ) (traversal : Traversal) (image : CowDiskImage σ) :
    Except DiskFault (CowDiskImage σ) := do
  let child ← (traversal.order image.table).foldlM
    (fun child entry => disk.write entry.2 entry.1 child) image.child
  .ok { image with child }

/-- Save the overlay and open the saved file. -/
def saveAndOpen (traversal : Traversal) (image : CowDiskImage σ) :
    Except DiskFault (CowDiskImage σ) := do
  let table ← openTable (save traversal image.table)
  .ok { image with table }

end CowDiskImage

end GemDroid
