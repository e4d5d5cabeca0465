import GemDroid.Lib.While
import GemDroid.Lib.Tiling
import GemDroid.Mem.Lru

/-! Regions of memory that are visited chunk by chunk, where chunks end at aligned addresses. -/

namespace GemDroid

/-- Round up to a multiple of an alignment, which is an `int` whatever the type of the value. -/
def roundUp (val : Addr) (align : BitVec 32) : Addr :=
  let mask := align.signExtend 64 - 1
  (val + mask) &&& ~~~mask

/-- A region that is visited chunk by chunk. -/
structure ChunkGenerator where
  curAddr : Addr
  nextAddr : Addr
  curSize : BitVec 32
  sizeLeft : BitVec 32
  startAddr : Addr
  chunkSize : BitVec 32
  deriving DecidableEq, Repr

namespace ChunkGenerator

/-- Where the second chunk starts, as the constructor computes it. -/
def firstNextAddr (startAddr : Addr) (totalSize chunkSize : BitVec 32) : Addr :=
  -- Without a chunk size there is one chunk only.
  if chunkSize = 0 then startAddr + totalSize.setWidth 64
  else
    let nextAddr := roundUp startAddr chunkSize
    if startAddr = nextAddr then nextAddr + chunkSize.setWidth 64 else nextAddr

/-- What the constructor makes of a region, unless its assertion fails. -/
def construct (startAddr : Addr) (totalSize chunkSize : BitVec 32) : Option ChunkGenerator :=
  if chunkSize = 0 ∨ isPowerOf2 chunkSize.toNat then
    let nextAddr := firstNextAddr startAddr totalSize chunkSize
    let left_in_chunk := (nextAddr - startAddr).setWidth 32
    let curSize := if left_in_chunk < totalSize then left_in_chunk else totalSize
    some { curAddr := startAddr, nextAddr, curSize, sizeLeft := totalSize - curSize
           startAddr, chunkSize }
  else none

/-- The start of the current chunk. -/
def addr (gen : ChunkGenerator) : Addr :=
  gen.curAddr

/-- The size of the current chunk. -/
def size (gen : ChunkGenerator) : BitVec 32 :=
  gen.curSize

/-- How many bytes have been visited already, as an `unsigned`. -/
def complete (gen : ChunkGenerator) : BitVec 32 :=
  (gen.curAddr - gen.startAddr).setWidth 32

/-- Whether the last advance went past the end of the region. -/
def done (gen : ChunkGenerator) : Bool :=
  gen.curSize == 0

/-- Advance to the next chunk; the result tells whether there is one. -/
def next (gen : ChunkGenerator) : Bool × ChunkGenerator :=
  if gen.sizeLeft = 0 then (false, { gen with curSize := 0 })
  else
    let curSize := if gen.chunkSize < gen.sizeLeft then gen.chunkSize else gen.sizeLeft
    (true, { gen with curAddr := gen.nextAddr, curSize, sizeLeft := gen.sizeLeft - curSize
                      nextAddr := gen.nextAddr + curSize.setWidth 64 })

/-- What a caller sees of a chunk. -/
structure Chunk where
  addr : Addr
  size : BitVec 32
  complete : BitVec 32
  deriving DecidableEq, Repr

/-- The current chunk. -/
def chunk (gen : ChunkGenerator) : Chunk :=
  { addr := gen.addr, size := gen.size, complete := gen.complete }

/-- One round of the loop over the chunks: use the current one and advance. -/
def visit (s : ChunkGenerator × List Chunk) : Option (ChunkGenerator × List Chunk) :=
  some (s.1.next.2, s.2 ++ [s.1.chunk])

/-- The loop over the chunks until `done`, with what it visits; nothing if the fuel ends first. -/
def chunks (fuel : Nat) (gen : ChunkGenerator) : Option (List Chunk) :=
  (While.loop (fun s => !s.1.done) visit fuel (gen, [])).map Prod.snd

/-- A chunk as a piece of the region. -/
def Chunk.piece (chunk : Chunk) : Nat × Nat :=
  (chunk.addr.toNat, chunk.size.toNat)

/-- The region is visited in order, chunk by chunk, and every chunk knows what came before it. -/
structure Partitions (startAddr : Addr) (totalSize chunkSize : BitVec 32)
    (visited : List Chunk) : Prop where
  tiles : Tiling.Tiles startAddr.toNat (visited.map Chunk.piece)
    (startAddr.toNat + totalSize.toNat)
  /-- No chunk crosses an aligned address. -/
  aligned : chunkSize ≠ 0 → ∀ chunk ∈ visited, ∃ k, k * chunkSize.toNat ≤ chunk.addr.toNat ∧
    chunk.addr.toNat + chunk.size.toNat ≤ (k + 1) * chunkSize.toNat
  complete : ∀ before chunk after, visited = before ++ chunk :: after →
    chunk.complete.toNat = Tiling.covered (before.map Chunk.piece)

/-- The constructor accepts a region, and the loop over its chunks ends having partitioned it. -/
def Chunked (startAddr : Addr) (totalSize chunkSize : BitVec 32) : Prop :=
  ∃ gen, construct startAddr totalSize chunkSize = some gen ∧
    ∃ fuel visited, gen.chunks fuel = some visited ∧
      Partitions startAddr totalSize chunkSize visited

end ChunkGenerator

end GemDroid
