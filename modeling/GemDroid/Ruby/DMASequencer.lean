import Mathlib.Algebra.Group.Nat.Defs
import GemDroid.Ruby.MIExampleRun

/-!
DMA sequencers over the MI example protocol: a request of any length is split where blocks end,
and its parts go to their blocks one after the other.
-/

namespace GemDroid

open Function (update)

namespace MIExample

/-- A request of a device; the lengths are those of packets. -/
structure DMARequest where
  start_paddr : Nat
  len : Nat
  write : Bool
  data : Nat → UInt8
  bytes_completed : Nat := 0
  bytes_issued : Nat := 0

/-- The sequencer of a DMA controller, and the queue between the two. -/
structure DMASequencer where
  m_is_busy : Bool := false
  active_request : DMARequest := { start_paddr := 0, len := 0, write := false, data := fun _ => 0 }
  m_mandatory_q : List SequencerMsg := []

namespace DMASequencer

/-- A block with the bytes of a write in it; the part must lie in the block. -/
def fill (blockSize : Nat) (write : Bool) (data : Nat → UInt8) (offset len : Nat) :
    Except Fault DataBlock :=
  if write = false then .ok fun _ => 0
  else if offset + len ≤ blockSize then .ok (DataBlock.setData (fun _ => 0) data offset len)
  else .error .assertion

/-- A new request is refused while there is one. -/
def makeRequest (blockSize : Nat) (q : DMASequencer) (paddr len : Nat) (write : Bool)
    (data : Nat → UInt8) : Option (Except Fault DMASequencer) :=
  if q.m_is_busy then none
  else some do
    let offset := paddr % blockSize
    let len' := if offset + len ≤ blockSize then len else blockSize - offset
    let dataBlk ← fill blockSize write data offset len'
    return {
      m_is_busy := true
      active_request := { start_paddr := paddr, len, write, data, bytes_issued := len' }
      m_mandatory_q := q.m_mandatory_q ++ [{
        type := if write then .ST else .LD, physicalAddress := paddr, dataBlk, len := len' }] }

/-- The next part of the request goes out, or the request is done. -/
def issueNext (blockSize : Nat) (q : DMASequencer) : Except Fault (DMASequencer × Bool) :=
  let completed := q.active_request.bytes_issued
  let request := { q.active_request with bytes_completed := completed }
  if q.m_is_busy = false then .error .assertion
  else if request.len = completed then
    .ok ({ q with m_is_busy := false, active_request := request }, true)
  else if (request.start_paddr + completed) % blockSize ≠ 0 then .error .assertion
  else do
    let len' := if request.len - completed < blockSize then request.len - completed else blockSize
    let dataBlk ← fill blockSize request.write (fun j => request.data (completed + j)) 0 len'
    return ({ q with
      active_request := { request with bytes_issued := request.bytes_issued + len' }
      m_mandatory_q := q.m_mandatory_q ++ [{
        type := if request.write then .ST else .LD
        physicalAddress := request.start_paddr + completed, dataBlk, len := len' }] }, false)

/-- The bytes of a block that was read go to the device. -/
def dataCallback (blockSize : Nat) (q : DMASequencer) (dblk : DataBlock) :
    Except Fault (DMASequencer × Bool) :=
  let request := q.active_request
  let len := request.bytes_issued - request.bytes_completed
  let offset := if request.bytes_completed = 0 then request.start_paddr % blockSize else 0
  if q.m_is_busy = false ∨ request.write ∨ ¬offset + len ≤ blockSize then .error .assertion
  else
    issueNext blockSize { q with
      active_request := { request with
        data := DataBlock.setData request.data (dblk.getData offset) request.bytes_completed
          len } }

def ackCallback (blockSize : Nat) (q : DMASequencer) : Except Fault (DMASequencer × Bool) :=
  issueNext blockSize q

/-- The callback of an answer. -/
def callback (blockSize : Nat) (q : DMASequencer) (msg : DMAResponseMsg) :
    Except Fault (DMASequencer × Bool) :=
  match msg.type with
  | .DATA => q.dataCallback blockSize msg.dataBlk
  | .ACK => q.ackCallback blockSize

end DMASequencer

/-- What is known of a request when the device is told that it is done. -/
structure Completion where
  start_paddr : Nat
  len : Nat
  write : Bool
  /-- The bytes that the device has. -/
  data : Nat → UInt8
  /-- The bytes that the memory had when each of them was read. -/
  expected : Nat → UInt8
  /-- How often the request was written into each block. -/
  applied : Nat → Nat

/-- Some bytes of a request are in a block. -/
def Touches (blockSize start_paddr len b : Nat) : Prop :=
  ∃ k < len, (start_paddr + k) / blockSize = b

/-- The request did what it was made for. -/
structure Completion.Right (blockSize : Nat) (r : Completion) : Prop where
  once : r.write → ∀ b, Touches blockSize r.start_paddr r.len b → r.applied b = 1
  nowhere : ∀ b, ¬(r.write ∧ Touches blockSize r.start_paddr r.len b) → r.applied b = 0
  read : r.write = false → ∀ k < r.len, r.data k = r.expected k

/-- All blocks with the machines of the protocol; a DMA controller serves every block. -/
structure DmaSystem (Cache Dma : Type) where
  blockSize : Nat
  blocks : Nat → System Cache Dma
  dma : Dma → DMA.State := fun _ => .READY
  sequencers : Dma → DMASequencer := fun _ => {}
  /-- The requests that the sequencer took, and those whose device was told. -/
  made : Dma → List (Nat × Nat × Bool) := fun _ => []
  completed : Dma → List Completion := fun _ => []
  expected : Dma → Nat → UInt8 := fun _ _ => 0

namespace DmaSystem

variable {Cache Dma : Type} [DecidableEq Cache] [DecidableEq Dma]

/-- One block, with the DMA controllers as they are. -/
def view (t : DmaSystem Cache Dma) (b : Nat) : System Cache Dma :=
  { t.blocks b with dma := t.dma }

/-- What happened at one block. -/
def put (t : DmaSystem Cache Dma) (b : Nat) (s : System Cache Dma) : DmaSystem Cache Dma :=
  { t with blocks := update t.blocks b s }

/-- What happens next; the steps of the DMA controllers are apart from those of a block. -/
inductive Op (Cache Dma : Type) where
  | block (b : Nat) (op : System.Op Cache Dma)
  | makeRequest (d : Dma) (paddr : Nat) (len : { len : Nat // 1 ≤ len }) (write : Bool)
    (data : Nat → UInt8)
  | issue (d : Dma)
  | answer (d : Dma) (b n : Nat)

/-- The bytes that a request puts into a block. -/
def wanted (request : DMARequest) (blockSize b : Nat) : Nat → Option UInt8 := fun i =>
  if request.write ∧ request.start_paddr ≤ b * blockSize + i ∧
      b * blockSize + i < request.start_paddr + request.len then
    some (request.data (b * blockSize + i - request.start_paddr))
  else none

/-- A step of a block that is none of a DMA controller's. -/
def stepBlock (t : DmaSystem Cache Dma) (b : Nat) :
    System.Op Cache Dma → Option (Except Fault (DmaSystem Cache Dma))
  | .dmaRequest _ _ | .dmaResponse _ _ => none
  | op => ((t.view b).perform op).map fun r => r.map (t.put b)

/-- A request of a device. -/
def stepMakeRequest (t : DmaSystem Cache Dma) (d : Dma) (paddr len : Nat) (write : Bool)
    (data : Nat → UInt8) : Option (Except Fault (DmaSystem Cache Dma)) :=
  ((t.sequencers d).makeRequest t.blockSize paddr len write data).map fun r => r.map fun q =>
    { t with
      sequencers := update t.sequencers d q
      made := update t.made d (t.made d ++ [(paddr, len, write)])
      -- The new request was written nowhere yet.
      blocks := fun b => { t.blocks b with
        applied := update (t.blocks b).applied d 0 } }

/-- The controller takes the part of a request that its sequencer has for it. -/
def stepIssue (t : DmaSystem Cache Dma) (d : Dma) : Option (Except Fault (DmaSystem Cache Dma)) :=
  match (t.sequencers d).m_mandatory_q with
  | [] => none
  | msg :: rest =>
    let b := msg.physicalAddress / t.blockSize
    let s := { t.view b with
      wanted := update (t.view b).wanted d
        (wanted (t.sequencers d).active_request t.blockSize b) }
    (s.dmaTrigger d { request := some msg } (System.sequencerEvent msg.type)).map fun r =>
      r.map fun s =>
        { t.put b s with
          dma := s.dma
          sequencers := update t.sequencers d { t.sequencers d with
            m_mandatory_q := rest } }

/-- The device is told, when its request is done. -/
def ruby_hit_callback (t : DmaSystem Cache Dma) (d : Dma) (q : DMASequencer) (done : Bool) :
    DmaSystem Cache Dma :=
  { t with
    sequencers := update t.sequencers d q
    completed := if done then
        update t.completed d (t.completed d ++ [{
          start_paddr := q.active_request.start_paddr
          len := q.active_request.len
          write := q.active_request.write
          data := q.active_request.data
          expected := t.expected d
          applied := fun b => (t.blocks b).applied d }])
      else t.completed }

/-- The answer of a block reaches the controller, which calls its sequencer. -/
def stepAnswer (t : DmaSystem Cache Dma) (d : Dma) (b n : Nat) :
    Option (Except Fault (DmaSystem Cache Dma)) :=
  ((t.view b).dmaResponses d)[n]?.bind fun msg =>
    ((t.view b).dmaTrigger d { response := some (n, msg) }
      (System.answerEvent msg.type)).map fun r => do
        let s ← r
        let t := { t.put b s with
          dma := s.dma
          -- Every byte of the request that is in the block was read just as it was there.
          expected := update t.expected d fun i =>
            if ((t.sequencers d).active_request.start_paddr + i) / t.blockSize = b then
              s.served d (((t.sequencers d).active_request.start_paddr + i) % t.blockSize)
            else t.expected d i }
        let result ← (t.sequencers d).callback t.blockSize msg
        return t.ruby_hit_callback d result.1 result.2

def perform (t : DmaSystem Cache Dma) :
    Op Cache Dma → Option (Except Fault (DmaSystem Cache Dma))
  | .block b op => t.stepBlock b op
  | .makeRequest d paddr len write data => t.stepMakeRequest d paddr len.val write data
  | .issue d => t.stepIssue d
  | .answer d b n => t.stepAnswer d b n

/-- Nothing happens after a fault. -/
def step (t : Except Fault (DmaSystem Cache Dma)) (op : Op Cache Dma) :
    Option (Except Fault (DmaSystem Cache Dma)) :=
  match t with
  | .ok t => t.perform op
  | .error _ => none

/-- Where a block is at first. -/
inductive Initial (Cache : Type) where
  | memory (dataBlk : DataBlock)
  | owned (o : Cache) (stale dirty : DataBlock)

/-- A block that the directory has, or that a cache has and may have changed. -/
def Initial.system (blockSize : Nat) : Initial Cache → System Cache Dma
  | .memory dataBlk => System.start blockSize dataBlk
  | .owned o stale dirty =>
    { blockSize
      l1 := update (fun _ => {}) o
        { entry := some { cacheState := .M, dataBlk := dirty } }
      dir := { directoryState := .M, dataBlk := stale, owner := {o} }
      latest := dirty }

/-- No request is under way; the size of a block is a power of two. -/
def start (blockSizeBits : Nat) (init : Nat → Initial Cache) : DmaSystem Cache Dma :=
  { blockSize := 2 ^ blockSizeBits, blocks := fun b => (init b).system (2 ^ blockSizeBits) }

/-- What the device and the processors may rely on. -/
structure Correct (t : DmaSystem Cache Dma) : Prop where
  memory : ∀ b, (t.blocks b).dir.getState = .I →
    Agree t.blockSize (t.blocks b).dir.dataBlk (t.blocks b).latest
  cache : ∀ b c entry, ((t.blocks b).l1 c).getState = .M →
    ((t.blocks b).l1 c).entry = some entry → Agree t.blockSize entry.dataBlk (t.blocks b).latest
  loads : ∀ b, ∀ load ∈ (t.blocks b).loads, Agree t.blockSize load.1 load.2
  right : ∀ d, ∀ r ∈ t.completed d, r.Right t.blockSize
  /-- Every request is completed once, in the order in which they were made. -/
  once : ∀ d, t.made d = (t.completed d).map (fun r => (r.start_paddr, r.len, r.write)) ++
    if (t.sequencers d).m_is_busy then
      [((t.sequencers d).active_request.start_paddr, (t.sequencers d).active_request.len,
        (t.sequencers d).active_request.write)]
    else []
  /-- What is not completed has bytes left. -/
  last : ∀ d, (t.sequencers d).m_is_busy →
    (t.sequencers d).active_request.bytes_completed < (t.sequencers d).active_request.len

/-- A DMA write into a block that a cache had brings back what it does not write. -/
def Whole (t : DmaSystem Cache Dma) : Op Cache Dma → Prop
  | .block b (.memory _) => (t.view b).dir.getState = .M_DWRI → (t.view b).Covers
  | _ => True

end DmaSystem

end MIExample

end GemDroid
