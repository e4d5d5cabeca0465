import GemDroid.Ruby.CacheMemory

/-! The sequencer, which hands the requests of a processor to its cache controller. -/

namespace GemDroid

/-- How a request is treated. -/
inductive RubyRequestType where
  | ld
  | ifetch
  | st
  | rmwRead
  | rmwWrite
  | loadLinked
  | storeConditional
  | lockedRmwRead
  | lockedRmwWrite
  | flush
  deriving DecidableEq

/-- What became of a request that was made. -/
inductive RequestStatus where
  | bufferFull
  | aliased
  | issued
  deriving DecidableEq

/-- What the sequencer reads of a packet, and writes into it. -/
structure SeqPacket where
  addr : Nat
  size : Nat
  /-- What the data pointer points to, if the packet has one. -/
  data : Option (Nat → UInt8)
  isRead : Bool := false
  isWrite : Bool := false
  isLLSC : Bool := false
  isFlush : Bool := false
  isLocked : Bool := false
  isInstFetch : Bool := false
  storeCheck : Bool := false
  extraData : Nat := 0

/-- The type of the request that a packet stands for, unless it is not supported. -/
def SeqPacket.primaryType (pkt : SeqPacket) : Option RubyRequestType :=
  if pkt.isLLSC then
    if pkt.isWrite then some .storeConditional
    else if pkt.isRead then some .loadLinked
    else none
  else if pkt.isLocked then
    if pkt.isWrite then some .lockedRmwWrite
    else if pkt.isRead then some .lockedRmwRead
    else none
  else if pkt.isRead then
    if pkt.isInstFetch then some .ifetch
    else if pkt.storeCheck then some .rmwRead
    else some .ld
  else if pkt.isWrite then some .st
  else if pkt.isFlush then some .flush
  else none

/-- The requests that go to the table of writes. -/
def RubyRequestType.isWriteType : RubyRequestType → Bool
  | .st | .rmwRead | .rmwWrite | .loadLinked | .storeConditional | .lockedRmwRead
  | .lockedRmwWrite | .flush => true
  | .ld | .ifetch => false

/-- The requests whose bytes are copied out of the block. -/
def RubyRequestType.copiesOut : RubyRequestType → Bool
  | .ld | .ifetch | .rmwRead | .lockedRmwRead | .loadLinked => true
  | .st | .rmwWrite | .storeConditional | .lockedRmwWrite | .flush => false

/-- A request that is outstanding. -/
structure SequencerRequest where
  pkt : SeqPacket
  type : RubyRequestType

/-- The sequencer and the data cache of its controller. -/
structure Sequencer where
  version : Nat
  blockSizeBits : Nat
  max_outstanding_requests : Nat
  /-- The system is warming its caches up from a trace. -/
  warmup_enabled : Bool
  dataCache : CacheMemory
  outstanding_count : Nat := 0
  writeRequestTable : Nat → Option SequencerRequest := fun _ => none
  readRequestTable : Nat → Option SequencerRequest := fun _ => none

namespace Sequencer

/-- The address of the block of an address. -/
def lineAddress (s : Sequencer) (addr : Nat) : Nat :=
  addr / 2 ^ s.blockSizeBits * 2 ^ s.blockSizeBits

/-- The place of an address in its block. -/
def getOffset (s : Sequencer) (addr : Nat) : Nat :=
  addr % 2 ^ s.blockSizeBits

/-- A request is entered into its table, unless one for the same block is outstanding. -/
def insertRequest (s : Sequencer) (pkt : SeqPacket) (request_type : RubyRequestType) :
    Option Sequencer :=
  let line_addr := s.lineAddress pkt.addr
  if (s.readRequestTable line_addr).isSome || (s.writeRequestTable line_addr).isSome then none
  else if request_type.isWriteType then
    some { s with
      writeRequestTable :=
        Function.update s.writeRequestTable line_addr (some ⟨pkt, request_type⟩)
      outstanding_count := s.outstanding_count + 1 }
  else
    some { s with
      readRequestTable := Function.update s.readRequestTable line_addr (some ⟨pkt, request_type⟩)
      outstanding_count := s.outstanding_count + 1 }

/-- A packet becomes a request, if it is supported. -/
def makeRequest (s : Sequencer) (pkt : SeqPacket) : Option (RequestStatus × Sequencer) :=
  if s.outstanding_count ≥ s.max_outstanding_requests then some (.bufferFull, s)
  else
    pkt.primaryType.map fun primary_type =>
      match s.insertRequest pkt primary_type with
      | some s => (.issued, s)
      | none => (.aliased, s)

/-- The controller has lost the block of a store-conditional that is outstanding. -/
def invalidateSC (s : Sequencer) (address : Nat) : Sequencer :=
  match s.writeRequestTable address with
  | some request =>
    if request.type = .storeConditional then
      { s with dataCache := s.dataCache.clearLocked address }
    else s
  | none => s

/-- The lock of a block decides whether a store-conditional succeeds. -/
def handleLlsc (s : Sequencer) (address : Nat) (request : SequencerRequest) :
    Bool × SequencerRequest × Sequencer :=
  if request.type = .storeConditional then
    let success := s.dataCache.isLocked address s.version
    (success,
      { request with pkt := { request.pkt with extraData := if success then 1 else 0 } },
      { s with dataCache := s.dataCache.clearLocked address })
  else if request.type = .loadLinked then
    (true, request, { s with dataCache := s.dataCache.setLocked address s.version })
  else if s.dataCache.isTagPresent address && s.dataCache.isLocked address s.version then
    (true, request, { s with dataCache := s.dataCache.clearLocked address })
  else (true, request, s)

/-- The bytes of a request are moved; whether it succeeded is for the trace only. -/
def hitCallback (s : Sequencer) (srequest : SequencerRequest) (data : DataBlock)
    (_llscSuccess : Bool) : SeqPacket × DataBlock :=
  let pkt := srequest.pkt
  let offset := s.getOffset pkt.addr
  match pkt.data with
  | some bytes =>
    if s.warmup_enabled then (pkt, data.setData bytes offset pkt.size)
    else if srequest.type.copiesOut then
      ({ pkt with data := some fun k => if k < pkt.size then data.getData offset k else bytes k },
        data)
    else (pkt, data.setData bytes offset pkt.size)
  | none => (pkt, data)

/-- The bytes of a block after a callback stay where the block is. -/
def storeBlock (s : Sequencer) (address : Nat) (data : DataBlock) : Sequencer :=
  { s with dataCache := s.dataCache.modify address fun entry => { entry with dataBlk := data } }

/-- The controller has completed a request of the table of writes. -/
def writeCallback (s : Sequencer) (address : Nat) (request : SequencerRequest)
    (data : DataBlock) : SeqPacket × Sequencer :=
  let s := { s with
    writeRequestTable := Function.update s.writeRequestTable address none
    outstanding_count := s.outstanding_count - 1 }
  let handled := s.handleLlsc address request
  let hit := handled.2.2.hitCallback handled.2.1 data handled.1
  (hit.1, handled.2.2.storeBlock address hit.2)

/-- The controller has completed a request of the table of reads. -/
def readCallback (s : Sequencer) (address : Nat) (request : SequencerRequest)
    (data : DataBlock) : SeqPacket × Sequencer :=
  let s := { s with
    readRequestTable := Function.update s.readRequestTable address none
    outstanding_count := s.outstanding_count - 1 }
  let hit := s.hitCallback request data true
  (hit.1, s.storeBlock address hit.2)

end Sequencer

end GemDroid
