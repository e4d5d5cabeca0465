import GemDroid.Ruby.MIExample

/-! The machines of the MI example protocol on their networks, for one block. -/

namespace GemDroid

open Function (update)

namespace MIExample

/--
The machines and the messages between them. A cache gets what the directory forwards to it in
order; all other messages may overtake each other.
-/
structure System (Cache Dma : Type) where
  blockSize : Nat
  l1 : Cache → L1Cache.Machine := fun _ => {}
  dir : Directory.Machine Cache Dma
  dma : Dma → DMA.State := fun _ => .READY
  requests : Cache → List (RequestMsg Cache) := fun _ => []
  forward : Cache → List (ForwardMsg Cache) := fun _ => []
  responses : Cache → List ResponseMsg := fun _ => []
  memQueue : List (MemoryMsg Cache) := []
  dmaRequests : Dma → List (DMARequestMsg Dma) := fun _ => []
  dmaResponses : Dma → List DMAResponseMsg := fun _ => []
  /-- The block after all stores that were completed and all DMA writes that were acknowledged. -/
  latest : DataBlock
  /-- What each completed load returned, and what it should have returned. -/
  loads : List (DataBlock × DataBlock) := []
  /-- The block as it should have been when a DMA read was answered. -/
  served : Dma → DataBlock := fun _ _ => 0
  /-- The bytes that the DMA write under way is to put into the block. -/
  wanted : Dma → Nat → Option UInt8 := fun _ _ => none
  /-- How often a DMA write was acknowledged. -/
  applied : Dma → Nat := fun _ => 0

namespace System

variable {Cache Dma α : Type} [DecidableEq Cache] [DecidableEq Dma]

/-- A change of one cache. -/
def setL1 (s : System Cache Dma) (c : Cache) (m : L1Cache.Machine) : System Cache Dma :=
  { s with l1 := update s.l1 c m }

/-- What a cache has at the heads of its queues. -/
structure L1Input (Cache : Type) where
  forwarded : Option (ForwardMsg Cache) := none
  response : Option (Nat × ResponseMsg) := none

/-- The sequencer takes a load. -/
def readCallback (s : System Cache Dma) (c : Cache) : Except Fault (System Cache Dma) :=
  match (s.l1 c).entry, (s.l1 c).request with
  | some entry, some .load | some entry, some .ifetch =>
    .ok { s.setL1 c { s.l1 c with request := none } with
      loads := s.loads ++ [(entry.dataBlk, s.latest)] }
  | _, _ => .error .assertion

/-- The sequencer writes the bytes of a store into the block. -/
def writeCallback (s : System Cache Dma) (c : Cache) : Except Fault (System Cache Dma) :=
  match (s.l1 c).entry, (s.l1 c).request with
  | some entry, some (.store bytes offset len) =>
    .ok { s.setL1 c { s.l1 c with
        entry := some { entry with dataBlk := entry.dataBlk.setData bytes offset len }
        request := none } with
      latest := s.latest.setData bytes offset len }
  | _, _ => .error .assertion

/-- Data goes to the requestor of a forwarded request. -/
def sendData (s : System Cache Dma) (input : L1Input Cache) (dataBlk : DataBlock) :
    Except Fault (System Cache Dma) :=
  match input.forwarded.bind (·.requestor) with
  | some r => .ok { s with
      responses := update s.responses r (s.responses r ++ [{ dataBlk }]) }
  | none => .error .assertion

/-- The actions of a cache. -/
@[simp] def l1Perform (c : Cache) (input : L1Input Cache) (s : System Cache Dma) :
    L1Cache.Action → Except Fault (System Cache Dma)
  | .a_issueRequest => .ok { s with
      requests := update s.requests c
        (s.requests c ++ [{ type := .GETX, requestor := c }]) }
  | .b_issuePUT =>
    match (s.l1 c).entry with
    | some entry => .ok { s with
        requests := update s.requests c
          (s.requests c ++ [{ type := .PUTX, requestor := c, dataBlk := entry.dataBlk }]) }
    | none => .error .assertion
  | .e_sendData =>
    match (s.l1 c).entry with
    | some entry => s.sendData input entry.dataBlk
    | none => .error .assertion
  | .ee_sendDataFromTBE =>
    match (s.l1 c).tbe with
    | some tbe => s.sendData input tbe.dataBlk
    | none => .error .assertion
  | .i_allocateL1CacheBlock =>
    match (s.l1 c).entry with
    | some _ => .ok s
    | none => .ok (s.setL1 c { s.l1 c with entry := some {} })
  | .h_deallocateL1CacheBlock => .ok (s.setL1 c { s.l1 c with entry := none })
  -- The sequencer keeps the request until it is completed.
  | .m_popMandatoryQueue => .ok s
  | .n_popResponseQueue =>
    match input.response with
    | some (n, _) => .ok { s with
        responses := update s.responses c ((s.responses c).eraseIdx n) }
    | none => .error .assertion
  | .o_popForwardedRequestQueue => .ok { s with
      forward := update s.forward c (s.forward c).tail }
  | .r_load_hit | .rx_load_hit => s.readCallback c
  | .s_store_hit | .sx_store_hit => s.writeCallback c
  | .u_writeDataToCache =>
    match (s.l1 c).entry, input.response with
    | some entry, some (_, msg) =>
      .ok (s.setL1 c { s.l1 c with entry := some { entry with dataBlk := msg.dataBlk } })
    | _, _ => .error .assertion
  | .v_allocateTBE =>
    match (s.l1 c).tbe with
    | some _ => .error .assertion
    | none => .ok (s.setL1 c { s.l1 c with tbe := some {} })
  | .w_deallocateTBE =>
    match (s.l1 c).tbe with
    | some _ => .ok (s.setL1 c { s.l1 c with tbe := none })
    | none => .error .assertion
  | .x_copyDataFromCacheToTBE =>
    match (s.l1 c).entry, (s.l1 c).tbe with
    | some entry, some tbe =>
      .ok (s.setL1 c { s.l1 c with tbe := some { tbe with dataBlk := entry.dataBlk } })
    | _, _ => .error .assertion

/-- An event reaches a cache, which may have to wait with it. -/
def l1Trigger (s : System Cache Dma) (c : Cache) (input : L1Input Cache) (event : L1Cache.Event) :
    Option (Except Fault (System Cache Dma)) :=
  match L1Cache.transition (s.l1 c).getState event with
  | none => some (.error .invalidTransition)
  | some .z_stall => none
  | some (.go actions next) => some do
    let s ← actions.foldlM (l1Perform c input) s
    return s.setL1 c ((s.l1 c).setState next)

/-- What the directory has at the heads of its queues. -/
structure DirInput (Cache Dma : Type) where
  request : Option (Cache × Nat × RequestMsg Cache) := none
  memory : Option (Nat × MemoryMsg Cache) := none
  dma : Option (Dma × Nat × DMARequestMsg Dma) := none

/-- A message goes to a cache. -/
def sendForward (s : System Cache Dma) (c : Cache) (msg : ForwardMsg Cache) :
    System Cache Dma :=
  { s with forward := update s.forward c (s.forward c ++ [msg]) }

/-- A message goes to the owner of the block. -/
def sendToOwner (s : System Cache Dma) (msg : ForwardMsg Cache) : System Cache Dma :=
  { s with forward := fun c => if c ∈ s.dir.owner then s.forward c ++ [msg] else s.forward c }

/-- An answer goes to the DMA controller that the TBE was allocated for. -/
def sendToDma (s : System Cache Dma) (msg : DMAResponseMsg) (d : Dma) : System Cache Dma :=
  { s with dmaResponses := update s.dmaResponses d (s.dmaResponses d ++ [msg]) }

/-- A request goes to the memory controller. -/
def queueMemory (s : System Cache Dma) (msg : MemoryMsg Cache) : System Cache Dma :=
  { s with memQueue := s.memQueue ++ [msg] }

def setTbe (s : System Cache Dma) (tbe : Option (Directory.TBE Dma)) : System Cache Dma :=
  { s with dir := { s.dir with tbe } }

/-- A TBE is allocated where none is. -/
def allocateTbe (s : System Cache Dma) (tbe : Directory.TBE Dma) :
    Except Fault (System Cache Dma) :=
  if s.dir.tbe.isSome then .error .assertion else .ok (s.setTbe (some tbe))

/-- The actions of the directory. -/
@[simp] def dirPerform (input : DirInput Cache Dma) (s : System Cache Dma) :
    Directory.Action → Except Fault (System Cache Dma)
  | .l_sendWriteBackAck =>
    match input.memory.bind (·.2.originalRequestor) with
    | some c => .ok (s.sendForward c { type := .WB_ACK, requestor := some c })
    | none => .error .assertion
  | .b_sendWriteBackNack =>
    match input.request with
    | some (_, _, msg) =>
      .ok (s.sendForward msg.requestor { type := .WB_NACK, requestor := some msg.requestor })
    | none => .error .assertion
  | .c_clearOwner => .ok { s with dir := { s.dir with owner := ∅ } }
  | .d_sendData =>
    match input.memory with
    | some (_, { originalRequestor := some c, dataBlk, .. }) => .ok { s with
        responses := update s.responses c (s.responses c ++ [{ dataBlk }]) }
    | _ => .error .assertion
  | .dr_sendDMAData =>
    match s.dir.tbe.bind (·.dmaRequestor), input.memory with
    | some d, some (_, msg) =>
      .ok { s.sendToDma { type := .DATA, dataBlk := msg.dataBlk } d with
        served := update s.served d s.latest }
    | _, _ => .error .assertion
  | .drp_sendDMAData =>
    match s.dir.tbe.bind (·.dmaRequestor), input.request with
    | some d, some (_, _, msg) =>
      .ok { s.sendToDma { type := .DATA, dataBlk := msg.dataBlk } d with
        served := update s.served d s.latest }
    | _, _ => .error .assertion
  | .da_sendDMAAck =>
    match s.dir.tbe.bind (·.dmaRequestor) with
    | some d =>
      .ok { s.sendToDma { type := .ACK } d with
        latest := fun i => (s.wanted d i).getD (s.latest i)
        applied := update s.applied d (s.applied d + 1) }
    | none => .error .assertion
  | .e_ownerIsRequestor =>
    match input.request with
    | some (_, _, msg) => .ok { s with dir := { s.dir with owner := {msg.requestor} } }
    | none => .error .assertion
  | .f_forwardRequest =>
    match input.request with
    | some (_, _, msg) =>
      .ok (s.sendToOwner { type := msg.type, requestor := some msg.requestor })
    | none => .error .assertion
  | .inv_sendCacheInvalidate => .ok (s.sendToOwner { type := .INV, requestor := none })
  | .i_popIncomingRequestQueue =>
    match input.request with
    | some (c, n, _) => .ok { s with
        requests := update s.requests c ((s.requests c).eraseIdx n) }
    | none => .error .assertion
  | .p_popIncomingDMARequestQueue =>
    match input.dma with
    | some (d, n, _) => .ok { s with
        dmaRequests := update s.dmaRequests d ((s.dmaRequests d).eraseIdx n) }
    | none => .error .assertion
  | .l_writeDataToMemory =>
    match input.request with
    | some (_, _, msg) => .ok { s with dir := { s.dir with dataBlk := msg.dataBlk } }
    | none => .error .assertion
  | .dwt_writeDMADataFromTBE =>
    match s.dir.tbe with
    | some tbe => .ok { s with dir := { s.dir with
        dataBlk := s.dir.dataBlk.copyPartial tbe.dataBlk (tbe.physicalAddress % s.blockSize)
          tbe.len } }
    | none => .error .assertion
  | .v_allocateTBE =>
    match input.dma with
    | some (_, _, msg) => s.allocateTbe {
        physicalAddress := msg.physicalAddress
        dataBlk := msg.dataBlk
        len := msg.len
        dmaRequestor := some msg.requestor }
    | none => .error .assertion
  | .r_allocateTbeForDmaRead =>
    match input.dma with
    | some (_, _, msg) => s.allocateTbe { dmaRequestor := some msg.requestor }
    | none => .error .assertion
  | .v_allocateTBEFromRequestNet =>
    match input.request with
    | some (_, _, msg) => s.allocateTbe { dataBlk := msg.dataBlk }
    | none => .error .assertion
  | .w_deallocateTBE =>
    if s.dir.tbe.isSome then .ok (s.setTbe none) else .error .assertion
  | .qf_queueMemoryFetchRequest =>
    match input.request with
    | some (_, _, msg) => .ok (s.queueMemory {
        type := .MEMORY_READ
        originalRequestor := some msg.requestor
        dataBlk := s.dir.dataBlk })
    | none => .error .assertion
  | .qf_queueMemoryFetchRequestDMA =>
    .ok (s.queueMemory { type := .MEMORY_READ, dataBlk := s.dir.dataBlk })
  | .qw_queueMemoryWBRequestPartial =>
    match input.dma with
    | some (_, _, msg) => .ok (s.queueMemory {
        type := .MEMORY_WB
        dataBlk := DataBlock.copyPartial (fun _ => 0) msg.dataBlk
          (msg.physicalAddress % s.blockSize) msg.len })
    | none => .error .assertion
  | .qw_queueMemoryWBRequestPartialTBE =>
    match input.request, s.dir.tbe with
    | some (_, _, msg), some tbe => .ok (s.queueMemory {
        type := .MEMORY_WB
        originalRequestor := some msg.requestor
        dataBlk := DataBlock.copyPartial (fun _ => 0) tbe.dataBlk
          (tbe.physicalAddress % s.blockSize) tbe.len })
    | _, _ => .error .assertion
  | .l_queueMemoryWBRequest =>
    match input.request with
    | some (_, _, msg) => .ok (s.queueMemory {
        type := .MEMORY_WB
        originalRequestor := some msg.requestor
        dataBlk := msg.dataBlk })
    | none => .error .assertion
  | .l_popMemQueue =>
    match input.memory with
    | some (n, _) => .ok { s with memQueue := s.memQueue.eraseIdx n }
    | none => .error .assertion
  | .w_writeDataToMemoryFromTBE =>
    match s.dir.tbe with
    | some tbe => .ok { s with dir := { s.dir with dataBlk := tbe.dataBlk } }
    | none => .error .assertion

/-- An event reaches the directory, which may put it off. -/
def dirTrigger (s : System Cache Dma) (input : DirInput Cache Dma) (event : Directory.Event) :
    Option (Except Fault (System Cache Dma)) :=
  match Directory.transition s.dir.getState event with
  | none => some (.error .invalidTransition)
  | some .z_recycle => none
  | some (.go actions next) => some do
    let s ← actions.foldlM (dirPerform input) s
    return { s with dir := ← s.dir.setState next }

/-- What a DMA controller has at the heads of its queues. -/
structure DmaInput where
  request : Option SequencerMsg := none
  response : Option (Nat × DMAResponseMsg) := none

/-- A request goes to the directory. -/
def sendDmaRequest (s : System Cache Dma) (d : Dma) (type : DMARequestType) (msg : SequencerMsg) :
    System Cache Dma :=
  { s with dmaRequests := update s.dmaRequests d (s.dmaRequests d ++ [{
      type, physicalAddress := msg.physicalAddress, requestor := d, dataBlk := msg.dataBlk
      len := msg.len }]) }

/-- The actions of a DMA controller. -/
@[simp] def dmaPerform (d : Dma) (input : DmaInput) (s : System Cache Dma) :
    DMA.Action → Except Fault (System Cache Dma)
  | .s_sendReadRequest =>
    match input.request with
    | some msg => .ok (s.sendDmaRequest d .READ msg)
    | none => .error .assertion
  | .s_sendWriteRequest =>
    match input.request with
    | some msg => .ok (s.sendDmaRequest d .WRITE msg)
    | none => .error .assertion
  -- What the callbacks do to the DMA sequencer is no matter of one block.
  | .a_ackCallback | .d_dataCallback | .p_popRequestQueue => .ok s
  | .p_popResponseQueue =>
    match input.response with
    | some (n, _) => .ok { s with
        dmaResponses := update s.dmaResponses d ((s.dmaResponses d).eraseIdx n) }
    | none => .error .assertion

/-- An event reaches a DMA controller. -/
def dmaTrigger (s : System Cache Dma) (d : Dma) (input : DmaInput) (event : DMA.Event) :
    Option (Except Fault (System Cache Dma)) :=
  match DMA.transition (s.dma d) event with
  | none => some (.error .invalidTransition)
  | some (actions, next) => some do
    let s ← actions.foldlM (dmaPerform d input) s
    return { s with dma := update s.dma d next }

/--
What happens next: a request of a processor, a message that arrives, or a reply of the memory.
-/
inductive Op (Cache Dma : Type) where
  | access (c : Cache) (a : Access)
  | replacement (c : Cache)
  | forwarded (c : Cache)
  | response (c : Cache) (n : Nat)
  | request (c : Cache) (n : Nat)
  | memory (n : Nat)
  | dmaRequest (d : Dma) (msg : SequencerMsg)
  | dmaServe (d : Dma) (n : Nat)
  | dmaResponse (d : Dma) (n : Nat)

/-- The event of a processor's request. -/
def mandatory_request_type_to_event : Access → L1Cache.Event
  | .load => .Load
  | .ifetch => .Ifetch
  | .store .. => .Store

/-- The event of a forwarded message; a write-back is never forwarded. -/
def forwardedEvent : CoherenceRequestType → Option L1Cache.Event
  | .GETX => some .Fwd_GETX
  | .PUTX => none
  | .WB_ACK => some .Writeback_Ack
  | .WB_NACK => some .Writeback_Nack
  | .INV => some .Inv

/-- The event of a reply of the memory controller. -/
def memoryEvent : MemoryRequestType → Directory.Event
  | .MEMORY_READ => .Memory_Data
  | .MEMORY_WB => .Memory_Ack

/-- The event of a DMA request at the directory. -/
def dmaEvent : DMARequestType → Directory.Event
  | .READ => .DMA_READ
  | .WRITE => .DMA_WRITE

/-- The event of a sequencer's request at its DMA controller. -/
def sequencerEvent : SequencerRequestType → DMA.Event
  | .LD => .ReadRequest
  | .ST => .WriteRequest

/-- The event of an answer at a DMA controller. -/
def answerEvent : DMAResponseType → DMA.Event
  | .DATA => .Data
  | .ACK => .Ack

/-- The event of a request at the directory. -/
def requestEvent (s : System Cache Dma) (msg : RequestMsg Cache) : Option Directory.Event :=
  match msg.type with
  | .GETX => some .GETX
  | .PUTX => some (if msg.requestor ∈ s.dir.owner then .PUTX else .PUTX_NotOwner)
  | _ => none

/-- An event, or the error of a message that is none. -/
def raise (event : Option α) (trigger : α → Option (Except Fault (System Cache Dma))) :
    Option (Except Fault (System Cache Dma)) :=
  match event with
  | some event => trigger event
  | none => some (.error .assertion)

/-- What one event does; nothing when its message is not there or must wait. -/
def perform (s : System Cache Dma) : Op Cache Dma → Option (Except Fault (System Cache Dma))
  | .access c a =>
    (s.setL1 c { s.l1 c with request := some a }).l1Trigger c {}
      (mandatory_request_type_to_event a)
  | .replacement c => if (s.l1 c).entry.isSome then s.l1Trigger c {} .Replacement else none
  | .forwarded c => (s.forward c).head?.bind fun msg =>
    raise (forwardedEvent msg.type) (s.l1Trigger c { forwarded := some msg })
  | .response c n => (s.responses c)[n]?.bind fun msg =>
    s.l1Trigger c { response := some (n, msg) } .Data
  | .request c n => (s.requests c)[n]?.bind fun msg =>
    raise (s.requestEvent msg) (s.dirTrigger { request := some (c, n, msg) })
  | .memory n => s.memQueue[n]?.bind fun msg =>
    s.dirTrigger { memory := some (n, msg) } (memoryEvent msg.type)
  | .dmaRequest d msg =>
    -- A DMA sequencer has one request outstanding at a time.
    if s.dma d = .READY then
      s.dmaTrigger d { request := some msg } (sequencerEvent msg.type)
    else none
  | .dmaServe d n => (s.dmaRequests d)[n]?.bind fun msg =>
    s.dirTrigger { dma := some (d, n, msg) } (dmaEvent msg.type)
  | .dmaResponse d n => (s.dmaResponses d)[n]?.bind fun msg =>
    s.dmaTrigger d { response := some (n, msg) } (answerEvent msg.type)

/-- Nothing happens after a fault. -/
def step (s : Except Fault (System Cache Dma)) (op : Op Cache Dma) :
    Option (Except Fault (System Cache Dma)) :=
  match s with
  | .ok s => s.perform op
  | .error _ => none

end System

end MIExample

end GemDroid
