import Mathlib.Data.Finset.Basic
import Mathlib.Data.Finset.Card
import Mathlib.Data.Finset.Insert
import GemDroid.Ruby.CacheMemory

/-! The messages and the machines of the MI example protocol, for one block. -/

namespace GemDroid

namespace MIExample

/-- An event without a transition, or an assertion that failed. -/
inductive Fault where
  | invalidTransition
  | assertion
  deriving DecidableEq

inductive CoherenceRequestType where
  | GETX
  | PUTX
  | WB_ACK
  | WB_NACK
  | INV
  deriving DecidableEq

/-- A request of a cache to the directory. -/
structure RequestMsg (Cache : Type) where
  type : CoherenceRequestType
  requestor : Cache
  dataBlk : DataBlock := fun _ => 0

/-- What the directory forwards to a cache; the requestor may be the directory itself. -/
structure ForwardMsg (Cache : Type) where
  type : CoherenceRequestType
  requestor : Option Cache

/-- Data for a cache. -/
structure ResponseMsg where
  dataBlk : DataBlock

inductive DMARequestType where
  | READ
  | WRITE
  deriving DecidableEq

inductive SequencerRequestType where
  | LD
  | ST
  deriving DecidableEq

/-- A request of a DMA sequencer to its controller. -/
structure SequencerMsg where
  type : SequencerRequestType
  physicalAddress : Nat
  dataBlk : DataBlock := fun _ => 0
  len : Nat

/-- A request of a DMA controller to the directory. -/
structure DMARequestMsg (Dma : Type) where
  type : DMARequestType
  physicalAddress : Nat
  requestor : Dma
  dataBlk : DataBlock := fun _ => 0
  len : Nat := 0

inductive DMAResponseType where
  | DATA
  | ACK
  deriving DecidableEq

/-- An answer to a DMA controller. -/
structure DMAResponseMsg where
  type : DMAResponseType
  dataBlk : DataBlock := fun _ => 0

inductive MemoryRequestType where
  | MEMORY_READ
  | MEMORY_WB
  deriving DecidableEq

/-- A request to the memory controller, which comes back as it is when it is done. -/
structure MemoryMsg (Cache : Type) where
  type : MemoryRequestType
  originalRequestor : Option Cache := none
  dataBlk : DataBlock

/-- What a processor asks of its cache. -/
inductive Access where
  | load
  | ifetch
  | store (bytes : Nat → UInt8) (offset len : Nat)

namespace L1Cache

inductive State where
  | I
  | II
  | M
  | MI
  | MII
  | IS
  | IM
  deriving DecidableEq

inductive Event where
  | Load
  | Ifetch
  | Store
  | Data
  | Fwd_GETX
  | Inv
  | Replacement
  | Writeback_Ack
  | Writeback_Nack
  deriving DecidableEq

structure Entry where
  cacheState : State := .I
  dataBlk : DataBlock := fun _ => 0

structure TBE where
  tbeState : State := .I
  dataBlk : DataBlock := fun _ => 0

/-- A cache, and the request that its sequencer has outstanding. -/
structure Machine where
  entry : Option Entry := none
  tbe : Option TBE := none
  request : Option Access := none

inductive Action where
  | a_issueRequest
  | b_issuePUT
  | e_sendData
  | ee_sendDataFromTBE
  | i_allocateL1CacheBlock
  | h_deallocateL1CacheBlock
  | m_popMandatoryQueue
  | n_popResponseQueue
  | o_popForwardedRequestQueue
  | r_load_hit
  | rx_load_hit
  | s_store_hit
  | sx_store_hit
  | u_writeDataToCache
  | v_allocateTBE
  | w_deallocateTBE
  | x_copyDataFromCacheToTBE

/-- The state of the block in the cache. -/
def Machine.getState (m : Machine) : State :=
  match m.tbe with
  | some tbe => tbe.tbeState
  | none =>
    match m.entry with
    | some entry => entry.cacheState
    | none => .I

def Machine.setState (m : Machine) (state : State) : Machine :=
  { m with
    tbe := m.tbe.map fun tbe => { tbe with tbeState := state }
    entry := m.entry.map fun entry => { entry with cacheState := state } }

/-- What an event does: nothing yet, or its actions and the next state. -/
inductive Transition where
  | z_stall
  | go (actions : List Action) (next : State)

/-- The transitions; the others are undefined. -/
@[simp] def transition : State → Event → Option Transition
  | .IS, .Load | .IS, .Ifetch | .IS, .Store | .IS, .Replacement
  | .IM, .Load | .IM, .Ifetch | .IM, .Store | .IM, .Replacement
  | .MI, .Load | .MI, .Ifetch | .MI, .Store | .MI, .Replacement
  | .II, .Load | .II, .Ifetch | .II, .Store | .II, .Replacement
  | .MII, .Load | .MII, .Ifetch | .MII, .Store | .MII, .Replacement
  | .IS, .Fwd_GETX | .IS, .Inv | .IM, .Fwd_GETX | .IM, .Inv => some .z_stall
  | .MI, .Inv => some (.go [.o_popForwardedRequestQueue] .MI)
  | .M, .Store => some (.go [.s_store_hit, .m_popMandatoryQueue] .M)
  | .M, .Load | .M, .Ifetch => some (.go [.r_load_hit, .m_popMandatoryQueue] .M)
  | .I, .Inv => some (.go [.o_popForwardedRequestQueue] .I)
  | .I, .Store => some (.go
    [.v_allocateTBE, .i_allocateL1CacheBlock, .a_issueRequest, .m_popMandatoryQueue] .IM)
  | .I, .Load | .I, .Ifetch => some (.go
    [.v_allocateTBE, .i_allocateL1CacheBlock, .a_issueRequest, .m_popMandatoryQueue] .IS)
  | .IS, .Data => some (.go
    [.u_writeDataToCache, .rx_load_hit, .w_deallocateTBE, .n_popResponseQueue] .M)
  | .IM, .Data => some (.go
    [.u_writeDataToCache, .sx_store_hit, .w_deallocateTBE, .n_popResponseQueue] .M)
  | .M, .Fwd_GETX => some (.go [.e_sendData, .o_popForwardedRequestQueue] .I)
  | .I, .Replacement => some (.go [.h_deallocateL1CacheBlock] .I)
  | .M, .Replacement | .M, .Inv => some (.go
    [.v_allocateTBE, .b_issuePUT, .x_copyDataFromCacheToTBE, .h_deallocateL1CacheBlock] .MI)
  | .MI, .Writeback_Ack => some (.go [.w_deallocateTBE, .o_popForwardedRequestQueue] .I)
  | .MI, .Fwd_GETX => some (.go [.ee_sendDataFromTBE, .o_popForwardedRequestQueue] .II)
  | .MI, .Writeback_Nack => some (.go [.o_popForwardedRequestQueue] .MII)
  | .MII, .Fwd_GETX => some (.go
    [.ee_sendDataFromTBE, .w_deallocateTBE, .o_popForwardedRequestQueue] .I)
  | .II, .Writeback_Nack => some (.go [.w_deallocateTBE, .o_popForwardedRequestQueue] .I)
  | _, _ => none

end L1Cache

namespace Directory

inductive State where
  | I
  | M
  | M_DRD
  | M_DWR
  | M_DWRI
  | M_DRDI
  | IM
  | MI
  | ID
  | ID_W
  deriving DecidableEq

inductive Event where
  | GETX
  | PUTX
  | PUTX_NotOwner
  | DMA_READ
  | DMA_WRITE
  | Memory_Data
  | Memory_Ack
  deriving DecidableEq

structure TBE (Dma : Type) where
  physicalAddress : Nat := 0
  tbeState : State := .I
  dataBlk : DataBlock := fun _ => 0
  len : Nat := 0
  dmaRequestor : Option Dma := none

/-- The directory entry of the block, and its TBE. -/
structure Machine (Cache Dma : Type) where
  directoryState : State := .I
  dataBlk : DataBlock
  sharers : Finset Cache := ∅
  owner : Finset Cache := ∅
  tbe : Option (TBE Dma) := none

inductive Action where
  | l_sendWriteBackAck
  | b_sendWriteBackNack
  | c_clearOwner
  | d_sendData
  | dr_sendDMAData
  | drp_sendDMAData
  | da_sendDMAAck
  | e_ownerIsRequestor
  | f_forwardRequest
  | inv_sendCacheInvalidate
  | i_popIncomingRequestQueue
  | p_popIncomingDMARequestQueue
  | l_writeDataToMemory
  | dwt_writeDMADataFromTBE
  | v_allocateTBE
  | r_allocateTbeForDmaRead
  | v_allocateTBEFromRequestNet
  | w_deallocateTBE
  | qf_queueMemoryFetchRequest
  | qf_queueMemoryFetchRequestDMA
  | qw_queueMemoryWBRequestPartial
  | qw_queueMemoryWBRequestPartialTBE
  | l_queueMemoryWBRequest
  | l_popMemQueue
  | w_writeDataToMemoryFromTBE

/-- What an event does: the message is tried again later, or its actions and the next state. -/
inductive Transition where
  | z_recycle
  | go (actions : List Action) (next : State)

/-- The transitions; the others are undefined. -/
@[simp] def transition : State → Event → Option Transition
  | .M_DRD, .GETX | .M_DWR, .GETX | .M_DWRI, .GETX | .M_DRDI, .GETX
  | .IM, .GETX | .IM, .PUTX | .IM, .PUTX_NotOwner | .MI, .GETX | .MI, .PUTX | .MI, .PUTX_NotOwner
  | .ID, .GETX | .ID, .PUTX | .ID, .PUTX_NotOwner
  | .ID_W, .GETX | .ID_W, .PUTX | .ID_W, .PUTX_NotOwner
  | .IM, .DMA_READ | .IM, .DMA_WRITE | .MI, .DMA_READ | .MI, .DMA_WRITE
  | .ID, .DMA_READ | .ID, .DMA_WRITE | .ID_W, .DMA_READ | .ID_W, .DMA_WRITE => some .z_recycle
  | .I, .GETX => some (.go
    [.qf_queueMemoryFetchRequest, .e_ownerIsRequestor, .i_popIncomingRequestQueue] .IM)
  | .IM, .Memory_Data => some (.go [.d_sendData, .l_popMemQueue] .M)
  | .I, .DMA_READ => some (.go [.r_allocateTbeForDmaRead, .qf_queueMemoryFetchRequestDMA,
    .p_popIncomingDMARequestQueue] .ID)
  | .ID, .Memory_Data => some (.go [.dr_sendDMAData, .w_deallocateTBE, .l_popMemQueue] .I)
  | .I, .DMA_WRITE => some (.go [.v_allocateTBE, .qw_queueMemoryWBRequestPartial,
    .p_popIncomingDMARequestQueue] .ID_W)
  | .ID_W, .Memory_Ack => some (.go
    [.dwt_writeDMADataFromTBE, .da_sendDMAAck, .w_deallocateTBE, .l_popMemQueue] .I)
  | .M, .DMA_READ => some (.go
    [.v_allocateTBE, .inv_sendCacheInvalidate, .p_popIncomingDMARequestQueue] .M_DRD)
  | .M_DRD, .PUTX => some (.go [.l_writeDataToMemory, .drp_sendDMAData, .c_clearOwner,
    .l_queueMemoryWBRequest, .i_popIncomingRequestQueue] .M_DRDI)
  | .M_DRDI, .Memory_Ack => some (.go [.l_sendWriteBackAck, .w_deallocateTBE, .l_popMemQueue] .I)
  | .M, .DMA_WRITE => some (.go
    [.v_allocateTBE, .inv_sendCacheInvalidate, .p_popIncomingDMARequestQueue] .M_DWR)
  | .M_DWR, .PUTX => some (.go [.l_writeDataToMemory, .qw_queueMemoryWBRequestPartialTBE,
    .c_clearOwner, .i_popIncomingRequestQueue] .M_DWRI)
  | .M_DWRI, .Memory_Ack => some (.go [.w_writeDataToMemoryFromTBE, .l_sendWriteBackAck,
    .da_sendDMAAck, .w_deallocateTBE, .l_popMemQueue] .I)
  | .M, .GETX => some (.go
    [.f_forwardRequest, .e_ownerIsRequestor, .i_popIncomingRequestQueue] .M)
  | .M, .PUTX => some (.go [.c_clearOwner, .v_allocateTBEFromRequestNet, .l_queueMemoryWBRequest,
    .i_popIncomingRequestQueue] .MI)
  | .MI, .Memory_Ack => some (.go
    [.w_writeDataToMemoryFromTBE, .l_sendWriteBackAck, .w_deallocateTBE, .l_popMemQueue] .I)
  | .M, .PUTX_NotOwner => some (.go [.b_sendWriteBackNack, .i_popIncomingRequestQueue] .M)
  | .I, .PUTX_NotOwner => some (.go [.b_sendWriteBackNack, .i_popIncomingRequestQueue] .I)
  | _, _ => none

variable {Cache Dma : Type}

/-- The state of the block in the directory. -/
def Machine.getState (m : Machine Cache Dma) : State :=
  match m.tbe with
  | some tbe => tbe.tbeState
  | none => m.directoryState

/-- The owner is checked when the block becomes modified or invalid. -/
def Machine.setState (m : Machine Cache Dma) (state : State) :
    Except Fault (Machine Cache Dma) :=
  let m := { m with
    tbe := m.tbe.map fun tbe => { tbe with tbeState := state }
    directoryState := state }
  if state = .M ∧ ¬(m.owner.card = 1 ∧ m.sharers.card = 0) then .error .assertion
  else if state = .I ∧ ¬(m.owner.card = 0 ∧ m.sharers.card = 0) then .error .assertion
  else .ok m

end Directory

namespace DMA

inductive State where
  | READY
  | BUSY_RD
  | BUSY_WR
  deriving DecidableEq

inductive Event where
  | ReadRequest
  | WriteRequest
  | Data
  | Ack
  deriving DecidableEq

inductive Action where
  | s_sendReadRequest
  | s_sendWriteRequest
  | a_ackCallback
  | d_dataCallback
  | p_popRequestQueue
  | p_popResponseQueue

/-- The transitions; the others are undefined. -/
@[simp] def transition : State → Event → Option (List Action × State)
  | .READY, .ReadRequest => some ([.s_sendReadRequest, .p_popRequestQueue], .BUSY_RD)
  | .READY, .WriteRequest => some ([.s_sendWriteRequest, .p_popRequestQueue], .BUSY_WR)
  | .BUSY_RD, .Data => some ([.d_dataCallback, .p_popResponseQueue], .READY)
  | .BUSY_WR, .Ack => some ([.a_ackCallback, .p_popResponseQueue], .READY)
  | _, _ => none

end DMA

end MIExample

end GemDroid
