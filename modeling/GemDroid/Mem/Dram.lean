import GemDroid.Mem.Packet
import GemDroid.Sim.EventQueue

/-! The parameters of the DRAM controller, and the bursts that packets are split into. -/

namespace GemDroid

/-- The order of row, rank, bank, column and channel in an address (`AddrMap`). -/
inductive AddrMap
  | RoRaBaChCo
  | RoRaBaCoCh
  | RoCoRaBaCh
  deriving DecidableEq, Repr

/-- How the next request is chosen (`MemSched`). -/
inductive MemSched
  | fcfs
  | frfcfs
  deriving DecidableEq, Repr

/-- When a row is closed (`PageManage`). -/
inductive PageManage
  | «open»
  | openAdaptive
  | close
  | closeAdaptive
  deriving DecidableEq, Repr

/-- The parameters of a controller (`DRAMCtrlParams`). -/
structure DramParams where
  deviceBusWidth : Nat
  burstLength : Nat
  deviceRowBufferSize : Nat
  devicesPerRank : Nat
  ranksPerChannel : Nat
  banksPerRank : Nat
  channels : Nat
  /-- The size of the memory, rounded up to a power of two. -/
  capacity : Nat
  readBufferSize : Nat
  writeBufferSize : Nat
  writeHighThreshPerc : Nat
  writeLowThreshPerc : Nat
  minWritesPerSwitch : Nat
  tWTR : Nat
  tRTW : Nat
  tBURST : Nat
  tRCD : Nat
  tCL : Nat
  tRP : Nat
  tRAS : Nat
  tWR : Nat
  tRTP : Nat
  tRFC : Nat
  tREFI : Nat
  tRRD : Nat
  tXAW : Nat
  activationLimit : Nat
  memSchedPolicy : MemSched
  addrMapping : AddrMap
  pageMgmt : PageManage
  maxAccessesPerRow : Nat

namespace DramParams

variable (config : DramParams)

/-- The bytes of one access, a `uint32_t` as all sizes here. -/
def burstSize : Nat :=
  config.devicesPerRank * config.burstLength * config.deviceBusWidth % 2 ^ 32 / 8

def rowBufferSize : Nat :=
  config.devicesPerRank * config.deviceRowBufferSize % 2 ^ 32

def columnsPerRowBuffer : Nat :=
  config.rowBufferSize / config.burstSize

def rowsPerBank : Nat :=
  config.capacity /
    (config.rowBufferSize * config.banksPerRank * config.ranksPerChannel % 2 ^ 32)

def writeHighThreshold : Nat :=
  config.writeBufferSize * config.writeHighThreshPerc % 2 ^ 32 / 100

def writeLowThreshold : Nat :=
  config.writeBufferSize * config.writeLowThreshPerc % 2 ^ 32 / 100

end DramParams

/-- A DDR3-1600 channel of 512 Mbyte with the default policies, in picoseconds
(`DDR3_1600_x64`). -/
def ddr3_1600_x64 : DramParams where
  deviceBusWidth := 8
  burstLength := 8
  deviceRowBufferSize := 1024
  devicesPerRank := 8
  ranksPerChannel := 2
  banksPerRank := 8
  channels := 1
  capacity := 2 ^ 29
  readBufferSize := 32
  writeBufferSize := 64
  writeHighThreshPerc := 85
  writeLowThreshPerc := 50
  minWritesPerSwitch := 16
  tWTR := 7500
  tRTW := 2500
  tBURST := 5000
  tRCD := 13750
  tCL := 13750
  tRP := 13750
  tRAS := 35000
  tWR := 15000
  tRTP := 7500
  tRFC := 260000
  tREFI := 7800000
  tRRD := 6000
  tXAW := 30000
  activationLimit := 4
  memSchedPolicy := .frfcfs
  addrMapping := .RoRaBaChCo
  pageMgmt := .openAdaptive
  maxAccessesPerRow := 16

/-- The parameters that the constructor accepts, and that no address decoding divides by zero. -/
structure DramConfig extends DramParams where
  burstSize_pos : 0 < toDramParams.burstSize
  columns_pos : 0 < toDramParams.columnsPerRowBuffer
  rows_pos : 0 < toDramParams.rowsPerBank
  ranks_pos : 0 < ranksPerChannel
  banks_pos : 0 < banksPerRank
  channels_pos : 0 < channels
  /-- The low threshold of the write buffer lies below the high one. -/
  thresholds : writeLowThreshPerc < writeHighThreshPerc
  percentage : writeHighThreshPerc ≤ 100
  /-- A refresh is due later than it takes to precharge, and to refresh. -/
  refresh_precharges : tRP < tREFI
  refresh_ends : tRFC < tREFI

/-- A sum of addresses. -/
def add64 (a b : Nat) : Nat :=
  (a + b) % 2 ^ 64

/-- A difference of addresses. -/
def sub64 (a b : Nat) : Nat :=
  (a + (2 ^ 64 - b % 2 ^ 64)) % 2 ^ 64

/-- Some bytes that one access of the DRAM reads or writes. -/
structure Burst where
  addr : Nat
  size : Nat
  deriving DecidableEq, Repr

/-- Where a burst goes: the part of a `DRAMPacket` that the address decoder fills in. -/
structure DramPlace where
  rank : Nat
  bank : Nat
  row : Nat
  bankId : Nat
  deriving DecidableEq, Repr

/-- One access of the DRAM, for a packet or for a part of one (`DRAMPacket`). -/
structure DramPacket extends Burst, DramPlace where
  readyTime : Nat
  /-- The packet from the outside world, by its number. -/
  pkt : Nat
  isRead : Bool
  /-- The counter that the bursts of a split packet share, by its number. -/
  burstHelper : Option Nat
  deriving DecidableEq, Repr

namespace DramConfig

variable (config : DramConfig)

/-- The first address behind a burst that starts at an address. -/
def nextBurst (addr : Nat) : Nat :=
  add64 (addr ||| (config.burstSize - 1)) 1

/-- The bytes of a packet from an address on, up to the end of the packet or of the burst. -/
def burstAt (pktAddr pktSize addr : Nat) : Burst :=
  { addr, size := sub64 (min (config.nextBurst addr) (add64 pktAddr pktSize)) addr % 2 ^ 32 }

/-- The number of bursts that a packet is split into (in `recvTimingReq`). -/
def pktCount (pktAddr pktSize : Nat) : Nat :=
  let offset := (pktAddr &&& (config.burstSize - 1)) % 2 ^ 32
  ((offset + pktSize) % 2 ^ 32 + config.burstSize - 1) % 2 ^ 32 / config.burstSize

/-- So many bursts of a packet, from an address on. -/
def burstsFrom (pktAddr pktSize : Nat) : Nat → Nat → List Burst
  | _, 0 => []
  | addr, count + 1 =>
    config.burstAt pktAddr pktSize addr ::
      burstsFrom pktAddr pktSize (config.nextBurst addr) count

/-- The bursts that a packet is split into. -/
def bursts (pktAddr pktSize : Nat) : List Burst :=
  config.burstsFrom pktAddr pktSize pktAddr (config.pktCount pktAddr pktSize)

/-- The rank, bank and row of an address (`decodeAddr`). -/
def decodeAddr (dramPktAddr : Nat) : DramPlace :=
  let addr := dramPktAddr / config.burstSize
  let banks := config.banksPerRank
  let ranks := config.ranksPerChannel
  let place (rank bank row : Nat) : DramPlace :=
    { rank := rank % 2 ^ 8, bank := bank % 2 ^ 8, row := row % 2 ^ 16
      bankId := (banks * (rank % 2 ^ 8) + bank % 2 ^ 8) % 2 ^ 16 }
  match config.addrMapping with
  | .RoRaBaChCo =>
    let addr := addr / config.columnsPerRowBuffer / config.channels
    place (addr / banks % ranks) (addr % banks) (addr / banks / ranks % config.rowsPerBank)
  | .RoRaBaCoCh =>
    let addr := addr / config.channels / config.columnsPerRowBuffer
    place (addr / banks % ranks) (addr % banks) (addr / banks / ranks % config.rowsPerBank)
  | .RoCoRaBaCh =>
    let addr := addr / config.channels
    place (addr / banks % ranks) (addr % banks)
      (addr / banks / ranks / config.columnsPerRowBuffer % config.rowsPerBank)

/-- A burst as an access of the DRAM at the place its address is decoded to. -/
def dramPacket (curTick pkt : Nat) (isRead : Bool) (helper : Option Nat) (burst : Burst) :
    DramPacket :=
  { toBurst := burst, toDramPlace := config.decodeAddr burst.addr, readyTime := curTick, pkt
    isRead, burstHelper := helper }

end DramConfig

namespace Burst

/-- A read lies in a write that is waiting (in `addToReadQueue`). -/
def subsumes (w read : Burst) : Bool :=
  decide (w.addr ≤ read.addr) &&
    decide (add64 read.addr read.size ≤ add64 w.addr w.size)

/-- Extend a write that is waiting by a new one, where that is possible (in `addToWriteQueue`). -/
def merge (burstSize : Nat) (w new : Burst) : Option Burst :=
  if new.addr ≤ w.addr then
    if add64 w.addr w.size ≤ add64 new.addr new.size then some new
    else if w.addr ≤ add64 new.addr new.size ∧
        sub64 (add64 w.addr w.size) new.addr ≤ burstSize then
      some { addr := new.addr, size := sub64 (add64 w.addr w.size) new.addr % 2 ^ 32 }
    else none
  else if add64 new.addr new.size ≤ add64 w.addr w.size then some w
  else if new.addr ≤ add64 w.addr w.size ∧
      sub64 (add64 new.addr new.size) w.addr ≤ burstSize then
    some { w with size := sub64 (add64 new.addr new.size) w.addr % 2 ^ 32 }
  else none

end Burst

/-- Merge a write with the first of those waiting that it can be merged with. -/
def mergeWrite (burstSize : Nat) (new : Burst) : List DramPacket → Option (List DramPacket)
  | [] => none
  | w :: rest =>
    match w.toBurst.merge burstSize new with
    | some merged => some ({ w with toBurst := merged } :: rest)
    | none => (mergeWrite burstSize new rest).map (w :: ·)

/-- The constructor accepts the DDR3-1600 channel. -/
def ddr3 : DramConfig where
  toDramParams := ddr3_1600_x64
  burstSize_pos := by decide
  columns_pos := by decide
  rows_pos := by decide
  ranks_pos := by decide
  banks_pos := by decide
  channels_pos := by decide
  thresholds := by decide
  percentage := by decide
  refresh_precharges := by decide
  refresh_ends := by decide

end GemDroid
