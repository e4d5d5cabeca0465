import GemDroid.Base.ChunkGenerator
import GemDroid.Base.ChunkGeneratorRun
import GemDroid.Base.CircleBuf
import GemDroid.Base.CircleBufRun
import GemDroid.Base.HistStorCounts
import GemDroid.Base.HistStorGrow
import GemDroid.Base.HistStorOrder
import GemDroid.Base.HistStorRun
import GemDroid.Base.Inet
import GemDroid.Base.InetRun
import GemDroid.Base.SampleBatches
import GemDroid.Base.Statistics
import GemDroid.Base.Trie
import GemDroid.Base.TrieChanges
import GemDroid.Base.TrieHeap
import GemDroid.Base.TrieRemove
import GemDroid.Base.TrieRun
import GemDroid.Core.Accounting
import GemDroid.Core.FrameDrops
import GemDroid.Core.FrameDropsRun
import GemDroid.Core.FramePacing
import GemDroid.Core.Issue
import GemDroid.Core.Moves
import GemDroid.Core.Power
import GemDroid.Core.PowerSample
import GemDroid.Core.PowerSampleRun
import GemDroid.Core.Refinement
import GemDroid.Core.Responses
import GemDroid.Core.State
import GemDroid.Core.Tick
import GemDroid.Core.Trace
import GemDroid.Cpu.BPred
import GemDroid.Cpu.BPredRun
import GemDroid.Cpu.BPredSquash
import GemDroid.Cpu.FUPool
import GemDroid.Cpu.IssueQueue
import GemDroid.Cpu.IssueQueueInsert
import GemDroid.Cpu.IssueQueueLists
import GemDroid.Cpu.IssueQueueRun
import GemDroid.Cpu.MemBarriers
import GemDroid.Cpu.MemDep
import GemDroid.Cpu.MemDepRun
import GemDroid.Cpu.ReadyLists
import GemDroid.Cpu.ReadyListsRun
import GemDroid.Cpu.Rename
import GemDroid.Cpu.RenameFree
import GemDroid.Cpu.RenameRun
import GemDroid.Cpu.Rob
import GemDroid.Cpu.RobRun
import GemDroid.Cpu.StoreSet
import GemDroid.Cpu.StoreSetRun
import GemDroid.Cpu.Tournament
import GemDroid.Defines
import GemDroid.Dev.CowDiskImage
import GemDroid.Dev.CowDiskImageRun
import GemDroid.Dev.DiskImage
import GemDroid.Dvfs.CoScale
import GemDroid.Dvfs.CoScaleRun
import GemDroid.Dvfs.DynamicProg
import GemDroid.Dvfs.DynamicProgOne
import GemDroid.Dvfs.DynamicProgTwo
import GemDroid.Dvfs.LoadBased
import GemDroid.Dvfs.Memory
import GemDroid.Dvfs.PowerCap
import GemDroid.Dvfs.Slack
import GemDroid.Dvfs.States
import GemDroid.Dvfs.TimeModel
import GemDroid.Ip.Base
import GemDroid.Ip.Coder
import GemDroid.Ip.CoderRun
import GemDroid.Ip.DecoderFrames
import GemDroid.Ip.DeviceRun
import GemDroid.Ip.Gpu
import GemDroid.Ip.GpuRun
import GemDroid.Ip.PowerRun
import GemDroid.Lib.Align
import GemDroid.Lib.BitPrefix
import GemDroid.Lib.BitTree
import GemDroid.Lib.Chain
import GemDroid.Lib.Custody
import GemDroid.Lib.Divider
import GemDroid.Lib.Edges
import GemDroid.Lib.Evenly
import GemDroid.Lib.Fifo
import GemDroid.Lib.InStream
import GemDroid.Lib.Journal
import GemDroid.Lib.Line
import GemDroid.Lib.LinkedTree
import GemDroid.Lib.Links
import GemDroid.Lib.LittleEndian
import GemDroid.Lib.Nested
import GemDroid.Lib.Outcome
import GemDroid.Lib.Ownership
import GemDroid.Lib.Place
import GemDroid.Lib.Quota
import GemDroid.Lib.Recency
import GemDroid.Lib.Reservation
import GemDroid.Lib.Roster
import GemDroid.Lib.Rounding
import GemDroid.Lib.Run
import GemDroid.Lib.Search
import GemDroid.Lib.Stripes
import GemDroid.Lib.Tiling
import GemDroid.Lib.Walk
import GemDroid.Lib.While
import GemDroid.Mem.AddrRange
import GemDroid.Mem.AddrRangeRun
import GemDroid.Mem.AddrStripes
import GemDroid.Mem.Atomic
import GemDroid.Mem.AtomicCache
import GemDroid.Mem.Blk
import GemDroid.Mem.Bridge
import GemDroid.Mem.BridgeRun
import GemDroid.Mem.BusLayer
import GemDroid.Mem.BusLayerRun
import GemDroid.Mem.Cache
import GemDroid.Mem.CacheTags
import GemDroid.Mem.Cluster
import GemDroid.Mem.Coherence
import GemDroid.Mem.CoherenceRun
import GemDroid.Mem.CoherentMemory
import GemDroid.Mem.CpuAccess
import GemDroid.Mem.Dram
import GemDroid.Mem.DramBursts
import GemDroid.Mem.DramCtrl
import GemDroid.Mem.DramDevice
import GemDroid.Mem.DramMerge
import GemDroid.Mem.DramMoves
import GemDroid.Mem.DramQueues
import GemDroid.Mem.DramReorder
import GemDroid.Mem.DramRows
import GemDroid.Mem.DramServed
import GemDroid.Mem.DramWakeup
import GemDroid.Mem.FaLru
import GemDroid.Mem.FaLruBoundaries
import GemDroid.Mem.FaLruCheck
import GemDroid.Mem.FaLruLinks
import GemDroid.Mem.FaLruLinksRun
import GemDroid.Mem.FaLruRun
import GemDroid.Mem.Functional
import GemDroid.Mem.FunctionalRun
import GemDroid.Mem.Hierarchy
import GemDroid.Mem.LoadLocked
import GemDroid.Mem.LoadLockedBlk
import GemDroid.Mem.Lru
import GemDroid.Mem.LruRun
import GemDroid.Mem.Memory
import GemDroid.Mem.Mshr
import GemDroid.Mem.MshrQueue
import GemDroid.Mem.MshrQueueRun
import GemDroid.Mem.MshrRun
import GemDroid.Mem.MshrUpgrade
import GemDroid.Mem.Packet
import GemDroid.Mem.PacketQueue
import GemDroid.Mem.PacketQueueRun
import GemDroid.Mem.PageTable
import GemDroid.Mem.PageTableRun
import GemDroid.Mem.Secure
import GemDroid.Mem.SharedL2
import GemDroid.Mem.SimpleMem
import GemDroid.Mem.SimpleMemRun
import GemDroid.Ruby.CacheMemory
import GemDroid.Ruby.CacheSlots
import GemDroid.Ruby.DMASequencer
import GemDroid.Ruby.DMASequencerParts
import GemDroid.Ruby.DMASequencerRun
import GemDroid.Ruby.MIExample
import GemDroid.Ruby.MIExampleCache
import GemDroid.Ruby.MIExampleDirectory
import GemDroid.Ruby.MIExamplePhases
import GemDroid.Ruby.MIExampleRun
import GemDroid.Ruby.MIExampleSound
import GemDroid.Ruby.MIExampleSystem
import GemDroid.Ruby.PseudoLRU
import GemDroid.Ruby.PseudoLRURun
import GemDroid.Ruby.Sequencer
import GemDroid.Ruby.SequencerRun
import GemDroid.Ruby.SparseMemory
import GemDroid.Ruby.SparseMemoryCuts
import GemDroid.Ruby.SparseMemoryRun
import GemDroid.Sa.Agent
import GemDroid.Sa.Bounds
import GemDroid.Sa.Flows
import GemDroid.Sa.LoadFlows
import GemDroid.Sa.LoadFlowsRun
import GemDroid.Sa.Traffic
import GemDroid.Sim.Agenda
import GemDroid.Sim.ClockDomain
import GemDroid.Sim.ClockDomainRun
import GemDroid.Sim.EventQueue
import GemDroid.Sim.EventQueueRun
