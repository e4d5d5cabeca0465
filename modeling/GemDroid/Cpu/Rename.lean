import Mathlib.Data.List.FinRange
import Mathlib.Logic.Function.Basic
import GemDroid.Lib.Outcome

/-! Register renaming: the free lists, the maps of the threads and the histories over them. -/

namespace GemDroid

/-- The classes of registers that have physical registers of their own. -/
inductive PhysClass
  | int
  | float
  | cc
  deriving DecidableEq, Repr

/-- The classes of registers (`RegClass`); miscellaneous registers are not renamed. -/
inductive RegClass
  | phys (c : PhysClass)
  | misc
  deriving DecidableEq, Repr

/-- The assertions and panics of renaming. -/
inductive RenameFault
  /-- `SimpleFreeList::getReg`: `!freeRegs.empty()`. -/
  | emptyFreeList
  /-- `SimpleRenameMap::rename`: `prev_reg == zeroReg`. -/
  | zeroRegMoved
  /-- A register outside of its map. -/
  | outsideMap
  /-- `regIdxToClass`: `reg_idx < TheISA::Max_Reg_Index`. -/
  | badRegIndex
  /-- `isIntPhysReg`, `isFloatPhysReg` or `isCCPhysReg` of what was taken, set or freed. -/
  | wrongClass
  /-- `UnifiedRenameMap::setEntry`: `phys_reg == lookupMisc(rel_arch_reg)`. -/
  | miscMoved
  deriving DecidableEq, Repr

/--
What an instruction set fixes about its registers (`TheISA`).

The unified space has the classes one behind the other, each from its base.
-/
structure Isa where
  numRegs : PhysClass → Nat
  fpRegBase : Nat
  ccRegBase : Nat
  miscRegBase : Nat
  maxRegIndex : Nat
  /-- Each class has a zero register or an index that no register of it has. -/
  zeroReg : PhysClass → Nat
  int_fits : numRegs .int ≤ fpRegBase
  float_fits : fpRegBase + numRegs .float ≤ ccRegBase
  cc_fits : ccRegBase + numRegs .cc ≤ miscRegBase
  misc_fits : miscRegBase ≤ maxRegIndex
  /-- There is no zero register for condition codes; their map is told `(RegIndex)-1`. -/
  cc_renamed : maxRegIndex ≤ zeroReg .cc
  /-- Their map is made as large as the one of the floating-point registers. -/
  cc_in_map : numRegs .cc ≤ numRegs .float

namespace Isa

/-- Where a class begins in the unified space. -/
def base (isa : Isa) : RegClass → Nat
  | .phys .int => 0
  | .phys .float => isa.fpRegBase
  | .phys .cc => isa.ccRegBase
  | .misc => isa.miscRegBase

/-- The class of a register of the unified space and its index there (`regIdxToClass`). -/
def regIdxToClass (isa : Isa) (reg_idx : Nat) :
    Except RenameFault (RegClass × Nat) :=
  if reg_idx < isa.maxRegIndex then
    let cl :=
      if reg_idx < isa.fpRegBase then .phys .int
      else if reg_idx < isa.ccRegBase then .phys .float
      else if reg_idx < isa.miscRegBase then .phys .cc
      else .misc
    .ok (cl, reg_idx - isa.base cl)
  else .error .badRegIndex

/-- The registers of an x86 processor, with 5 condition code registers. -/
def x86 : Isa where
  numRegs
    | .int => 38
    | .float => 56
    | .cc => 5
  fpRegBase := 128
  ccRegBase := 184
  miscRegBase := 189
  maxRegIndex := 393
  zeroReg
    | .int => 16
    | .float => 57
    | .cc => 65535
  int_fits := by decide
  float_fits := by decide
  cc_fits := by decide
  misc_fits := by decide
  cc_renamed := by decide
  cc_in_map := by decide

end Isa

/-- How the physical registers divide into classes (`PhysRegFile`). -/
structure PhysRegFile where
  baseFloatRegIndex : Nat
  baseCCRegIndex : Nat
  totalNumRegs : Nat
  float_after : baseFloatRegIndex ≤ baseCCRegIndex
  cc_after : baseCCRegIndex ≤ totalNumRegs

namespace PhysRegFile

/-- A file with so many registers of each class. -/
def create (numIntRegs numFloatRegs numCCRegs : Nat) : PhysRegFile where
  baseFloatRegIndex := numIntRegs
  baseCCRegIndex := numIntRegs + numFloatRegs
  totalNumRegs := numIntRegs + numFloatRegs + numCCRegs
  float_after := Nat.le_add_right _ _
  cc_after := Nat.le_add_right _ _

/-- `isIntPhysReg`, `isFloatPhysReg` and `isCCPhysReg`. -/
def isPhysReg (file : PhysRegFile) (c : PhysClass) (reg_idx : Nat) : Bool :=
  match c with
  | .int => decide (reg_idx < file.baseFloatRegIndex)
  | .float => decide (file.baseFloatRegIndex ≤ reg_idx ∧ reg_idx < file.baseCCRegIndex)
  | .cc => decide (file.baseCCRegIndex ≤ reg_idx ∧ reg_idx < file.totalNumRegs)

end PhysRegFile

/-- The free registers of a class, those free the longest first. -/
abbrev SimpleFreeList := List Nat

namespace SimpleFreeList

/-- Put a register behind the others (`addReg`). -/
def addReg (reg : Nat) (freeRegs : SimpleFreeList) : SimpleFreeList :=
  freeRegs ++ [reg]

/-- Take the first register (`getReg`). -/
def getReg : SimpleFreeList → Except RenameFault (Nat × SimpleFreeList)
  | [] => .error .emptyFreeList
  | free_reg :: freeRegs => .ok (free_reg, freeRegs)

end SimpleFreeList

/-- The free registers by class: `intList`, `floatList` and `ccList`. -/
structure UnifiedFreeList where
  list : PhysClass → SimpleFreeList

namespace UnifiedFreeList

/-- Replace the list of one class. -/
def setList (c : PhysClass) (freeRegs : SimpleFreeList) (f : UnifiedFreeList) : UnifiedFreeList :=
  ⟨Function.update f.list c freeRegs⟩

/-- Put a register back into the list of its class (`addReg`). -/
def addReg (file : PhysRegFile) (freed_reg : Nat) (f : UnifiedFreeList) :
    Except RenameFault UnifiedFreeList :=
  let add := fun c => f.setList c ((f.list c).addReg freed_reg)
  if file.isPhysReg .int freed_reg then .ok (add .int)
  else if file.isPhysReg .float freed_reg then .ok (add .float)
  else if file.isPhysReg .cc freed_reg then .ok (add .cc)
  else .error .wrongClass

/-- All registers of a file are free (`PhysRegFile::initFreeList`). -/
def init (file : PhysRegFile) : UnifiedFreeList where
  list
    | .int => List.range' 0 file.baseFloatRegIndex
    | .float => List.range' file.baseFloatRegIndex (file.baseCCRegIndex - file.baseFloatRegIndex)
    | .cc => List.range' file.baseCCRegIndex (file.totalNumRegs - file.baseCCRegIndex)

end UnifiedFreeList

/-- A new physical register and the one that it replaces (`RenameInfo`). -/
abbrev RenameInfo := Nat × Nat

/-- The physical registers of the architectural ones of a class. -/
structure SimpleRenameMap where
  map : List Nat
  zeroReg : Nat
  deriving DecidableEq

namespace SimpleRenameMap

/-- Give an architectural register a free physical register (`rename`). -/
def rename (arch_reg : Nat) (m : SimpleRenameMap) (freeList : SimpleFreeList) :
    Except RenameFault (SimpleRenameMap × SimpleFreeList × RenameInfo) :=
  match m.map[arch_reg]? with
  | none => .error .outsideMap
  | some prev_reg =>
    if arch_reg ≠ m.zeroReg then do
      let (renamed_reg, freeList) ← freeList.getReg
      return ({ m with map := m.map.set arch_reg renamed_reg }, freeList, renamed_reg, prev_reg)
    else if prev_reg = m.zeroReg then .ok (m, freeList, m.zeroReg, prev_reg)
    else .error .zeroRegMoved

/-- Point an architectural register at a physical one (`setEntry`). -/
def setEntry (arch_reg : Nat) (phys_reg : Nat) (m : SimpleRenameMap) :
    SimpleRenameMap :=
  { m with map := m.map.set arch_reg phys_reg }

end SimpleRenameMap

/-- The maps of a thread by class: `intMap`, `floatMap` and `ccMap`. -/
structure UnifiedRenameMap where
  map : PhysClass → SimpleRenameMap

namespace UnifiedRenameMap

/-- Maps that point nowhere yet (`UnifiedRenameMap::init`). -/
def init (isa : Isa) : UnifiedRenameMap where
  map
    | .int => ⟨List.replicate (isa.numRegs .int) 0, isa.zeroReg .int⟩
    | .float => ⟨List.replicate (isa.numRegs .float) 0, isa.zeroReg .float⟩
    | .cc => ⟨List.replicate (isa.numRegs .float) 0, isa.zeroReg .cc⟩

/-- Replace the map of one class. -/
def setMap (c : PhysClass) (simple : SimpleRenameMap) (m : UnifiedRenameMap) : UnifiedRenameMap :=
  ⟨Function.update m.map c simple⟩

/-- Rename a register of one class. -/
def renameClass (file : PhysRegFile) (c : PhysClass) (rel_arch_reg : Nat)
    (m : UnifiedRenameMap) (f : UnifiedFreeList) :
    Except RenameFault (UnifiedRenameMap × UnifiedFreeList × RenameInfo) := do
  let (simple, freeRegs, info) ← (m.map c).rename rel_arch_reg (f.list c)
  if file.isPhysReg c info.1 then
    return (m.setMap c simple, f.setList c freeRegs, info)
  else .error .wrongClass

/-- Rename an integer register (`renameInt`). -/
def renameInt (file : PhysRegFile) := renameClass file .int

/-- Rename a floating-point register (`renameFloat`). -/
def renameFloat (file : PhysRegFile) := renameClass file .float

/-- Rename a condition code register (`renameCC`). -/
def renameCC (file : PhysRegFile) := renameClass file .cc

/-- A miscellaneous register has an index past all physical registers (`lookupMisc`). -/
def lookupMisc (file : PhysRegFile) (rel_arch_reg : Nat) : Nat :=
  rel_arch_reg + file.totalNumRegs

/-- A miscellaneous register keeps its index (`renameMisc`). -/
def renameMisc (file : PhysRegFile) (rel_arch_reg : Nat) : RenameInfo :=
  (lookupMisc file rel_arch_reg, lookupMisc file rel_arch_reg)

/-- Point a register of one class at a physical register. -/
def setClassEntry (file : PhysRegFile) (c : PhysClass) (arch_reg : Nat)
    (phys_reg : Nat) (m : UnifiedRenameMap) : Except RenameFault UnifiedRenameMap :=
  if file.isPhysReg c phys_reg then .ok (m.setMap c ((m.map c).setEntry arch_reg phys_reg))
  else .error .wrongClass

/-- Point an integer register at a physical register (`setIntEntry`). -/
def setIntEntry (file : PhysRegFile) := setClassEntry file .int

/-- Point a floating-point register at a physical register (`setFloatEntry`). -/
def setFloatEntry (file : PhysRegFile) := setClassEntry file .float

/-- Point a condition code register at a physical register (`setCCEntry`). -/
def setCCEntry (file : PhysRegFile) := setClassEntry file .cc

/-- Point a register of the unified space at a physical register (`setEntry`). -/
def setEntry (isa : Isa) (file : PhysRegFile) (arch_reg : Nat) (phys_reg : Nat)
    (m : UnifiedRenameMap) : Except RenameFault UnifiedRenameMap := do
  let (cl, rel_arch_reg) ← isa.regIdxToClass arch_reg
  match cl with
  | .phys .int => m.setIntEntry file rel_arch_reg phys_reg
  | .phys .float => m.setFloatEntry file rel_arch_reg phys_reg
  | .phys .cc => m.setCCEntry file rel_arch_reg phys_reg
  | .misc => if phys_reg = lookupMisc file rel_arch_reg then .ok m else .error .miscMoved

end UnifiedRenameMap

/-- What renaming a destination changed (`RenameHistory`). -/
structure RenameHistory where
  instSeqNum : Nat
  /-- The register in the unified space. -/
  archReg : Nat
  newPhysReg : Nat
  prevPhysReg : Nat
  deriving DecidableEq

/-- What renaming reads of an instruction, and how its thread numbers the registers of a class. -/
structure DynInst (isa : Isa) where
  seqNum : Nat
  destRegIdx : List Nat
  /-- `flattenIntIndex`, `flattenFloatIndex` and `flattenCCIndex`. -/
  flatten : PhysClass → Nat → Nat
  dest_lt : ∀ dest_reg ∈ destRegIdx, dest_reg < isa.maxRegIndex
  flatten_lt : ∀ dest_reg ∈ destRegIdx, ∀ c rel_dest_reg,
    isa.regIdxToClass dest_reg = .ok (.phys c, rel_dest_reg) →
      flatten c rel_dest_reg < isa.numRegs c

namespace DynInst

/-- The number of destinations, renamed or not. -/
def numDestRegs {isa : Isa} (inst : DynInst isa) : Nat :=
  inst.destRegIdx.length

end DynInst

/-- The rename stage of so many threads (`DefaultRename`). -/
structure DefaultRename (threads : Nat) where
  freeList : UnifiedFreeList
  renameMap : Fin threads → UnifiedRenameMap
  /-- The history of each thread, the newest entry first. -/
  historyBuffer : Fin threads → List RenameHistory

/-- What one thread has of the rename stage, with the free list that all share. -/
structure ThreadRename where
  freeList : UnifiedFreeList
  renameMap : UnifiedRenameMap
  historyBuffer : List RenameHistory

namespace ThreadRename

/-- Rename one destination (the body of the loop of `renameDestRegs`). -/
def renameDestReg (isa : Isa) (file : PhysRegFile) (inst : DynInst isa) (s : ThreadRename)
    (dest_reg : Nat) : Except RenameFault ThreadRename := do
  let (cl, rel_dest_reg) ← isa.regIdxToClass dest_reg
  let record := fun flat_rel_dest_reg (info : RenameInfo) =>
    ({ instSeqNum := inst.seqNum, archReg := flat_rel_dest_reg + isa.base cl,
       newPhysReg := info.1, prevPhysReg := info.2 } : RenameHistory) :: s.historyBuffer
  match cl with
  | .phys c =>
    let flat_rel_dest_reg := inst.flatten c rel_dest_reg
    let (renameMap, freeList, info) ←
      match c with
      | .int => s.renameMap.renameInt file flat_rel_dest_reg s.freeList
      | .float => s.renameMap.renameFloat file flat_rel_dest_reg s.freeList
      | .cc => s.renameMap.renameCC file flat_rel_dest_reg s.freeList
    return { freeList, renameMap, historyBuffer := record flat_rel_dest_reg info }
  | .misc =>
    -- Miscellaneous registers are not flattened.
    let info := UnifiedRenameMap.renameMisc file rel_dest_reg
    return { s with historyBuffer := record rel_dest_reg info }

/-- Rename the destinations of an instruction in turn (`renameDestRegs`). -/
def renameDestRegs (isa : Isa) (file : PhysRegFile) (inst : DynInst isa) (s : ThreadRename) :
    Except RenameFault ThreadRename :=
  inst.destRegIdx.foldlM (renameDestReg isa file inst) s

/-- Take back the newest renaming, if it was a change (the body of the loop of `doSquash`). -/
def undo (isa : Isa) (file : PhysRegFile) (hb : RenameHistory) (s : ThreadRename) :
    Except RenameFault ThreadRename :=
  if hb.newPhysReg ≠ hb.prevPhysReg then do
    let renameMap ← s.renameMap.setEntry isa file hb.archReg hb.prevPhysReg
    let freeList ← s.freeList.addReg file hb.newPhysReg
    return { s with renameMap, freeList }
  else .ok s

/-- Undo what is younger than a sequence number, the newest entry first. -/
def squashFrom (isa : Isa) (file : PhysRegFile) (squashed_seq_num : Nat) :
    List RenameHistory → ThreadRename → Except RenameFault ThreadRename
  | [], s => .ok { s with historyBuffer := [] }
  | hb :: older, s =>
    if hb.instSeqNum > squashed_seq_num then do
      let s ← s.undo isa file hb
      squashFrom isa file squashed_seq_num older s
    else .ok { s with historyBuffer := hb :: older }

/-- Undo the renamings of the instructions after a sequence number (`doSquash`). -/
def doSquash (isa : Isa) (file : PhysRegFile) (squashed_seq_num : Nat) (s : ThreadRename) :
    Except RenameFault ThreadRename :=
  squashFrom isa file squashed_seq_num s.historyBuffer s

/-- Free what the oldest renaming replaced, if it was a change (in `removeFromHistory`). -/
def retire (file : PhysRegFile) (hb : RenameHistory) (s : ThreadRename) :
    Except RenameFault ThreadRename :=
  if hb.newPhysReg ≠ hb.prevPhysReg then do
    let freeList ← s.freeList.addReg file hb.prevPhysReg
    return { s with freeList }
  else .ok s

/-- Forget what is not younger than a sequence number, the oldest entry first. -/
def retireFrom (file : PhysRegFile) (inst_seq_num : Nat) :
    List RenameHistory → ThreadRename → Except RenameFault ThreadRename
  | [], s => .ok { s with historyBuffer := [] }
  | hb :: younger, s =>
    if hb.instSeqNum ≤ inst_seq_num then do
      let s ← s.retire file hb
      retireFrom file inst_seq_num younger s
    else .ok { s with historyBuffer := (hb :: younger).reverse }

/-- Forget the renamings of the instructions up to a committed one (`removeFromHistory`). -/
def removeFromHistory (file : PhysRegFile) (inst_seq_num : Nat) (s : ThreadRename) :
    Except RenameFault ThreadRename :=
  retireFrom file inst_seq_num s.historyBuffer.reverse s

end ThreadRename

namespace DefaultRename

variable {threads : Nat}

/-- What a thread works on. -/
def thread (s : DefaultRename threads) (tid : Fin threads) : ThreadRename :=
  { freeList := s.freeList, renameMap := s.renameMap tid, historyBuffer := s.historyBuffer tid }

/-- Take over what a thread has worked on. -/
def setThread (tid : Fin threads) (own : ThreadRename) (s : DefaultRename threads) :
    DefaultRename threads :=
  { freeList := own.freeList
    renameMap := Function.update s.renameMap tid own.renameMap
    historyBuffer := Function.update s.historyBuffer tid own.historyBuffer }

/-- What a thread can rename at least of each class (`UnifiedRenameMap::numFreeEntries`). -/
def numFreeEntries (s : DefaultRename threads) : Nat :=
  min (s.freeList.list .int).length (s.freeList.list .float).length

/-- Whether there seem to be enough registers for an instruction (`renameInsts`). -/
def enoughRegs {isa : Isa} (s : DefaultRename threads) (inst : DynInst isa) : Bool :=
  !decide (s.numFreeEntries < inst.numDestRegs)

/-- Give an architectural register of a thread the first free register of its class. -/
def initReg (file : PhysRegFile) (tid : Fin threads) (c : PhysClass) (s : DefaultRename threads)
    (ridx : Nat) : Except RenameFault (DefaultRename threads) := do
  let (phys_reg, freeRegs) ← (s.freeList.list c).getReg
  let renameMap ← (s.renameMap tid).setClassEntry file c ridx phys_reg
  return { s with
    freeList := s.freeList.setList c freeRegs
    renameMap := Function.update s.renameMap tid renameMap }

/-- Give all architectural registers of a thread free registers. -/
def initThread (isa : Isa) (file : PhysRegFile) (s : DefaultRename threads) (tid : Fin threads) :
    Except RenameFault (DefaultRename threads) :=
  [PhysClass.int, .float, .cc].foldlM (fun s c =>
    (List.range (isa.numRegs c)).foldlM (initReg file tid c) s) s

/-- The stage as a processor is made, with all threads active (`FullO3CPU::FullO3CPU`). -/
def boot (isa : Isa) (file : PhysRegFile) : Except RenameFault (DefaultRename threads) :=
  (List.finRange threads).foldlM (initThread isa file)
    { freeList := .init file, renameMap := fun _ => .init isa, historyBuffer := fun _ => [] }

end DefaultRename

end GemDroid
