import GemDroid.Cpu.RenameRun

/-! An instruction that seems to have enough registers can run out of condition code registers. -/

namespace GemDroid

open Function (update_of_ne update_self)

open Outcome Journal

/-- The lists have registers of their classes. -/
structure UnifiedFreeList.Fit (file : PhysRegFile) (f : UnifiedFreeList) : Prop where
  listed : ∀ c, ∀ reg ∈ f.list c, file.isPhysReg c reg = true

/-- The maps know their zero registers and cover their classes. -/
structure UnifiedRenameMap.Fit (isa : Isa) (m : UnifiedRenameMap) : Prop where
  zeroReg : ∀ c, (m.map c).zeroReg = isa.zeroReg c
  covers : ∀ c, isa.numRegs c ≤ (m.map c).map.length

namespace UnifiedFreeList

variable {file : PhysRegFile} {f g : UnifiedFreeList} {c : PhysClass} {reg : Nat}

theorem Fit.take (fit : f.Fit file) {freeRegs : SimpleFreeList}
    (first : f.list c = reg :: freeRegs) : (f.setList c freeRegs).Fit file := by
  constructor
  intro c' reg' member
  by_cases same : c' = c
  · subst same
    rw [setList_list, update_self] at member
    exact fit.listed c' reg' (first ▸ List.mem_cons_of_mem _ member)
  · rw [setList_list, update_of_ne same] at member
    exact fit.listed c' reg' member

theorem Fit.addReg (fit : f.Fit file) (added : f.addReg file reg = .ok g) : g.Fit file := by
  have joins (c : PhysClass) (physical : file.isPhysReg c reg = true) :
      (f.setList c ((f.list c).addReg reg)).Fit file := by
    constructor
    intro c' reg' member
    by_cases same : c' = c
    · subst same
      rw [setList_list, update_self, SimpleFreeList.addReg, List.mem_append,
        List.mem_singleton] at member
      rcases member with old | rfl
      · exact fit.listed c' reg' old
      · exact physical
    · rw [setList_list, update_of_ne same] at member
      exact fit.listed c' reg' member
  unfold UnifiedFreeList.addReg at added
  dsimp only at added
  split at added
  · cases added
    exact joins .int ‹_›
  · split at added
    · cases added
      exact joins .float ‹_›
    · split at added
      · cases added
        exact joins .cc ‹_›
      · cases added

end UnifiedFreeList

namespace UnifiedRenameMap

variable {isa : Isa} {m : UnifiedRenameMap} {c : PhysClass} {flat reg : Nat}

theorem Fit.set (fit : m.Fit isa) : (m.setMap c ((m.map c).setEntry flat reg)).Fit isa := by
  constructor
  · intro c'
    by_cases same : c' = c
    · subst same
      simpa [SimpleRenameMap.setEntry] using fit.zeroReg c'
    · simpa [update_of_ne same] using fit.zeroReg c'
  · intro c'
    by_cases same : c' = c
    · subst same
      simpa [SimpleRenameMap.setEntry] using fit.covers c'
    · simpa [update_of_ne same] using fit.covers c'

theorem init_fit (isa : Isa) : (init isa).Fit isa := by
  constructor
  · intro c
    cases c <;> rfl
  · intro c
    have ccs := isa.cc_in_map
    cases c <;> simp [init, ccs]

end UnifiedRenameMap

namespace ThreadRename

variable {isa : Isa} {file : PhysRegFile} {inst : DynInst isa} {s t : ThreadRename}
  {hb : RenameHistory}

/-- The free list and the maps of a thread fit the register file. -/
structure Fit (isa : Isa) (file : PhysRegFile) (s : ThreadRename) : Prop where
  free : s.freeList.Fit file
  maps : s.renameMap.Fit isa

theorem Renames.fit (renames : Renames inst s hb t) (fit : s.Fit isa file) : t.Fit isa file := by
  cases renames with
  | kept number same frees maps logs => exact ⟨frees ▸ fit.free, maps ▸ fit.maps⟩
  | taken number inside arch entry first frees maps logs =>
    exact ⟨frees ▸ fit.free.take first, maps ▸ fit.maps.set⟩

theorem renameDestRegs_fit (fit : s.Fit isa file) :
    Ends Any (s.renameDestRegs isa file inst) (Fit isa file) := by
  apply ends_foldlM_mem
  · intro t dest_reg member fit
    apply (renameDestReg_ends t member).mono
    rintro u ⟨hb, renames⟩
    exact renames.fit fit
  · exact fit

theorem setClassEntry_fit {m : UnifiedRenameMap} (fit : m.Fit isa) (c : PhysClass)
    (arch_reg phys_reg : Nat) :
    Ends Any (m.setClassEntry file c arch_reg phys_reg) (UnifiedRenameMap.Fit isa) := by
  unfold UnifiedRenameMap.setClassEntry
  split
  · exact fit.set
  · trivial

theorem setEntry_fit {m : UnifiedRenameMap} (fit : m.Fit isa) (arch_reg phys_reg : Nat) :
    Ends Any (m.setEntry isa file arch_reg phys_reg) (UnifiedRenameMap.Fit isa) := by
  unfold UnifiedRenameMap.setEntry
  rw [ends_bind]
  cases isa.regIdxToClass arch_reg with
  | error e => trivial
  | ok found =>
    obtain ⟨cl, rel⟩ := found
    cases cl with
    | misc =>
      rw [ends_ok]
      dsimp only
      split
      · exact fit
      · trivial
    | phys c => cases c <;> exact setClassEntry_fit fit _ _ _

theorem undo_fit (fit : s.Fit isa file) (hb : RenameHistory) :
    Ends Any (s.undo isa file hb) (Fit isa file) := by
  unfold undo
  split
  · rw [ends_bind]
    apply (setEntry_fit fit.maps _ _).mono
    intro m maps
    rw [ends_bind]
    cases added : s.freeList.addReg file hb.newPhysReg with
    | error e => trivial
    | ok f => exact ⟨fit.free.addReg added, maps⟩
  · exact fit

theorem squashFrom_fit {seq : Nat} {log : List RenameHistory} (fit : s.Fit isa file) :
    Ends Any (squashFrom isa file seq log s) (Fit isa file) := by
  induction log generalizing s with
  | nil => exact ⟨fit.free, fit.maps⟩
  | cons hb log ih =>
    unfold squashFrom
    split
    · rw [ends_bind]
      exact (undo_fit fit hb).mono fun t fit => ih fit
    · exact ⟨fit.free, fit.maps⟩

theorem retire_fit (fit : s.Fit isa file) (hb : RenameHistory) :
    Ends Any (s.retire file hb) (Fit isa file) := by
  unfold retire
  split
  · rw [ends_bind]
    cases added : s.freeList.addReg file hb.prevPhysReg with
    | error e => trivial
    | ok f => exact ⟨fit.free.addReg added, fit.maps⟩
  · exact fit

theorem retireFrom_fit {seq : Nat} {log : List RenameHistory} (fit : s.Fit isa file) :
    Ends Any (retireFrom file seq log s) (Fit isa file) := by
  induction log generalizing s with
  | nil => exact ⟨fit.free, fit.maps⟩
  | cons hb log ih =>
    unfold retireFrom
    split
    · rw [ends_bind]
      exact (retire_fit fit hb).mono fun t fit => ih fit
    · exact ⟨fit.free, fit.maps⟩

end ThreadRename

namespace DynInst

variable {isa : Isa}

/-- The class that a destination takes a register of, if it takes one. -/
def takes (inst : DynInst isa) (dest_reg : Nat) : Option PhysClass :=
  match isa.regIdxToClass dest_reg with
  | .ok (.phys c, rel_dest_reg) =>
    if inst.flatten c rel_dest_reg = isa.zeroReg c then none else some c
  | _ => none

/-- How many registers of a class some destinations take. -/
def demand (inst : DynInst isa) (c : PhysClass) (dests : List Nat) : Nat :=
  dests.countP fun dest_reg => decide (inst.takes dest_reg = some c)

/-- The zero registers that are written are mapped to themselves, as renaming asserts. -/
def ZeroKept (inst : DynInst isa) (file : PhysRegFile) (m : UnifiedRenameMap) : Prop :=
  ∀ dest_reg ∈ inst.destRegIdx, ∀ c rel_dest_reg,
    isa.regIdxToClass dest_reg = .ok (.phys c, rel_dest_reg) →
      inst.flatten c rel_dest_reg = isa.zeroReg c →
        (m.map c).map[isa.zeroReg c]? = some (isa.zeroReg c) ∧
          file.isPhysReg c (isa.zeroReg c) = true

theorem demand_cons (inst : DynInst isa) (c : PhysClass) (dest_reg : Nat) (dests : List Nat) :
    inst.demand c (dest_reg :: dests) =
      inst.demand c dests + if inst.takes dest_reg = some c then 1 else 0 := by
  simp [demand, List.countP_cons]

theorem demand_le (inst : DynInst isa) (c : PhysClass) (dests : List Nat) :
    inst.demand c dests ≤ dests.length :=
  List.countP_le_length

end DynInst

namespace ThreadRename

variable {isa : Isa} {file : PhysRegFile} {inst : DynInst isa} {s : ThreadRename}

/-- What renaming a destination comes to: it takes a register if it has to and there is one. -/
inductive Serves (inst : DynInst isa) (s : ThreadRename) (dest_reg : Nat) :
    Except RenameFault ThreadRename → Prop
  | kept {t : ThreadRename} (none : inst.takes dest_reg = none)
      (frees : t.freeList = s.freeList) (maps : t.renameMap = s.renameMap) :
      Serves inst s dest_reg (.ok t)
  | taken {t : ThreadRename} {c : PhysClass} {reg flat : Nat} {freeRegs : SimpleFreeList}
      (takes : inst.takes dest_reg = some c) (other : flat ≠ isa.zeroReg c)
      (first : s.freeList.list c = reg :: freeRegs)
      (frees : t.freeList = s.freeList.setList c freeRegs)
      (maps : t.renameMap = s.renameMap.setMap c ((s.renameMap.map c).setEntry flat reg)) :
      Serves inst s dest_reg (.ok t)
  | empty {c : PhysClass} (takes : inst.takes dest_reg = some c)
      (none : s.freeList.list c = []) : Serves inst s dest_reg (.error .emptyFreeList)

/-- In a state that fits only an empty list stops the renaming of a destination. -/
theorem renameDestReg_serves (fit : s.Fit isa file) (kept : inst.ZeroKept file s.renameMap)
    {dest_reg : Nat} (member : dest_reg ∈ inst.destRegIdx) :
    Serves inst s dest_reg (s.renameDestReg isa file inst dest_reg) := by
  have known : dest_reg < isa.maxRegIndex := inst.dest_lt dest_reg member
  obtain ⟨⟨cl, rel⟩, classed⟩ : ∃ found, isa.regIdxToClass dest_reg = .ok found :=
    ⟨_, if_pos known⟩
  cases cl with
  | misc =>
    rw [renameDestReg, classed]
    exact .kept (by simp [DynInst.takes, classed]) rfl rfl
  | phys c =>
    rw [renameDestReg_phys s classed]
    have inside := inst.flatten_lt dest_reg member c rel classed
    obtain ⟨prev, entry⟩ : ∃ prev, (s.renameMap.map c).map[inst.flatten c rel]? = some prev :=
      ⟨_, List.getElem?_eq_getElem (Nat.lt_of_lt_of_le inside (fit.maps.covers c))⟩
    have zeroReg := fit.maps.zeroReg c
    unfold UnifiedRenameMap.renameClass SimpleRenameMap.rename
    simp only [entry, zeroReg]
    by_cases zero : inst.flatten c rel = isa.zeroReg c
    · -- The zero register is mapped to itself, and stays so.
      obtain ⟨itself, physical⟩ := kept dest_reg member c rel classed zero
      rw [← zero, entry, Option.some.injEq] at itself
      rw [if_neg (by simp [zero]), if_pos (by rw [itself, zero])]
      simp only [Bind.bind, Except.bind, Pure.pure, Except.pure, physical, if_true]
      refine .kept (by simp [DynInst.takes, classed, zero]) ?_ ?_
      · simp [UnifiedFreeList.setList]
      · simp [UnifiedRenameMap.setMap]
    · have takes : inst.takes dest_reg = some c := by simp [DynInst.takes, classed, zero]
      rw [if_pos zero]
      cases first : s.freeList.list c with
      | nil => exact .empty takes first
      | cons reg freeRegs =>
        have listed := fit.free.listed c reg (first ▸ List.mem_cons_self)
        simp only [SimpleFreeList.getReg, Bind.bind, Except.bind, Pure.pure, Except.pure, listed,
          if_true]
        refine .taken takes zero first rfl ?_
        rw [SimpleRenameMap.setEntry, zeroReg]

theorem Serves.next {t : ThreadRename} {dest_reg : Nat} (serves : Serves inst s dest_reg (.ok t))
    (fit : s.Fit isa file) (kept : inst.ZeroKept file s.renameMap) :
    t.Fit isa file ∧ inst.ZeroKept file t.renameMap := by
  cases serves with
  | kept none frees maps => exact ⟨⟨frees ▸ fit.free, maps ▸ fit.maps⟩, maps ▸ kept⟩
  | @taken _ c reg flat freeRegs takes other first frees maps =>
    refine ⟨⟨frees ▸ fit.free.take first, maps ▸ fit.maps.set⟩, ?_⟩
    intro dest member c' rel classed zero
    obtain ⟨itself, physical⟩ := kept dest member c' rel classed zero
    refine ⟨?_, physical⟩
    rw [maps]
    by_cases same : c' = c
    · subst same
      simpa [SimpleRenameMap.setEntry, List.getElem?_set_ne other] using itself
    · simpa [update_of_ne same] using itself

/-- Some destinations are all renamed exactly if every list has as many registers as they take. -/
theorem renames_iff {dests : List Nat} (fit : s.Fit isa file)
    (kept : inst.ZeroKept file s.renameMap)
    (among : ∀ dest_reg ∈ dests, dest_reg ∈ inst.destRegIdx) :
    dests.foldlM (renameDestReg isa file inst) s ≠ .error .emptyFreeList ↔
      ∀ c, inst.demand c dests ≤ (s.freeList.list c).length := by
  -- The induction follows the destinations, each of which takes what it needs from its list.
  induction dests generalizing s with
  | nil => simp [DynInst.demand, Pure.pure, Except.pure]
  | cons dest_reg dests ih =>
    rw [List.foldlM_cons]
    have serves := renameDestReg_serves fit kept (among dest_reg (by simp))
    have later (t : ThreadRename) (reached : Serves inst s dest_reg (.ok t)) :=
      ih (reached.next fit kept).1 (reached.next fit kept).2
        (fun dest member => among dest (by simp [member]))
    generalize ended : s.renameDestReg isa file inst dest_reg = outcome at serves
    have again := serves
    cases serves with
    | kept none frees maps =>
      simp only [Bind.bind, Except.bind]
      rw [later _ again, frees]
      simp [DynInst.demand_cons, none]
    | @taken t c reg flat freeRegs takes other first frees maps =>
      simp only [Bind.bind, Except.bind]
      rw [later _ again, frees]
      apply forall_congr'
      intro c'
      rw [DynInst.demand_cons, takes, UnifiedFreeList.setList_list]
      by_cases same : c' = c
      · subst same
        simp [first]
      · have apart : c ≠ c' := fun eq => same eq.symm
        simp [update_of_ne same, apart]
    | @empty c takes none =>
      simp only [Bind.bind, Except.bind, ne_eq, not_true_eq_false, false_iff, not_forall]
      refine ⟨c, ?_⟩
      simp [DynInst.demand_cons, takes, none]

end ThreadRename

namespace RenameRun

variable {threads : Nat} {isa : Isa} {file : PhysRegFile} {s t : RenameRun threads}

/-- The free list and the maps of all threads fit the register file. -/
structure Fit (isa : Isa) (file : PhysRegFile) (s : DefaultRename threads) : Prop where
  free : s.freeList.Fit file
  maps : ∀ tid, (s.renameMap tid).Fit isa

theorem Fit.thread {s : DefaultRename threads} (fit : Fit isa file s) (tid : Fin threads) :
    (s.thread tid).Fit isa file :=
  ⟨fit.free, fit.maps tid⟩

theorem Fit.setThread {s : DefaultRename threads} (fit : Fit isa file s) {own : ThreadRename}
    (kept : own.Fit isa file) (tid : Fin threads) : Fit isa file (s.setThread tid own) := by
  refine ⟨kept.free, fun other => ?_⟩
  by_cases same : other = tid
  · subst same
    simpa [DefaultRename.setThread] using kept.maps
  · simpa [DefaultRename.setThread, update_of_ne same] using fit.maps other

/-- The stage of a new processor fits its register file. -/
theorem boot_fit (isa : Isa) (file : PhysRegFile) :
    Ends Any (DefaultRename.boot isa file) fun stage : DefaultRename threads =>
      Fit isa file stage := by
  -- Each register that a thread is given comes from a list that fits, and stays in its class.
  apply ends_foldlM
  · intro s tid fit
    apply ends_foldlM
    · intro s c fit
      apply ends_foldlM
      · intro s ridx fit
        unfold DefaultRename.initReg
        cases first : s.freeList.list c with
        | nil => trivial
        | cons reg freeRegs =>
          rw [SimpleFreeList.getReg, ends_bind, ends_ok, ends_bind]
          apply (ThreadRename.setClassEntry_fit (fit.maps tid) _ _ _).mono
          intro m kept
          refine ⟨fit.free.take first, fun other => ?_⟩
          by_cases same : other = tid
          · subst same
            simpa using kept
          · simpa [update_of_ne same] using fit.maps other
      · exact fit
    · exact fit
  · refine ⟨⟨fun c reg member => ?_⟩, fun _ => UnifiedRenameMap.init_fit isa⟩
    have floats := file.float_after
    have ccs := file.cc_after
    cases c <;>
      · simp only [UnifiedFreeList.init, List.mem_range'_1] at member
        simp only [PhysRegFile.isPhysReg, decide_eq_true_eq]
        omega

theorem step_fit (fit : Fit isa file s.stage) {op : RenameOp isa threads}
    (taken : step isa file s op = some t) : Fit isa file t.stage := by
  -- A step takes over what a thread has made of its own state.
  have takes {tid : Fin threads} {x : Except RenameFault ThreadRename}
      {f : ThreadRename → RenameRun threads} (ends : Ends Any x (ThreadRename.Fit isa file))
      (works : x.toOption.map f = some t) (takesOver : ∀ own,
        (f own).stage = s.stage.setThread tid own) :
      Fit isa file t.stage := by
    cases ended : x with
    | error e => simp [ended, Except.toOption] at works
    | ok own =>
      simp only [ended, Except.toOption, Option.map_some, Option.some.injEq] at works
      rw [← works, takesOver]
      exact fit.setThread (ends.of_ok ended) tid
  cases op with
  | rename tid inst =>
    simp only [step] at taken
    split at taken
    · exact takes (ThreadRename.renameDestRegs_fit (fit.thread tid)) taken fun _ => rfl
    · cases taken
  | commit tid seqNum =>
    exact takes (ThreadRename.retireFrom_fit (fit.thread tid)) taken fun _ => rfl
  | squash tid seqNum =>
    simp only [step] at taken
    split at taken
    · exact takes (ThreadRename.squashFrom_fit (fit.thread tid)) taken fun _ => rfl
    · cases taken

/--
In every state that is reached an instruction that passes the test of its registers takes none
from an empty list exactly if there are as many condition code registers as it takes.
-/
theorem free_lists_suffice_iff {stage : DefaultRename threads} {ops : List (RenameOp isa threads)}
    (fit : Fit isa file stage) (ran : Machine.run (step isa file) (start stage) ops = some s)
    (tid : Fin threads) (inst : DynInst isa) (kept : inst.ZeroKept file (s.stage.renameMap tid))
    (enough : s.stage.enoughRegs inst = true) :
    (s.stage.thread tid).renameDestRegs isa file inst ≠ .error .emptyFreeList ↔
      inst.demand .cc inst.destRegIdx ≤ (s.stage.freeList.list .cc).length := by
  have fits : Fit isa file s.stage :=
    Machine.run_preserves (I := fun s => Fit isa file s.stage)
      (fun _ _ _ fit taken => step_fit fit taken) fit ran
  rw [ThreadRename.renameDestRegs, ThreadRename.renames_iff (fits.thread tid) kept fun _ => id]
  -- The test is about the integer and the floating-point registers.
  have passed : inst.destRegIdx.length ≤ s.stage.numFreeEntries := by
    rw [DefaultRename.enoughRegs, Bool.not_eq_true', decide_eq_false_iff_not] at enough
    exact Nat.not_lt.mp enough
  have ints := Nat.le_trans (Nat.le_trans (inst.demand_le .int _) passed) (Nat.min_le_left _ _)
  have floats := Nat.le_trans (Nat.le_trans (inst.demand_le .float _) passed) (Nat.min_le_right _ _)
  constructor
  · intro all
    exact all .cc
  · intro ccs c
    cases c with
    | int => exact ints
    | float => exact floats
    | cc => exact ccs

/-- An instruction that sets the carry and overflow flags, and nothing else. -/
def setsFlags : DynInst Isa.x86 where
  seqNum := 1
  destRegIdx := [185]
  flatten _ reg := reg
  dest_lt := by decide
  flatten_lt dest_reg member c rel classed := by
    have flags : Isa.x86.regIdxToClass 185 = .ok (.phys .cc, 1) := rfl
    rw [List.mem_singleton.mp member, flags] at classed
    cases classed
    decide

/-- With one condition code register to spare the flags can be renamed. -/
theorem flags_renamed :
    ∃ stage : DefaultRename 1, DefaultRename.boot Isa.x86 (.create 256 256 6) = .ok stage ∧
      (stage.thread 0).renameDestRegs Isa.x86 (.create 256 256 6) setsFlags ≠
        .error .emptyFreeList := by
  obtain ⟨stage, booted, enough, spare⟩ := exists_ok
    (x := (DefaultRename.boot Isa.x86 (.create 256 256 6) : Except RenameFault (DefaultRename 1)))
    (p := fun stage => stage.enoughRegs setsFlags = true ∧
      setsFlags.demand .cc setsFlags.destRegIdx ≤ (stage.freeList.list .cc).length)
    (by decide +kernel)
  refine ⟨stage, booted, ?_⟩
  have fit := (boot_fit Isa.x86 (.create 256 256 6)).of_ok booted
  have kept : setsFlags.ZeroKept (.create 256 256 6) (stage.renameMap 0) := by
    intro dest_reg member c rel classed zero
    have flags : Isa.x86.regIdxToClass 185 = .ok (.phys .cc, 1) := rfl
    rw [List.mem_singleton.mp member, flags] at classed
    cases classed
    exact absurd zero (by decide)
  have ran : Machine.run (step Isa.x86 (.create 256 256 6)) (start stage) [] =
      some (start stage) := rfl
  exact (free_lists_suffice_iff fit ran 0 setsFlags kept enough).mpr spare

/-- Without one to spare they cannot, though the instruction passes the test of its registers. -/
theorem flags_run_dry :
    ∃ stage : DefaultRename 1, DefaultRename.boot Isa.x86 (.create 256 256 5) = .ok stage ∧
      stage.enoughRegs setsFlags = true ∧
      (stage.thread 0).renameDestRegs Isa.x86 (.create 256 256 5) setsFlags =
        .error .emptyFreeList := by
  obtain ⟨stage, booted, enough, dry⟩ := exists_ok
    (x := (DefaultRename.boot Isa.x86 (.create 256 256 5) : Except RenameFault (DefaultRename 1)))
    (p := fun stage => stage.enoughRegs setsFlags = true ∧ stage.freeList.list .cc = [] ∧
      1 < ((stage.renameMap 0).map .cc).map.length ∧
      ((stage.renameMap 0).map .cc).zeroReg = 65535)
    (by decide +kernel)
  refine ⟨stage, booted, enough, ?_⟩
  obtain ⟨none, covers, zero⟩ := dry
  have flags : Isa.x86.regIdxToClass 185 = .ok (.phys .cc, 1) := rfl
  show (List.foldlM _ _ [185] : Except RenameFault ThreadRename) = _
  rw [List.foldlM_cons, ThreadRename.renameDestReg_phys _ flags]
  unfold UnifiedRenameMap.renameClass SimpleRenameMap.rename
  simp [DefaultRename.thread, setsFlags, List.getElem?_eq_getElem covers, zero, none,
    SimpleFreeList.getReg, Bind.bind, Except.bind]

end RenameRun

end GemDroid
