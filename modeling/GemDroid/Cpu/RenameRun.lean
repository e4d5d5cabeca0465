import Mathlib.Data.Fintype.Basic
import GemDroid.Cpu.Rename
import GemDroid.Lib.Custody
import GemDroid.Lib.Journal
import GemDroid.Lib.Run

/-! Over every run of renaming, committing and squashing each physical register is in one place. -/

namespace GemDroid

open Function (update update_eq_self update_idem update_of_ne update_self)

open Custody Journal Outcome

instance : Fintype PhysClass where
  elems := {.int, .float, .cc}
  complete c := by cases c <;> simp

namespace SimpleRenameMap

/-- What renaming an architectural register does: it takes a free register or leaves all alone. -/
inductive Renames (m : SimpleRenameMap) (arch_reg : Nat) (freeList : SimpleFreeList) :
    SimpleRenameMap × SimpleFreeList × RenameInfo → Prop
  | kept (reg : Nat) : Renames m arch_reg freeList (m, freeList, reg, reg)
  | taken {reg prev : Nat} {freeRegs : SimpleFreeList} (entry : m.map[arch_reg]? = some prev)
      (first : freeList = reg :: freeRegs) :
      Renames m arch_reg freeList (m.setEntry arch_reg reg, freeRegs, reg, prev)

theorem rename_ends (m : SimpleRenameMap) (arch_reg : Nat) (freeList : SimpleFreeList) :
    Ends Any (m.rename arch_reg freeList) (Renames m arch_reg freeList) := by
  unfold rename
  cases entry : m.map[arch_reg]? with
  | none => trivial
  | some prev =>
    dsimp only
    split
    case isTrue other =>
      cases first : freeList with
      | nil => trivial
      | cons reg freeRegs => exact .taken entry rfl
    case isFalse zero =>
      split
      case isTrue same =>
        rw [ends_ok, same]
        exact .kept _
      case isFalse moved => trivial

end SimpleRenameMap

namespace UnifiedFreeList

/-- The registers of a list, of any class. -/
def listed (_ : PhysClass) (freeRegs : SimpleFreeList) : Multiset Nat :=
  freeRegs

/-- The free registers of all classes. -/
def free (f : UnifiedFreeList) : Multiset Nat :=
  held listed f.list

@[simp] theorem setList_list (f : UnifiedFreeList) (c : PhysClass) (freeRegs : SimpleFreeList) :
    (f.setList c freeRegs).list = update f.list c freeRegs := rfl

theorem free_take {f : UnifiedFreeList} {c : PhysClass} {reg : Nat}
    {freeRegs : SimpleFreeList} (first : f.list c = reg :: freeRegs) :
    (f.setList c freeRegs).free + {reg} = f.free := by
  have moved := held_update listed f.list c freeRegs
  rw [first, listed, listed, ← Multiset.cons_coe, ← Multiset.singleton_add, ← add_assoc] at moved
  exact add_right_cancel moved

theorem free_addReg {f g : UnifiedFreeList} {file : PhysRegFile} {reg : Nat}
    (added : f.addReg file reg = .ok g) : g.free = f.free + {reg} := by
  -- Whichever class the register belongs to, its list grows by it.
  have grows (c : PhysClass) : (f.setList c ((f.list c).addReg reg)).free = f.free + {reg} := by
    have moved := held_update listed f.list c ((f.list c).addReg reg)
    have longer : listed c ((f.list c).addReg reg) = {reg} + listed c (f.list c) := by
      rw [listed, SimpleFreeList.addReg, ← Multiset.coe_add, Multiset.coe_singleton, add_comm]
      rfl
    rw [longer, ← add_assoc] at moved
    exact add_right_cancel moved
  unfold addReg at added
  dsimp only at added
  split at added
  · cases added
    exact grows .int
  · split at added
    · cases added
      exact grows .float
    · split at added
      · cases added
        exact grows .cc
      · cases added

end UnifiedFreeList

namespace UnifiedRenameMap

variable {isa : Isa} {file : PhysRegFile} {m : UnifiedRenameMap} {c : PhysClass} {flat : Nat}
  {reg old : Nat}

/-- The physical registers of the architectural ones of a class. -/
def entries (isa : Isa) (c : PhysClass) (simple : SimpleRenameMap) : Multiset Nat :=
  simple.map.take (isa.numRegs c)

/-- The physical registers that architectural registers are mapped to. -/
def mapped (isa : Isa) (m : UnifiedRenameMap) : Multiset Nat :=
  held (entries isa) m.map

@[simp] theorem setMap_map (simple : SimpleRenameMap) :
    (m.setMap c simple).map = update m.map c simple := rfl

theorem mapped_set (reg : Nat) (inside : flat < isa.numRegs c)
    (entry : (m.map c).map[flat]? = some old) :
    (m.setMap c ((m.map c).setEntry flat reg)).mapped isa + {old} = m.mapped isa + {reg} := by
  obtain ⟨below, value⟩ := List.getElem?_eq_some_iff.mp entry
  -- The entries of the class differ in that one place.
  have length : flat < ((m.map c).map.take (isa.numRegs c)).length := by
    rw [List.length_take]
    exact Nat.lt_min.mpr ⟨inside, below⟩
  have kept : (old :: ((m.map c).map.take (isa.numRegs c)).eraseIdx flat).Perm
      ((m.map c).map.take (isa.numRegs c)) := by
    have perm := List.getElem_cons_eraseIdx_perm length
    rwa [List.getElem_take, value] at perm
  have changed := List.set_perm_cons_eraseIdx length reg
  have moved := held_update (entries isa) m.map c ((m.map c).setEntry flat reg)
  simp only [entries, SimpleRenameMap.setEntry, List.take_set] at moved
  rw [Multiset.coe_eq_coe.mpr changed, ← Multiset.coe_eq_coe.mpr kept, ← Multiset.cons_coe,
    ← Multiset.cons_coe, ← Multiset.singleton_add, ← Multiset.singleton_add, ← add_assoc,
    ← add_assoc] at moved
  exact add_right_cancel moved

theorem mem_mapped (inside : flat < isa.numRegs c) (entry : (m.map c).map[flat]? = some old) :
    old ∈ m.mapped isa := by
  apply mem_held (i := c)
  rw [entries, Multiset.mem_coe, List.mem_take_iff_getElem]
  obtain ⟨below, value⟩ := List.getElem?_eq_some_iff.mp entry
  exact ⟨flat, Nat.lt_min.mpr ⟨inside, below⟩, value⟩

theorem set_same (entry : (m.map c).map[flat]? = some old) :
    m.setMap c ((m.map c).setEntry flat old) = m := by
  obtain ⟨below, value⟩ := List.getElem?_eq_some_iff.mp entry
  have same : (m.map c).setEntry flat old = m.map c := by
    simp only [SimpleRenameMap.setEntry, ← value, List.set_getElem_self]
  simp only [setMap, same, update_eq_self]

theorem set_back (entry : (m.map c).map[flat]? = some old) :
    (m.setMap c ((m.map c).setEntry flat reg)).setMap c
      (((m.setMap c ((m.map c).setEntry flat reg)).map c).setEntry flat old) = m := by
  obtain ⟨below, value⟩ := List.getElem?_eq_some_iff.mp entry
  have same : ((m.map c).setEntry flat reg).setEntry flat old = m.map c := by
    simp only [SimpleRenameMap.setEntry, List.set_set, ← value, List.set_getElem_self]
  simp only [setMap, update_self, update_idem, same, update_eq_self]

end UnifiedRenameMap

namespace Isa

variable {isa : Isa} {c : PhysClass} {flat : Nat}

theorem regIdxToClass_base (inside : flat < isa.numRegs c) :
    isa.regIdxToClass (flat + isa.base (.phys c)) = .ok (.phys c, flat) := by
  have ints := isa.int_fits
  have floats := isa.float_fits
  have ccs := isa.cc_fits
  have miscs := isa.misc_fits
  cases c with
  | int =>
    have low : flat < isa.fpRegBase := by omega
    have known : flat < isa.maxRegIndex := by omega
    simp [regIdxToClass, base, low, known]
  | float =>
    have high : ¬flat + isa.fpRegBase < isa.fpRegBase := by omega
    have low : flat + isa.fpRegBase < isa.ccRegBase := by omega
    have known : flat + isa.fpRegBase < isa.maxRegIndex := by omega
    simp [regIdxToClass, base, high, low, known]
  | cc =>
    have high : ¬flat + isa.ccRegBase < isa.fpRegBase := by omega
    have higher : ¬flat + isa.ccRegBase < isa.ccRegBase := by omega
    have low : flat + isa.ccRegBase < isa.miscRegBase := by omega
    have known : flat + isa.ccRegBase < isa.maxRegIndex := by omega
    simp [regIdxToClass, base, high, higher, low, known]

end Isa

namespace RenameHistory

/-- Whether a renaming really changed a mapping. -/
def changed (hb : RenameHistory) : Bool :=
  decide (hb.newPhysReg ≠ hb.prevPhysReg)

/-- The maps before a renaming. -/
def restore (isa : Isa) (hb : RenameHistory) (m : UnifiedRenameMap) : UnifiedRenameMap :=
  if hb.changed then
    match isa.regIdxToClass hb.archReg with
    | .ok (.phys c, flat) => m.setMap c ((m.map c).setEntry flat hb.prevPhysReg)
    | _ => m
  else m

/-- The registers that renamings replaced and that nothing has freed yet. -/
def replaced (log : List RenameHistory) : Multiset Nat :=
  ((log.filter changed).map prevPhysReg : List Nat)

/-- The newest change of each register is in force, and the older ones were before it. -/
def Chained (isa : Isa) : List RenameHistory → UnifiedRenameMap → Prop
  | [], _ => True
  | hb :: log, m =>
    (hb.changed = true → ∃ c flat, flat < isa.numRegs c ∧
      hb.archReg = flat + isa.base (.phys c) ∧ (m.map c).map[flat]? = some hb.newPhysReg) ∧
    Chained isa log (hb.restore isa m)

variable {isa : Isa} {hb : RenameHistory} {m : UnifiedRenameMap} {log old : List RenameHistory}

theorem replaced_cons (hb : RenameHistory) (log : List RenameHistory) :
    replaced (hb :: log) = (if hb.changed then {hb.prevPhysReg} else 0) + replaced log := by
  cases changes : hb.changed <;> simp [replaced, changes]

theorem replaced_append (log old : List RenameHistory) :
    replaced (log ++ old) = replaced log + replaced old := by
  simp [replaced]

theorem Chained.front (chained : Chained isa (log ++ old) m) : Chained isa log m := by
  induction log generalizing m with
  | nil => trivial
  | cons hb log ih => exact ⟨chained.1, ih chained.2⟩

theorem restore_mapped (chained : Chained isa (hb :: log) m) :
    (hb.restore isa m).mapped isa + (if hb.changed then {hb.newPhysReg} else 0) =
      m.mapped isa + (if hb.changed then {hb.prevPhysReg} else 0) := by
  cases changes : hb.changed with
  | false => simp [restore, changes]
  | true =>
    obtain ⟨c, flat, inside, arch, entry⟩ := chained.1 changes
    simp only [restore, changes, if_true, arch, Isa.regIdxToClass_base inside]
    exact UnifiedRenameMap.mapped_set _ inside entry

end RenameHistory

namespace ThreadRename

variable {isa : Isa} {file : PhysRegFile} {inst : DynInst isa} {s t : ThreadRename}
  {hb : RenameHistory}

/-- The registers that a thread uses, and those that its newest renamings replaced. -/
def used (isa : Isa) (m : UnifiedRenameMap) (log : List RenameHistory) : Multiset Nat :=
  m.mapped isa + RenameHistory.replaced log

/-- The free registers with those that a thread uses. -/
def registers (isa : Isa) (s : ThreadRename) : Multiset Nat :=
  s.freeList.free + used isa s.renameMap s.historyBuffer

/-- What renaming one destination does: nothing to speak of, or it takes a free register. -/
inductive Renames (inst : DynInst isa) (s : ThreadRename) : RenameHistory → ThreadRename → Prop
  | kept {hb : RenameHistory} {t : ThreadRename} (number : hb.instSeqNum = inst.seqNum)
      (same : hb.changed = false) (frees : t.freeList = s.freeList)
      (maps : t.renameMap = s.renameMap) (logs : t.historyBuffer = hb :: s.historyBuffer) :
      Renames inst s hb t
  | taken {hb : RenameHistory} {t : ThreadRename} {c : PhysClass} {flat : Nat}
      {freeRegs : SimpleFreeList} (number : hb.instSeqNum = inst.seqNum)
      (inside : flat < isa.numRegs c) (arch : hb.archReg = flat + isa.base (.phys c))
      (entry : (s.renameMap.map c).map[flat]? = some hb.prevPhysReg)
      (first : s.freeList.list c = hb.newPhysReg :: freeRegs)
      (frees : t.freeList = s.freeList.setList c freeRegs)
      (maps : t.renameMap =
        s.renameMap.setMap c ((s.renameMap.map c).setEntry flat hb.newPhysReg))
      (logs : t.historyBuffer = hb :: s.historyBuffer) : Renames inst s hb t

namespace Renames

theorem number (renames : Renames inst s hb t) : hb.instSeqNum = inst.seqNum := by
  cases renames <;> assumption

theorem logs (renames : Renames inst s hb t) : t.historyBuffer = hb :: s.historyBuffer := by
  cases renames <;> assumption

theorem restore (renames : Renames inst s hb t) : hb.restore isa t.renameMap = s.renameMap := by
  cases renames with
  | kept number same frees maps logs =>
    simp only [RenameHistory.restore, same, Bool.false_eq_true, if_false, maps]
  | taken number inside arch entry first frees maps logs =>
    cases changes : hb.changed with
    | true =>
      simp only [RenameHistory.restore, changes, if_true, arch, Isa.regIdxToClass_base inside]
      rw [maps]
      exact UnifiedRenameMap.set_back entry
    | false =>
      -- The register taken was the one that it replaces, so nothing was changed.
      have same : hb.newPhysReg = hb.prevPhysReg := by simpa [RenameHistory.changed] using changes
      simp only [RenameHistory.restore, changes, Bool.false_eq_true, if_false]
      rw [maps, same]
      exact UnifiedRenameMap.set_same entry

theorem chained (renames : Renames inst s hb t)
    (chained : RenameHistory.Chained isa s.historyBuffer s.renameMap) :
    RenameHistory.Chained isa t.historyBuffer t.renameMap := by
  rw [renames.logs]
  refine ⟨fun changes => ?_, renames.restore ▸ chained⟩
  cases renames with
  | kept number same frees maps logs => simp [same] at changes
  | taken number inside arch entry first frees maps logs =>
    refine ⟨_, _, inside, arch, ?_⟩
    obtain ⟨below, -⟩ := List.getElem?_eq_some_iff.mp entry
    simp [maps, SimpleRenameMap.setEntry, below]

theorem registers (renames : Renames inst s hb t) (distinct : (s.registers isa).Nodup) :
    t.registers isa = s.registers isa := by
  cases renames with
  | kept number same frees maps logs =>
    simp [ThreadRename.registers, used, frees, maps, logs, RenameHistory.replaced_cons, same]
  | taken number inside arch entry first frees maps logs =>
    -- The register taken is free, so it is not the one that it replaces.
    have free : hb.newPhysReg ∈ s.freeList.free := by
      rw [← UnifiedFreeList.free_take first]
      simp
    have mapped := UnifiedRenameMap.mem_mapped inside entry
    have changes : hb.changed = true := by
      rw [RenameHistory.changed, decide_eq_true_iff]
      intro same
      have apart := (Multiset.nodup_add.mp distinct).2.2
      exact Multiset.disjoint_left.mp apart free
        (Multiset.mem_add.mpr (.inl (same ▸ mapped)))
    have exchanged := UnifiedRenameMap.mapped_set hb.newPhysReg inside entry
    have left := UnifiedFreeList.free_take first
    rw [ThreadRename.registers, ThreadRename.registers, used, used, frees, maps, logs,
      RenameHistory.replaced_cons, changes, if_pos rfl, ← left]
    calc (s.freeList.setList _ _).free + (UnifiedRenameMap.mapped isa _ +
          ({hb.prevPhysReg} + RenameHistory.replaced s.historyBuffer))
        = (s.freeList.setList _ _).free + (UnifiedRenameMap.mapped isa _ + {hb.prevPhysReg} +
          RenameHistory.replaced s.historyBuffer) := by rw [add_assoc (UnifiedRenameMap.mapped _ _)]
      _ = _ := by
        rw [exchanged]
        abel

end Renames

theorem renameDestReg_phys (s : ThreadRename) {dest_reg rel : Nat} {c : PhysClass}
    (classed : isa.regIdxToClass dest_reg = .ok (.phys c, rel)) :
    s.renameDestReg isa file inst dest_reg = (do
      let r ← s.renameMap.renameClass file c (inst.flatten c rel) s.freeList
      return { freeList := r.2.1, renameMap := r.1,
               historyBuffer := { instSeqNum := inst.seqNum,
                                  archReg := inst.flatten c rel + isa.base (.phys c),
                                  newPhysReg := r.2.2.1, prevPhysReg := r.2.2.2 } ::
                 s.historyBuffer }) := by
  rw [renameDestReg, classed]
  cases c <;> rfl

/-- Renaming a destination is one of the two. -/
theorem renameDestReg_ends (s : ThreadRename) {dest_reg : Nat}
    (member : dest_reg ∈ inst.destRegIdx) :
    Ends Any (s.renameDestReg isa file inst dest_reg) fun t => ∃ hb, Renames inst s hb t := by
  cases classed : isa.regIdxToClass dest_reg with
  | error e =>
    rw [renameDestReg, classed]
    trivial
  | ok found =>
    obtain ⟨cl, rel⟩ := found
    cases cl with
    | misc =>
      rw [renameDestReg, classed]
      exact ⟨_, .kept rfl (by simp [RenameHistory.changed, UnifiedRenameMap.renameMisc])
        rfl rfl rfl⟩
    | phys c =>
      have inside := inst.flatten_lt dest_reg member c rel classed
      rw [renameDestReg_phys s classed, ends_bind]
      unfold UnifiedRenameMap.renameClass
      rw [ends_bind]
      apply (SimpleRenameMap.rename_ends _ _ _).mono
      intro r renames
      cases renames with
      | kept reg =>
        dsimp only
        split
        · refine ⟨_, .kept rfl ?_ ?_ ?_ rfl⟩
          · simp [RenameHistory.changed]
          · simp [UnifiedFreeList.setList]
          · simp [UnifiedRenameMap.setMap]
        · trivial
      | taken entry first =>
        dsimp only
        split
        · exact ⟨_, .taken rfl inside rfl entry first rfl rfl rfl⟩
        · trivial

/-- What renaming all destinations of an instruction does to a thread. -/
structure Renamed (isa : Isa) (number : Nat) (s t : ThreadRename) : Prop where
  logs : ∃ recent, t.historyBuffer = recent ++ s.historyBuffer ∧
    (∀ hb ∈ recent, hb.instSeqNum = number) ∧
    undone (RenameHistory.restore isa) recent t.renameMap = s.renameMap
  chained : RenameHistory.Chained isa s.historyBuffer s.renameMap →
    RenameHistory.Chained isa t.historyBuffer t.renameMap
  registers : (s.registers isa).Nodup → t.registers isa = s.registers isa

theorem Renamed.refl (number : Nat) (s : ThreadRename) : Renamed isa number s s :=
  ⟨⟨[], rfl, by simp, rfl⟩, id, fun _ => rfl⟩

theorem Renamed.next {u : ThreadRename} (renamed : Renamed isa inst.seqNum s t)
    (renames : Renames inst t hb u) : Renamed isa inst.seqNum s u := by
  obtain ⟨recent, logs, numbered, undoes⟩ := renamed.logs
  refine ⟨⟨hb :: recent, ?_, ?_, ?_⟩, fun start => renames.chained (renamed.chained start), ?_⟩
  · rw [renames.logs, logs, List.cons_append]
  · intro entry member
    rcases List.mem_cons.mp member with rfl | earlier
    · exact renames.number
    · exact numbered entry earlier
  · rw [undone_cons, renames.restore, undoes]
  · intro distinct
    have same := renamed.registers distinct
    rw [renames.registers (same ▸ distinct), same]

theorem renameDestRegs_ends (s : ThreadRename) :
    Ends Any (s.renameDestRegs isa file inst) (Renamed isa inst.seqNum s) := by
  apply ends_foldlM_mem
  · intro t dest_reg member renamed
    apply (renameDestReg_ends t member).mono
    rintro u ⟨hb, renames⟩
    exact renamed.next renames
  · exact .refl _ s

theorem undo_ends (s : ThreadRename) (hb : RenameHistory)
    (place : hb.changed = true → ∃ c flat, flat < isa.numRegs c ∧
      hb.archReg = flat + isa.base (.phys c)) :
    Ends Any (s.undo isa file hb) fun t =>
      t.renameMap = hb.restore isa s.renameMap ∧
      t.freeList.free = s.freeList.free + if hb.changed then {hb.newPhysReg} else 0 := by
  unfold undo
  by_cases same : hb.newPhysReg = hb.prevPhysReg
  · have changes : hb.changed = false := by simp [RenameHistory.changed, same]
    simp [same, changes, RenameHistory.restore]
  · have changes : hb.changed = true := by simp [RenameHistory.changed, same]
    obtain ⟨c, flat, inside, arch⟩ := place changes
    have entry : s.renameMap.setEntry isa file hb.archReg hb.prevPhysReg =
        s.renameMap.setClassEntry file c flat hb.prevPhysReg := by
      rw [UnifiedRenameMap.setEntry, arch, Isa.regIdxToClass_base inside]
      cases c <;> rfl
    rw [if_pos same, entry, ends_bind]
    unfold UnifiedRenameMap.setClassEntry
    split
    · rw [ends_ok, ends_bind]
      cases added : s.freeList.addReg file hb.newPhysReg with
      | error e => trivial
      | ok f =>
        refine ⟨?_, ?_⟩
        · simp [RenameHistory.restore, changes, arch, Isa.regIdxToClass_base inside]
        · simpa [changes] using UnifiedFreeList.free_addReg added
    · trivial

/-- A squash undoes the changes that are newer, and forgets them. -/
theorem squashFrom_ends {seq : Nat} {log : List RenameHistory}
    (chained : RenameHistory.Chained isa log s.renameMap) :
    Ends Any (squashFrom isa file seq log s) fun t =>
      t.historyBuffer = older RenameHistory.instSeqNum seq log ∧
      t.renameMap = undone (RenameHistory.restore isa)
        (newer RenameHistory.instSeqNum seq log) s.renameMap ∧
      RenameHistory.Chained isa t.historyBuffer t.renameMap ∧
      t.registers isa = s.freeList.free + used isa s.renameMap log := by
  -- The induction follows the journal from its newest entry, which is undone first.
  induction log generalizing s with
  | nil => exact ⟨rfl, rfl, trivial, rfl⟩
  | cons hb log ih =>
    unfold squashFrom
    by_cases past : seq < hb.instSeqNum
    · rw [if_pos past, ends_bind]
      apply (undo_ends s hb fun changes => ?_).mono
      · rintro t ⟨maps, frees⟩
        apply (ih (maps ▸ chained.2)).mono
        rintro u ⟨logs, undoes, chained', registers⟩
        refine ⟨?_, ?_, chained', ?_⟩
        · simpa [older, past] using logs
        · simpa [newer, past, maps] using undoes
        · -- What the entry had replaced is mapped again, and what replaced it is free.
          rw [registers, frees, maps, used, used, RenameHistory.replaced_cons, add_assoc,
            ← add_assoc _ _ (RenameHistory.replaced log), add_comm (if hb.changed then _ else _),
            RenameHistory.restore_mapped chained]
          abel
      · obtain ⟨c, flat, inside, arch, -⟩ := chained.1 changes
        exact ⟨c, flat, inside, arch⟩
    · rw [if_neg past]
      refine ⟨?_, ?_, chained, rfl⟩
      · simp [older, past]
      · simp [newer, past]

/-- Committing frees what the oldest changes replaced, and forgets them. -/
theorem retireFrom_ends (isa : Isa) {seq : Nat} {log : List RenameHistory} :
    Ends Any (retireFrom file seq log.reverse s) fun t =>
      t.renameMap = s.renameMap ∧
      (∃ forgotten, log = t.historyBuffer ++ forgotten ∧
        ∀ hb ∈ forgotten, hb.instSeqNum ≤ seq) ∧
      t.registers isa = s.freeList.free + used isa s.renameMap log := by
  -- The induction follows the journal from its oldest entry, which is freed first.
  induction log using List.reverseRecOn generalizing s with
  | nil => exact ⟨rfl, ⟨[], by simp, by simp⟩, rfl⟩
  | append_singleton log hb ih =>
    rw [List.reverse_concat]
    unfold retireFrom
    by_cases done : hb.instSeqNum ≤ seq
    · rw [if_pos done, ends_bind]
      have freed : Ends Any (s.retire file hb) fun t => t.renameMap = s.renameMap ∧
          t.freeList.free = s.freeList.free + if hb.changed then {hb.prevPhysReg} else 0 := by
        unfold retire
        by_cases same : hb.newPhysReg = hb.prevPhysReg
        · simp [same, RenameHistory.changed]
        · rw [if_pos same, ends_bind]
          cases added : s.freeList.addReg file hb.prevPhysReg with
          | error e => trivial
          | ok f =>
            refine ⟨rfl, ?_⟩
            simpa [RenameHistory.changed, same] using UnifiedFreeList.free_addReg added
      apply freed.mono
      rintro t ⟨maps, frees⟩
      apply ih.mono
      rintro u ⟨maps', ⟨forgotten, logs, old⟩, registers⟩
      refine ⟨maps'.trans maps, ⟨forgotten ++ [hb], ?_, ?_⟩, ?_⟩
      · rw [← List.append_assoc, ← logs]
      · intro entry member
        rcases List.mem_append.mp member with earlier | last
        · exact old entry earlier
        · rw [List.mem_singleton.mp last]
          exact done
      · rw [registers, frees, maps, used, used, RenameHistory.replaced_append,
          RenameHistory.replaced_cons]
        simp only [RenameHistory.replaced, List.filter_nil, List.map_nil, Multiset.coe_nil]
        abel
    · rw [if_neg done]
      refine ⟨rfl, ⟨[], ?_, by simp⟩, ?_⟩
      · simp
      · simp [registers]

end ThreadRename

namespace DefaultRename

variable {threads : Nat} {isa : Isa} {s : DefaultRename threads} {tid : Fin threads}
  {own : ThreadRename}

/-- The registers that are mapped, by any thread. -/
def mapped (isa : Isa) (s : DefaultRename threads) : Multiset Nat :=
  ∑ tid, (s.renameMap tid).mapped isa

/-- The registers that changes in a history replaced, of any thread. -/
def replaced (s : DefaultRename threads) : Multiset Nat :=
  ∑ tid, RenameHistory.replaced (s.historyBuffer tid)

/-- The registers in all places, each as often as it is found. -/
def registers (isa : Isa) (s : DefaultRename threads) : Multiset Nat :=
  s.freeList.free + s.mapped isa + s.replaced

/-- What a thread uses of the registers. -/
def used (isa : Isa) (s : DefaultRename threads) (tid : Fin threads) : Multiset Nat :=
  ThreadRename.used isa (s.renameMap tid) (s.historyBuffer tid)

theorem registers_eq : s.registers isa = s.freeList.free + held (fun _ => id) (s.used isa) := by
  rw [registers, mapped, replaced, add_assoc, ← Finset.sum_add_distrib]
  rfl

theorem used_setThread : (s.setThread tid own).used isa =
    update (s.used isa) tid (ThreadRename.used isa own.renameMap own.historyBuffer) := by
  funext other
  by_cases same : other = tid
  · subst same
    simp [used, setThread]
  · simp [used, setThread, update_of_ne same]

theorem registers_setThread (even : own.registers isa = (s.thread tid).registers isa) :
    (s.setThread tid own).registers isa = s.registers isa := by
  rw [registers_eq, registers_eq, used_setThread]
  exact exchange even

theorem nodup_thread (distinct : (s.registers isa).Nodup) (tid : Fin threads) :
    ((s.thread tid).registers isa).Nodup := by
  rw [registers_eq] at distinct
  apply Multiset.nodup_of_le _ distinct
  apply add_le_add_right
  rw [held, ← Finset.add_sum_erase _ _ (Finset.mem_univ tid)]
  exact Multiset.le_add_right _ _

end DefaultRename

/-- The rename stage with a record of the maps that each instruction left. -/
structure RenameRun (threads : Nat) where
  stage : DefaultRename threads
  /-- The lowest number that the next instruction of each thread may have. -/
  nextSeqNum : Fin threads → Nat
  /-- The highest number up to which each thread was told to commit. -/
  committed : Fin threads → Nat
  /-- The maps after each instruction that was not squashed, the newest first. -/
  trail : Fin threads → List (Nat × UnifiedRenameMap)

/-- What may happen to the rename stage. -/
inductive RenameOp (isa : Isa) (threads : Nat)
  | rename (tid : Fin threads) (inst : DynInst isa)
  | commit (tid : Fin threads) (seqNum : Nat)
  | squash (tid : Fin threads) (seqNum : Nat)

namespace RenameRun

variable {threads : Nat} {isa : Isa} {file : PhysRegFile}

/-- A stage of which nothing was recorded yet. -/
def start (stage : DefaultRename threads) : RenameRun threads :=
  { stage, nextSeqNum := fun _ => 0, committed := fun _ => 0, trail := fun _ => [] }

/-- A thread has worked on the stage. -/
def resume (tid : Fin threads) (s : RenameRun threads) (own : ThreadRename) : RenameRun threads :=
  { s with stage := s.stage.setThread tid own }

/--
One step, unless it is not due or an assertion fails.

Instructions come in the order of their numbers, and what was committed is not squashed.
-/
def step (isa : Isa) (file : PhysRegFile) (s : RenameRun threads) :
    RenameOp isa threads → Option (RenameRun threads)
  | .rename tid inst =>
    if s.nextSeqNum tid ≤ inst.seqNum then
      ((s.stage.thread tid).renameDestRegs isa file inst).toOption.map fun own =>
        { s.resume tid own with
          nextSeqNum := update s.nextSeqNum tid (inst.seqNum + 1)
          trail := update s.trail tid
            ((inst.seqNum, own.renameMap) :: s.trail tid) }
    else none
  | .commit tid seqNum =>
    ((s.stage.thread tid).removeFromHistory file seqNum).toOption.map fun own =>
      { s.resume tid own with
        committed := update s.committed tid (max (s.committed tid) seqNum) }
  | .squash tid seqNum =>
    if s.committed tid ≤ seqNum then
      ((s.stage.thread tid).doSquash isa file seqNum).toOption.map fun own =>
        { s.resume tid own with
          trail := update s.trail tid (older Prod.fst seqNum (s.trail tid)) }
    else none

/-- What holds of one thread all along a run, of its history, its maps and its records. -/
structure Follows (isa : Isa) (first : UnifiedRenameMap) (nextSeqNum committed : Nat)
    (trail : List (Nat × UnifiedRenameMap)) (log : List RenameHistory) (m : UnifiedRenameMap) :
    Prop where
  chained : RenameHistory.Chained isa log m
  restores : Restores RenameHistory.instSeqNum (RenameHistory.restore isa) committed log m trail
    first
  numbered : ∀ hb ∈ log, hb.instSeqNum < nextSeqNum

/-- What holds of all threads in every state of a run. -/
structure Orderly (isa : Isa) (total : Multiset Nat) (first : Fin threads → UnifiedRenameMap)
    (s : RenameRun threads) : Prop where
  registers : s.stage.registers isa = total
  threads : ∀ tid, Follows isa (first tid) (s.nextSeqNum tid) (s.committed tid) (s.trail tid)
    (s.stage.historyBuffer tid) (s.stage.renameMap tid)

variable {total : Multiset Nat} {first : Fin threads → UnifiedRenameMap} {s t : RenameRun threads}
  {tid : Fin threads} {own : ThreadRename}

theorem Orderly.resume (orderly : s.Orderly isa total first)
    (even : own.registers isa = (s.stage.thread tid).registers isa)
    {nextSeqNum committed : Nat} {trail : List (Nat × UnifiedRenameMap)}
    (follows : Follows isa (first tid) nextSeqNum committed trail own.historyBuffer
      own.renameMap) :
    Orderly isa total first
      { stage := s.stage.setThread tid own
        nextSeqNum := update s.nextSeqNum tid nextSeqNum
        committed := update s.committed tid committed
        trail := update s.trail tid trail } := by
  constructor
  · rw [← orderly.registers]
    exact DefaultRename.registers_setThread even
  · intro other
    by_cases same : other = tid
    · subst same
      simpa [DefaultRename.setThread] using follows
    · simpa [DefaultRename.setThread, update_of_ne same] using orderly.threads other

/-- What a thread was not told is as it was. -/
theorem step_orderly (distinct : total.Nodup) (orderly : s.Orderly isa total first)
    {op : RenameOp isa threads} (taken : step isa file s op = some t) :
    t.Orderly isa total first := by
  cases op with
  | rename tid inst =>
    simp only [step] at taken
    split at taken
    case isTrue due =>
      cases ended : (s.stage.thread tid).renameDestRegs isa file inst with
      | error e => simp [ended, Except.toOption] at taken
      | ok own =>
        simp only [ended, Except.toOption, Option.map_some, Option.some.injEq] at taken
        have renamed := (ThreadRename.renameDestRegs_ends (s.stage.thread tid)).of_ok ended
        have follows := orderly.threads tid
        have even := renamed.registers
          (DefaultRename.nodup_thread (orderly.registers ▸ distinct) tid)
        -- The trail grows by the new map, and the new entries lead back to the one before.
        obtain ⟨recent, logs, numbered, undoes⟩ := renamed.logs
        have next : Follows isa (first tid) (inst.seqNum + 1) (s.committed tid)
            ((inst.seqNum, own.renameMap) :: s.trail tid) own.historyBuffer own.renameMap := by
          refine ⟨renamed.chained follows.chained, ?_, ?_⟩
          · rw [logs]
            apply follows.restores.push numbered
            · intro hb member
              have := follows.numbered hb member
              omega
            · exact undoes
          · intro hb member
            rw [logs] at member
            rcases List.mem_append.mp member with new | old
            · rw [numbered hb new]
              omega
            · have := follows.numbered hb old
              omega
        have result := orderly.resume even next
        rw [update_eq_self] at result
        exact taken ▸ result
    case isFalse => cases taken
  | commit tid seqNum =>
    simp only [step] at taken
    cases ended : (s.stage.thread tid).removeFromHistory file seqNum with
    | error e => simp [ended, Except.toOption] at taken
    | ok own =>
      simp only [ended, Except.toOption, Option.map_some, Option.some.injEq] at taken
      obtain ⟨maps, ⟨forgotten, logs, old⟩, even⟩ :=
        (ThreadRename.retireFrom_ends isa).of_ok ended
      have follows := orderly.threads tid
      -- Only the old end of the buffer is forgotten, and the map stays.
      have before : s.stage.historyBuffer tid = own.historyBuffer ++ forgotten := logs
      rw [before] at follows
      have next : Follows isa (first tid) (s.nextSeqNum tid) (max (s.committed tid) seqNum)
          (s.trail tid) own.historyBuffer own.renameMap := by
        refine ⟨?_, ?_, fun hb member => follows.numbered hb (by simp [member])⟩
        · rw [maps]
          exact follows.chained.front
        · rw [maps]
          exact follows.restores.forget old
      have result := orderly.resume even next
      rw [update_eq_self, update_eq_self] at result
      exact taken ▸ result
  | squash tid seqNum =>
    simp only [step] at taken
    split at taken
    case isTrue due =>
      cases ended : (s.stage.thread tid).doSquash isa file seqNum with
      | error e => simp [ended, Except.toOption] at taken
      | ok own =>
        simp only [ended, Except.toOption, Option.map_some, Option.some.injEq] at taken
        have follows := orderly.threads tid
        -- Undoing the young entries leads back to the map of the last older instruction.
        obtain ⟨logs, maps, chained, even⟩ :=
          (ThreadRename.squashFrom_ends follows.chained).of_ok ended
        have next : Follows isa (first tid) (s.nextSeqNum tid) (s.committed tid)
            (older Prod.fst seqNum (s.trail tid)) own.historyBuffer own.renameMap := by
          refine ⟨chained, ?_, ?_⟩
          · rw [logs, maps]
            exact follows.restores.rollback due
          · intro hb member
            rw [logs] at member
            exact follows.numbered hb ((List.dropWhile_sublist _).subset member)
        have result := orderly.resume even next
        rw [update_eq_self, update_eq_self] at result
        exact taken ▸ result
    case isFalse => cases taken

theorem start_orderly {stage : DefaultRename threads} (fresh : ∀ tid,
    stage.historyBuffer tid = []) :
    (start stage).Orderly isa (stage.registers isa) stage.renameMap := by
  refine ⟨rfl, fun tid => ?_⟩
  show Follows isa _ _ _ _ (stage.historyBuffer tid) _
  rw [fresh tid]
  exact ⟨trivial, restores_nil, by simp⟩

/--
In every state of a run each register that was free or mapped at first is in exactly one place,
and a squash leaves the maps of its thread as the last instruction that is not squashed left them.
-/
theorem registers_conserved {stage : DefaultRename threads} {ops : List (RenameOp isa threads)}
    (fresh : ∀ tid, stage.historyBuffer tid = []) (distinct : (stage.registers isa).Nodup)
    (ran : Machine.run (step isa file) (start stage) ops = some s) :
    (∀ reg ∈ stage.registers isa,
      s.stage.freeList.free.count reg + (s.stage.mapped isa).count reg +
        s.stage.replaced.count reg = 1) ∧
    ∀ tid seqNum t, step isa file s (.squash tid seqNum) = some t →
      t.stage.renameMap tid = stateAt seqNum (s.trail tid) (stage.renameMap tid) := by
  have orderly : s.Orderly isa (stage.registers isa) stage.renameMap :=
    Machine.run_preserves (fun _ _ _ orderly taken => step_orderly distinct orderly taken)
      (start_orderly fresh) ran
  constructor
  · intro reg member
    have one := Multiset.count_eq_one_of_mem distinct member
    rw [← orderly.registers] at one
    simpa [DefaultRename.registers] using one
  · intro tid seqNum t taken
    have follows := orderly.threads tid
    simp only [step] at taken
    split at taken
    case isTrue due =>
      cases ended : (s.stage.thread tid).doSquash isa file seqNum with
      | error e => simp [ended, Except.toOption] at taken
      | ok own =>
        simp only [ended, Except.toOption, Option.map_some, Option.some.injEq] at taken
        obtain ⟨-, maps, -⟩ := (ThreadRename.squashFrom_ends follows.chained).of_ok ended
        rw [← taken]
        show update s.stage.renameMap tid own.renameMap tid = _
        rw [update_self, maps]
        exact follows.restores seqNum due
    case isFalse => cases taken

/-- An instruction that writes one integer register twice. -/
def writesTwice : DynInst Isa.x86 where
  seqNum := 1
  destRegIdx := [1, 1]
  flatten _ reg := reg
  dest_lt := by decide
  flatten_lt dest_reg member c rel classed := by
    have ints : Isa.x86.regIdxToClass 1 = .ok (.phys .int, 1) := rfl
    have one : dest_reg = 1 := by simpa using member
    rw [one, ints] at classed
    cases classed
    decide

/-- The registers of a new processor are each in one place after it renamed and squashed. -/
theorem squashed_registers_conserved :
    ∃ (stage : DefaultRename 1) (s : RenameRun 1),
      DefaultRename.boot Isa.x86 (.create 40 58 5) = .ok stage ∧
      Machine.run (step Isa.x86 (.create 40 58 5)) (start stage)
        [.rename 0 writesTwice, .squash 0 0] = some s ∧
      ∀ reg ∈ stage.registers Isa.x86,
        s.stage.freeList.free.count reg + (s.stage.mapped Isa.x86).count reg +
          s.stage.replaced.count reg = 1 := by
  obtain ⟨stage, booted, fresh, distinct, ran⟩ := exists_ok
    (x := (DefaultRename.boot Isa.x86 (.create 40 58 5) : Except RenameFault (DefaultRename 1)))
    (p := fun stage => (∀ tid, stage.historyBuffer tid = []) ∧
      (stage.registers Isa.x86).Nodup ∧
      (Machine.run (step Isa.x86 (.create 40 58 5)) (start stage)
        [.rename 0 writesTwice, .squash 0 0]).isSome = true)
    (by decide +kernel)
  obtain ⟨s, reached⟩ := Option.isSome_iff_exists.mp ran
  exact ⟨stage, s, booted, reached, (registers_conserved fresh distinct reached).1⟩

end RenameRun

end GemDroid
