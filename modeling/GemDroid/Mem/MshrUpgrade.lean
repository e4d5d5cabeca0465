import GemDroid.Mem.MshrRun

/-! The conversions of upgrades in a register, and the targets they leave for a response. -/

namespace GemDroid

namespace MemCmd

/-- A store-conditional, failed or not. -/
def isStoreCond (cmd : MemCmd) : Bool :=
  cmd == .storeCondReq || cmd == .storeCondFailReq

/-- The weak upgrade of a store-conditional, failed or not. -/
def isSCUpgrade (cmd : MemCmd) : Bool :=
  cmd == .scUpgradeReq || cmd == .scUpgradeFailReq

/--
The shapes of a list of commands that a conversion handles consistently.

Either nothing in the list can fail a response, or all of it fails together.
-/
inductive Shape (cmds : List MemCmd) : Prop
  /-- No weak upgrade, and the first command is no store-conditional. -/
  | plain (none : ∀ c ∈ cmds, c.isSCUpgrade = false)
    (first : ∀ c, cmds.head? = some c → c.isStoreCond = false)
  | storeCond (all : ∀ c ∈ cmds, c.isStoreCond = true)
  | scUpgrade (all : ∀ c ∈ cmds, c = .scUpgradeReq)
  | scUpgradeFail (all : ∀ c ∈ cmds, c = .scUpgradeFailReq)

theorem replaceUpgrade_isStoreCond (cmd : MemCmd) :
    cmd.replaceUpgrade.isStoreCond = cmd.isStoreCond := by
  cases cmd <;> rfl

theorem replaceUpgrade_isSCUpgrade (cmd : MemCmd) :
    cmd.replaceUpgrade.isSCUpgrade = cmd.isSCUpgrade := by
  cases cmd <;> rfl

variable {cmds : List MemCmd}

theorem Shape.map_replaceUpgrade (shape : Shape cmds) :
    Shape (cmds.map replaceUpgrade) := by
  cases shape with
  | plain none first =>
    refine .plain ?_ ?_
    · intro c member
      obtain ⟨before, inside, rfl⟩ := List.mem_map.mp member
      rw [replaceUpgrade_isSCUpgrade]
      exact none before inside
    · intro c head
      rw [List.head?_map, Option.map_eq_some_iff] at head
      obtain ⟨before, first_before, rfl⟩ := head
      rw [replaceUpgrade_isStoreCond]
      exact first before first_before
  | storeCond all =>
    refine .storeCond fun c member => ?_
    obtain ⟨before, inside, rfl⟩ := List.mem_map.mp member
    rw [replaceUpgrade_isStoreCond]
    exact all before inside
  | scUpgrade all =>
    refine .scUpgradeFail fun c member => ?_
    obtain ⟨before, inside, rfl⟩ := List.mem_map.mp member
    rw [all before inside]
    rfl
  | scUpgradeFail all =>
    refine .scUpgradeFail fun c member => ?_
    obtain ⟨before, inside, rfl⟩ := List.mem_map.mp member
    rw [all before inside]
    rfl

theorem isStoreCond_of_isSCUpgrade {cmd : MemCmd} (weak : cmd.isSCUpgrade = true) :
    cmd.isStoreCond = false := by
  revert weak
  cases cmd <;> decide

theorem Shape.alike (shape : Shape cmds) {cmd : MemCmd} (weak : cmd.isSCUpgrade = true)
    (member : cmd ∈ cmds) : ∀ c ∈ cmds, c = cmd := by
  cases shape with
  | plain none first => simp [none cmd member] at weak
  | storeCond all =>
    have store := all cmd member
    simp [isStoreCond_of_isSCUpgrade weak] at store
  | scUpgrade all => exact fun c inside => (all c inside).trans (all cmd member).symm
  | scUpgradeFail all => exact fun c inside => (all c inside).trans (all cmd member).symm

/-- Whether a command may join a list behind its first command. -/
def joins (first : Option MemCmd) (cmd : MemCmd) : Bool :=
  match first with
  | some .storeCondReq | some .storeCondFailReq => cmd.isStoreCond
  | some .scUpgradeReq => cmd == .scUpgradeReq
  | some .scUpgradeFailReq => cmd == .scUpgradeFailReq
  | _ => true

theorem kind_of_joins {first cmd : MemCmd} (joining : joins (some first) cmd = true) :
    (first.isSCUpgrade = true → cmd.isSCUpgrade = true) ∧
      (first.isStoreCond = true → cmd.isStoreCond = true) := by
  constructor
  · intro kind
    simp only [isSCUpgrade, Bool.or_eq_true, beq_iff_eq] at kind
    rcases kind with rfl | rfl
    · simp only [joins, beq_iff_eq] at joining
      rw [joining]
      rfl
    · simp only [joins, beq_iff_eq] at joining
      rw [joining]
      rfl
  · intro kind
    simp only [isStoreCond, Bool.or_eq_true, beq_iff_eq] at kind
    rcases kind with rfl | rfl
    · exact joining
    · exact joining

/-- A command that may join, and is no weak upgrade among others, keeps the shape of a list. -/
theorem Shape.append (shape : Shape cmds) {cmd : MemCmd} (joining : joins cmds.head? cmd = true)
    (apart : cmd.isSCUpgrade = true → ∀ c ∈ cmds, c.isSCUpgrade = true) :
    Shape (cmds ++ [cmd]) := by
  cases cmds with
  | nil =>
    -- A single command has a shape of its own.
    cases kind : cmd.isSCUpgrade with
    | true =>
      simp only [isSCUpgrade, Bool.or_eq_true, beq_iff_eq] at kind
      rcases kind with rfl | rfl
      · exact .scUpgrade (by simp)
      · exact .scUpgradeFail (by simp)
    | false =>
      cases store : cmd.isStoreCond with
      | true => exact .storeCond (by simp [store])
      | false => exact .plain (by simp [kind]) (by simp [store])
  | cons first rest =>
    rw [List.head?_cons] at joining
    cases shape with
    | plain none head =>
      have weak : cmd.isSCUpgrade = false := by
        by_contra joined
        simp only [Bool.not_eq_false] at joined
        have also := apart joined first (by simp)
        rw [none first (by simp)] at also
        exact Bool.false_ne_true also
      refine .plain ?_ ?_
      · intro c member
        rcases List.mem_append.mp member with old | new
        · exact none c old
        · rw [List.mem_singleton.mp new]
          exact weak
      · simpa using head first rfl
    | storeCond all =>
      have store := (kind_of_joins joining).2 (all first (by simp))
      refine .storeCond fun c member => ?_
      rcases List.mem_append.mp member with old | new
      · exact all c old
      · rw [List.mem_singleton.mp new]
        exact store
    | scUpgrade all =>
      obtain rfl := all first (by simp)
      refine .scUpgrade fun c member => ?_
      rcases List.mem_append.mp member with old | new
      · exact all c old
      · rw [List.mem_singleton.mp new]
        simpa [joins] using joining
    | scUpgradeFail all =>
      obtain rfl := all first (by simp)
      refine .scUpgradeFail fun c member => ?_
      rcases List.mem_append.mp member with old | new
      · exact all c old
      · rw [List.mem_singleton.mp new]
        simpa [joins] using joining

end MemCmd

namespace TargetList

variable {targets : TargetList}

/-- The commands of the targets that are no snoops. -/
def cmds (targets : TargetList) : List MemCmd :=
  (targets.list.filter fun t => t.source != .fromSnoop).map fun t => t.pkt.cmd

theorem mem_cmds {cmd : MemCmd} :
    cmd ∈ targets.cmds ↔ ∃ t ∈ targets.list, t.source ≠ .fromSnoop ∧ t.pkt.cmd = cmd := by
  simp [cmds, and_assoc]

theorem cmds_add {source : Source} (own : source ≠ .fromSnoop) (pkt : Packet)
    (readyTime order : Nat) :
    (targets.add pkt readyTime order source).cmds = targets.cmds ++ [pkt.cmd] := by
  simp [cmds, add, List.filter_append, own]

theorem cmds_add_snoop (pkt : Packet) (readyTime order : Nat) :
    (targets.add pkt readyTime order .fromSnoop).cmds = targets.cmds := by
  simp [cmds, add, List.filter_append]

theorem FlagsOk.cmds_replaceUpgrades (ok : targets.FlagsOk) :
    targets.replaceUpgrades.cmds = targets.cmds.map MemCmd.replaceUpgrade := by
  unfold TargetList.replaceUpgrades
  split
  case isTrue =>
    simp only [cmds, List.filter_map, List.map_map]
    rfl
  case isFalse clear =>
    symm
    refine (List.map_congr_left fun c member => ?_).trans (List.map_id _)
    obtain ⟨t, inside, own, rfl⟩ := mem_cmds.mp member
    have nothing : t.pkt.cmd.convertible = false := by
      by_contra converts
      exact clear (ok.hasUpgrade t inside own (by simpa using converts))
    revert nothing
    cases t.pkt.cmd <;> decide

end TargetList

namespace MemCmd

/-- The commands that targets can have. -/
def known (cmd : MemCmd) : Bool :=
  cmd.isRequest && (cmd.isRead || cmd.isWrite || cmd.isUpgrade || cmd == .scUpgradeFailReq)

theorem known_of_onBus {cmd : MemCmd} (bus : cmd.onBus = true) :
    cmd.known = true ∧ cmd.failed = false := by
  revert bus
  cases cmd <;> decide

theorem replaceUpgrade_known {cmd : MemCmd} (is_known : cmd.known = true) :
    cmd.replaceUpgrade.known = true := by
  revert is_known
  cases cmd <;> decide

end MemCmd

namespace MshrSystem

variable {s t : MshrSystem}

/-- The command a target from the CPU side is added with. -/
def addedCmd (pkt : Packet) (s : MshrSystem) : MemCmd :=
  if s.mshr.defers pkt.cmd && s.mshr.postInvalidate then pkt.cmd.replaceUpgrade else pkt.cmd

/-- The list a target from the CPU side is added to. -/
def joinedList (pkt : Packet) (s : MshrSystem) : TargetList :=
  if s.mshr.defers pkt.cmd then s.mshr.deferredTargets else s.mshr.targets

/--
Conditional stores are kept apart from other targets.

Nothing else joins them in a list or is asked for by their weak upgrade, and no weak upgrade
that still waits is answered by a failure.
-/
def Apart (s : MshrSystem) : MshrEvent → Prop
  | .allocateTarget pkt _ =>
    MemCmd.joins (s.joinedList pkt).cmds.head? (s.addedCmd pkt) = true ∧
      (pkt.cmd = .scUpgradeReq →
        ∀ c ∈ s.mshr.targets.cmds ++ s.mshr.deferredTargets.cmds, c.isSCUpgrade = true)
  | .handleSnoop pkt _ =>
    -- A snooped weak upgrade that waits is not converted with the cache's own.
    s.mshr.precededBy pkt = true → pkt.cmd.needsExclusive = true →
      s.mshr.targets.hasUpgrade = true →
      ∀ t ∈ s.mshr.targets.list, t.source = .fromSnoop → t.pkt.cmd ≠ .scUpgradeReq
  | .getTimingPacket blkValid .. =>
    blkValid = true → s.mshr.targets.cmds.head? ≠ some .loadLockedReq
  | .prefetchSquashed _ =>
    ∀ c, s.mshr.targets.cmds.tail.head? = some c → c.isStoreCond = false
  | .recvTimingResp resp _ _ =>
    resp = .upgradeFailResp → .scUpgradeReq ∉ s.mshr.targets.cmds
  | _ => True

/-- What the register keeps while conditional stores are kept apart. -/
structure Sep (s : MshrSystem) : Prop where
  shape : MemCmd.Shape s.mshr.targets.cmds
  laterShape : MemCmd.Shape s.mshr.deferredTargets.cmds
  later : (∃ c ∈ s.mshr.deferredTargets.cmds, c.isSCUpgrade = true) →
    ∀ c ∈ s.mshr.targets.cmds, c.isSCUpgrade = true
  snoops : ∀ t ∈ s.mshr.targets.list, t.source = .fromSnoop → t.pkt.cmd ≠ .scUpgradeFailReq
  idle : s.mshr.inService = false →
    s.sent = none ∧ ∀ t ∈ s.mshr.targets.list, t.source ≠ .fromSnoop
  busy : s.mshr.inService = true → s.mshr.targets.cmds ≠ []
  /-- Only conditional stores lead to a weak upgrade. -/
  weak : ∀ sent, s.sent = some sent → sent.isSCUpgrade = true →
    ∀ c ∈ s.mshr.targets.cmds, c.isSCUpgrade = true ∨ c.isStoreCond = true
  /-- Weak upgrades share the fate of the one that was sent for them. -/
  fate : ∀ sent, s.sent = some sent → ∀ c, c.isSCUpgrade = true →
    (∀ c' ∈ s.mshr.targets.cmds, c' = c) → sent = c
  known : ∀ c ∈ s.mshr.targets.cmds ++ s.mshr.deferredTargets.cmds, c.known = true

@[simp] theorem cmds_empty : TargetList.empty.cmds = [] := rfl

theorem shape_nil : MemCmd.Shape [] :=
  .plain (by simp) (by simp)

theorem sep_of_none (targets : s.mshr.targets.list = []) (later : s.mshr.deferredTargets = .empty)
    (idle : s.mshr.inService = false) (sent : s.sent = none) : s.Sep := by
  have none : s.mshr.targets.cmds = [] := by simp [TargetList.cmds, targets]
  exact {
    shape := none ▸ shape_nil
    laterShape := later ▸ shape_nil
    later := by simp [none]
    snoops := by simp [targets]
    idle := fun _ => ⟨sent, by simp [targets]⟩
    busy := by simp [idle]
    weak := by simp [sent]
    fate := by simp [sent]
    known := by simp [none, later] }

theorem Sep.congr (sep : s.Sep) (mshr : t.mshr = s.mshr) (sent : t.sent = s.sent) : t.Sep := by
  refine ⟨?_, ?_, ?_, ?_, ?_, ?_, ?_, ?_, ?_⟩ <;> simp only [mshr, sent]
  · exact sep.shape
  · exact sep.laterShape
  · exact sep.later
  · exact sep.snoops
  · exact sep.idle
  · exact sep.busy
  · exact sep.weak
  · exact sep.fate
  · exact sep.known

theorem start_sep : start.Sep :=
  sep_of_none rfl rfl rfl rfl

open Outcome

/-- A fresh register has one target, of any kind. -/
theorem allocate_sep (inv : s.Inv) (sep : s.Sep) (free : s.allocated = false) {pkt : Packet}
    (bus : pkt.cmd.onBus = true) (addr : Addr) (size whenReady : Nat) :
    Ends AnyFault (s.perform (.allocate pkt addr size whenReady)) Sep := by
  obtain ⟨targets, later, idle⟩ := inv.free free
  have own : ∀ cmd : MemCmd, (if cmd = .hardPFReq then Source.fromPrefetcher else .fromCPU) ≠
      .fromSnoop := by
    intro cmd
    split <;> decide
  simp only [perform, Mshr.allocate, targets, later, ends_bind]
  split
  · trivial
  · have single : (TargetList.empty.add pkt whenReady s.order
        (if pkt.cmd = .hardPFReq then .fromPrefetcher else .fromCPU)).cmds = [pkt.cmd] := by
      rw [TargetList.cmds_add (own _)]
      rfl
    have shape : MemCmd.Shape [pkt.cmd] := shape_nil.append rfl (by simp)
    exact {
      shape := by simpa [record, single] using shape
      laterShape := shape_nil
      later := by simp [record]
      snoops := by
        intro t member source
        obtain rfl := List.mem_singleton.mp member
        exact absurd source (own _)
      idle := by
        intro _
        refine ⟨(sep.idle idle).1, fun t member => ?_⟩
        obtain rfl := List.mem_singleton.mp member
        exact own _
      busy := fun never => absurd never Bool.false_ne_true
      weak := by simp [record, (sep.idle idle).1]
      fate := by simp [record, (sep.idle idle).1]
      known := by simpa [record, single] using (MemCmd.known_of_onBus bus).1 }

/-- A target that may join keeps the lists apart. -/
theorem allocateTarget_sep (inv : s.Inv) (sep : s.Sep) {pkt : Packet} {whenReady : Nat}
    (bus : pkt.cmd.onBus = true) (apart : s.Apart (.allocateTarget pkt whenReady)) :
    Ends AnyFault (s.perform (.allocateTarget pkt whenReady)) Sep := by
  obtain ⟨joining, alone⟩ := apart
  have is_known := (MemCmd.known_of_onBus bus).1
  -- A packet on the bus is a weak upgrade only as the request itself.
  have weakly : pkt.cmd.isSCUpgrade = true → pkt.cmd = .scUpgradeReq := by
    revert bus
    cases pkt.cmd <;> decide
  simp only [perform, Mshr.allocateTarget, ends_bind]
  split
  · trivial
  split
  case isTrue defers =>
    have busy : s.mshr.inService = true := by
      simp only [Mshr.defers, Bool.and_eq_true] at defers
      exact defers.1
    simp only [joinedList, addedCmd, defers, if_true, Bool.true_and] at joining
    let cmd := if s.mshr.postInvalidate then pkt.cmd.replaceUpgrade else pkt.cmd
    have added : (if s.mshr.postInvalidate then pkt.replaceUpgrade else pkt).cmd = cmd := by
      simp only [cmd]
      split <;> rfl
    have kind : cmd.isSCUpgrade = pkt.cmd.isSCUpgrade := by
      simp only [cmd]
      split
      · exact MemCmd.replaceUpgrade_isSCUpgrade _
      · rfl
    have also_known : cmd.known = true := by
      simp only [cmd]
      split
      · exact MemCmd.replaceUpgrade_known is_known
      · exact is_known
    have grown : (s.mshr.deferredTargets.add
        (if s.mshr.postInvalidate then pkt.replaceUpgrade else pkt) whenReady s.order
          .fromCPU).cmds = s.mshr.deferredTargets.cmds ++ [cmd] := by
      rw [TargetList.cmds_add (by decide), added]
    have others : cmd.isSCUpgrade = true →
        ∀ c ∈ s.mshr.targets.cmds ++ s.mshr.deferredTargets.cmds, c.isSCUpgrade = true :=
      fun weak => alone (weakly (kind ▸ weak))
    exact {
      shape := sep.shape
      laterShape := by
        simp only [record, grown]
        refine sep.laterShape.append joining fun weak c member => ?_
        exact others weak c (List.mem_append_right _ member)
      later := by
        simp only [record, grown]
        rintro ⟨c, member, weak⟩
        rcases List.mem_append.mp member with old | new
        · exact sep.later ⟨c, old, weak⟩
        · rw [List.mem_singleton.mp new] at weak
          exact fun c' inside => others weak c' (List.mem_append_left _ inside)
      snoops := sep.snoops
      idle := fun never => absurd (busy.symm.trans never) Bool.noConfusion
      busy := sep.busy
      weak := sep.weak
      fate := sep.fate
      known := by
        simp only [record, grown]
        intro c member
        rw [← List.append_assoc] at member
        rcases List.mem_append.mp member with old | new
        · exact sep.known c old
        · rw [List.mem_singleton.mp new]
          exact also_known }
  case isFalse stays =>
    simp only [joinedList, addedCmd, stays, Bool.false_eq_true, if_false, Bool.false_and]
      at joining
    have grown : (s.mshr.targets.add pkt whenReady s.order .fromCPU).cmds =
        s.mshr.targets.cmds ++ [pkt.cmd] := TargetList.cmds_add (by decide) _ _ _
    have members : ∀ t ∈ (s.mshr.targets.add pkt whenReady s.order .fromCPU).list,
        t.source = .fromSnoop → t ∈ s.mshr.targets.list := by
      intro t member source
      rcases List.mem_append.mp member with old | new
      · exact old
      · rw [List.mem_singleton.mp new] at source
        exact absurd source Source.noConfusion
    exact {
      shape := by
        simp only [record, grown]
        refine sep.shape.append joining fun weak c member => ?_
        exact alone (weakly weak) c (List.mem_append_left _ member)
      laterShape := sep.laterShape
      later := by
        simp only [record, grown]
        intro deferred c member
        rcases List.mem_append.mp member with old | new
        · exact sep.later deferred c old
        · -- The lists hold weak upgrades, so the first present target lets nothing else in.
          rw [List.mem_singleton.mp new]
          have present := sep.later deferred
          have inService : s.mshr.inService = true := by
            obtain ⟨c', inside, -⟩ := deferred
            refine inv.deferred fun none => ?_
            simp [TargetList.cmds, none] at inside
          obtain ⟨first, rest, some⟩ := List.exists_cons_of_ne_nil (sep.busy inService)
          rw [some, List.head?_cons] at joining
          exact (MemCmd.kind_of_joins joining).1 (present first (by simp [some]))
      snoops := fun t member source => sep.snoops t (members t member source) source
      idle := by
        intro idle
        refine ⟨(sep.idle idle).1, fun t member source => ?_⟩
        exact (sep.idle idle).2 t (members t member source) source
      busy := by simp [record, grown]
      weak := by
        simp only [record, grown]
        intro sent was weakly_sent c member
        have conditional := sep.weak sent was weakly_sent
        rcases List.mem_append.mp member with old | new
        · exact conditional c old
        · rw [List.mem_singleton.mp new]
          have inService : s.mshr.inService = true := by
            by_contra idle
            simp [(sep.idle (by simpa using idle)).1] at was
          obtain ⟨first, rest, some⟩ := List.exists_cons_of_ne_nil (sep.busy inService)
          rw [some, List.head?_cons] at joining
          exact (conditional first (by simp [some])).imp (MemCmd.kind_of_joins joining).1
            (MemCmd.kind_of_joins joining).2
      fate := by
        simp only [record, grown]
        intro sent was c kind all
        exact sep.fate sent was c kind fun c' member => all c' (List.mem_append_left _ member)
      known := by
        simp only [record, grown]
        intro c member
        rcases List.mem_append.mp member with present | later
        · rcases List.mem_append.mp present with old | new
          · exact sep.known c (List.mem_append_left _ old)
          · rw [List.mem_singleton.mp new]
            exact is_known
        · exact sep.known c (List.mem_append_right _ later) }

theorem handleSnoop_mshr (pkt : Packet) (now : Nat) :
    (s.handleSnoop pkt now).mshr = (s.mshr.handleSnoop pkt now s.order).1 := by
  unfold handleSnoop
  dsimp only
  split <;> rfl

theorem handleSnoop_sent (pkt : Packet) (now : Nat) :
    (s.handleSnoop pkt now).sent = s.sentAfter pkt := by
  unfold handleSnoop
  dsimp only
  split <;> rfl

/-- A conversion of both lists, and of the request that waits below, keeps them apart. -/
theorem convert_sep (inv : s.Inv) (sep : s.Sep)
    (kept : s.mshr.targets.hasUpgrade = true →
      ∀ t ∈ s.mshr.targets.list, t.source = .fromSnoop → t.pkt.cmd ≠ .scUpgradeReq)
    (same : t.mshr = { s.mshr with
      targets := s.mshr.targets.replaceUpgrades
      deferredTargets := s.mshr.deferredTargets.replaceUpgrades })
    (sent : t.sent = s.sent.map MemCmd.replaceUpgrade) : t.Sep := by
  -- Each command is replaced by itself, so that what is said of pairs is said again.
  have present : t.mshr.targets.cmds = s.mshr.targets.cmds.map MemCmd.replaceUpgrade := by
    rw [same]
    exact inv.flags.cmds_replaceUpgrades
  have later : t.mshr.deferredTargets.cmds =
      s.mshr.deferredTargets.cmds.map MemCmd.replaceUpgrade := by
    rw [same]
    exact inv.deferredFlags.cmds_replaceUpgrades
  have service : t.mshr.inService = s.mshr.inService := by rw [same]
  have origin : ∀ target ∈ t.mshr.targets.list, target ∈ s.mshr.targets.list ∨
      (s.mshr.targets.hasUpgrade = true ∧
        ∃ before ∈ s.mshr.targets.list, target = before.replaceUpgrade) := by
    rw [same]
    simp only [TargetList.replaceUpgrades]
    intro target member
    split at member
    case isTrue flag =>
      obtain ⟨before, inside, rfl⟩ := List.mem_map.mp member
      exact .inr ⟨flag, before, inside, rfl⟩
    case isFalse => exact .inl member
  exact {
    shape := present ▸ sep.shape.map_replaceUpgrade
    laterShape := later ▸ sep.laterShape.map_replaceUpgrade
    later := by
      rw [later, present]
      rintro ⟨c, member, weak⟩ c' member'
      obtain ⟨before, inside, rfl⟩ := List.mem_map.mp member
      obtain ⟨before', inside', rfl⟩ := List.mem_map.mp member'
      rw [MemCmd.replaceUpgrade_isSCUpgrade] at weak ⊢
      exact sep.later ⟨before, inside, weak⟩ before' inside'
    snoops := by
      intro target member source failed
      rcases origin target member with old | ⟨flag, before, inside, rfl⟩
      · exact sep.snoops target old source failed
      · -- Only a weak upgrade becomes a failed one.
        have shapes : before.pkt.cmd = .scUpgradeReq ∨ before.pkt.cmd = .scUpgradeFailReq := by
          have converted : before.pkt.cmd.replaceUpgrade = .scUpgradeFailReq := failed
          revert converted
          cases before.pkt.cmd <;> decide
        rcases shapes with waiting | already
        · exact kept flag before inside source waiting
        · exact sep.snoops before inside source already
    idle := by
      rw [service, sent]
      intro idle
      refine ⟨by simp [(sep.idle idle).1], fun target member => ?_⟩
      rcases origin target member with old | ⟨-, before, inside, rfl⟩
      · exact (sep.idle idle).2 target old
      · exact (sep.idle idle).2 before inside
    busy := by
      rw [service, present]
      intro busy none
      exact sep.busy busy (List.map_eq_nil_iff.mp none)
    weak := by
      rw [sent, present]
      intro after was weakly c member
      obtain ⟨before, was_before, rfl⟩ := Option.map_eq_some_iff.mp was
      obtain ⟨c_before, inside, rfl⟩ := List.mem_map.mp member
      rw [MemCmd.replaceUpgrade_isSCUpgrade] at weakly ⊢
      rw [MemCmd.replaceUpgrade_isStoreCond]
      exact sep.weak before was_before weakly c_before inside
    fate := by
      rw [sent, present]
      intro after was c kind all
      obtain ⟨before, was_before, rfl⟩ := Option.map_eq_some_iff.mp was
      -- Something was sent, so the register is in service and has a first target.
      have inService : s.mshr.inService = true := by
        by_contra idle
        simp [(sep.idle (by simpa using idle)).1] at was_before
      obtain ⟨first, rest, some⟩ := List.exists_cons_of_ne_nil (sep.busy inService)
      have converted : first.replaceUpgrade = c := by
        refine all _ ?_
        rw [some]
        simp
      have weakly : first.isSCUpgrade = true := by
        rw [← MemCmd.replaceUpgrade_isSCUpgrade, converted]
        exact kind
      have alike : ∀ c' ∈ s.mshr.targets.cmds, c' = first :=
        sep.shape.alike weakly (by simp [some])
      rw [sep.fate before was_before first weakly alike, converted]
    known := by
      rw [present, later, ← List.map_append]
      intro c member
      obtain ⟨before, inside, rfl⟩ := List.mem_map.mp member
      exact MemCmd.replaceUpgrade_known (sep.known before inside) }

variable {now : Nat} {resp sent : MemCmd} {shared : Bool} {e : MshrEvent}

/-- A snoop keeps the lists apart. -/
theorem handleSnoop_sep (inv : s.Inv) (sep : s.Sep) {pkt : Packet} (bus : pkt.cmd.onBus = true)
    (apart : s.Apart (.handleSnoop pkt now)) :
    (s.handleSnoop pkt now).Sep := by
  have mshr := handleSnoop_mshr (s := s) pkt now
  have sent := handleSnoop_sent (s := s) pkt now
  cases preceded : s.mshr.precededBy pkt with
  | true =>
    cases exclusive : pkt.cmd.needsExclusive with
    | true =>
      -- The snoop comes before the request, whose upgrades are all converted.
      refine convert_sep inv sep (apart preceded exclusive) ?_ ?_
      · rw [mshr]
        simp [Mshr.handleSnoop, preceded, exclusive]
      · rw [sent]
        simp [sentAfter, preceded, exclusive]
    | false =>
      have same : (s.handleSnoop pkt now).mshr = s.mshr := by
        rw [mshr]
        simp [Mshr.handleSnoop, preceded, exclusive]
      have kept : (s.handleSnoop pkt now).sent = s.sent := by
        rw [sent]
        simp [sentAfter, exclusive]
      exact sep.congr same kept
  | false =>
    -- Only the deferred targets are converted, and the snoop may become a target.
    have kept : (s.handleSnoop pkt now).sent = s.sent := by
      rw [sent]
      simp [sentAfter, preceded]
    have inService : s.mshr.inService = true := by
      simp only [Mshr.precededBy, Bool.or_eq_false_iff, Bool.not_eq_false'] at preceded
      exact preceded.1
    obtain ⟨service, later, -⟩ := Mshr.handleSnoop_lists pkt now s.order s.mshr
    rw [← mshr] at service later
    have present : (s.handleSnoop pkt now).mshr.targets = s.mshr.targets ∨
        (s.handleSnoop pkt now).mshr.targets =
          s.mshr.targets.add pkt.clearFlags now s.order .fromSnoop := by
      rw [mshr]
      unfold Mshr.handleSnoop
      simp only [preceded, Bool.false_eq_true, if_false]
      split
      · exact .inl rfl
      · dsimp only
        split
        · exact .inr rfl
        · exact .inl rfl
    have presentCmds : (s.handleSnoop pkt now).mshr.targets.cmds = s.mshr.targets.cmds := by
      rcases present with same | added
      · rw [same]
      · rw [added, TargetList.cmds_add_snoop]
    have laterCmds :
        (s.handleSnoop pkt now).mshr.deferredTargets.cmds = s.mshr.deferredTargets.cmds ∨
        (s.handleSnoop pkt now).mshr.deferredTargets.cmds =
          s.mshr.deferredTargets.cmds.map MemCmd.replaceUpgrade := by
      rcases later with same | converted
      · exact .inl (by rw [same])
      · exact .inr (by rw [converted, inv.deferredFlags.cmds_replaceUpgrades])
    have laterKind : ∀ c ∈ (s.handleSnoop pkt now).mshr.deferredTargets.cmds,
        c.isSCUpgrade = true → ∃ c' ∈ s.mshr.deferredTargets.cmds, c'.isSCUpgrade = true := by
      intro c member weak
      rcases laterCmds with same | converted
      · exact ⟨c, same ▸ member, weak⟩
      · rw [converted] at member
        obtain ⟨before, inside, rfl⟩ := List.mem_map.mp member
        rw [MemCmd.replaceUpgrade_isSCUpgrade] at weak
        exact ⟨before, inside, weak⟩
    exact {
      shape := presentCmds ▸ sep.shape
      laterShape := by
        rcases laterCmds with same | converted
        · exact same ▸ sep.laterShape
        · exact converted ▸ sep.laterShape.map_replaceUpgrade
      later := by
        rintro ⟨c, member, weak⟩
        rw [presentCmds]
        exact sep.later (laterKind c member weak)
      snoops := by
        have fresh : pkt.cmd ≠ .scUpgradeFailReq := by
          intro failed
          rw [failed] at bus
          exact absurd bus (by decide)
        intro target member source
        rcases present with same | added
        · exact sep.snoops target (same ▸ member) source
        · rw [added] at member
          rcases List.mem_append.mp member with old | new
          · exact sep.snoops target old source
          · rw [List.mem_singleton.mp new]
            exact fresh
      idle := fun idle => absurd (service.trans inService) (by simp [idle])
      busy := fun _ => presentCmds ▸ sep.busy inService
      weak := by
        rw [kept, presentCmds]
        exact sep.weak
      fate := by
        rw [kept, presentCmds]
        exact sep.fate
      known := by
        rw [presentCmds]
        intro c member
        rcases List.mem_append.mp member with present | deferred
        · exact sep.known c (List.mem_append_left _ present)
        · rcases laterCmds with same | converted
          · exact sep.known c (List.mem_append_right _ (same ▸ deferred))
          · rw [converted] at deferred
            obtain ⟨before, inside, rfl⟩ := List.mem_map.mp deferred
            exact MemCmd.replaceUpgrade_known
              (sep.known before (List.mem_append_right _ inside)) }

theorem deallocate_sep (sent : s.sent = none) (served : s.mshr.targets.list = [])
    (later : s.mshr.deferredTargets = .empty) : Ends AnyFault s.deallocate Sep := by
  simp only [deallocate, Mshr.deallocate, served, later, ends_bind]
  exact sep_of_none (s := { s with allocated := false, mshr := { s.mshr with
    targets := s.mshr.targets.resetFlags, deferredTargets := .empty, inService := false } })
    served rfl rfl sent

theorem finish_sep (inv : s.Inv) (laterShape : MemCmd.Shape s.mshr.deferredTargets.cmds)
    (laterKnown : ∀ c ∈ s.mshr.deferredTargets.cmds, c.known = true) (sent : s.sent = none)
    (served : s.mshr.targets.list = []) (now : Nat) : Ends AnyFault (s.finish now) Sep := by
  by_cases none : s.mshr.deferredTargets.list = []
  · simp only [finish, promoteDeferredTargets_none served none]
    exact deallocate_sep sent served (inv.reset none)
  · obtain ⟨first, rest, some⟩ := List.exists_cons_of_ne_nil none
    simp only [finish, Mshr.promoteDeferredTargets, served, some, List.isEmpty_nil, Bool.not_true,
      Bool.false_eq_true, if_false, List.head?_cons, inv.deferred none, if_true, ends_ok]
    have nothing : s.mshr.targets.resetFlags.cmds = [] := by
      simp [TargetList.cmds, TargetList.resetFlags, served]
    exact {
      shape := laterShape
      laterShape := nothing ▸ shape_nil
      later := by simp [nothing]
      snoops := by
        intro t member source
        have cpu := inv.kinds.deferred t.id (List.mem_map_of_mem member)
        exact absurd (cpu.symm.trans source) Source.noConfusion
      idle := by
        refine fun _ => ⟨sent, fun t member source => ?_⟩
        have cpu := inv.kinds.deferred t.id (List.mem_map_of_mem member)
        exact absurd (cpu.symm.trans source) Source.noConfusion
      busy := fun never => absurd never Bool.false_ne_true
      weak := by simp [sent]
      fate := by simp [sent]
      known := by
        rw [nothing, List.append_nil]
        exact laterKnown }

theorem recvTimingResp_sep (inv : s.Inv) (sep : s.Sep) (taken : s.allocated = true)
    (resp : MemCmd) (shared : Bool) (now : Nat) :
    Ends AnyFault (s.recvTimingResp resp shared now) Sep := by
  have laterKnown : ∀ c ∈ s.mshr.deferredTargets.cmds, c.known = true :=
    fun c member => sep.known c (List.mem_append_right _ member)
  unfold recvTimingResp
  split
  · trivial
  · simp only [ends_bind]
    refine (filled_lists resp shared s.mshr).mono fun mshr handled => ?_
    have served : Ends AnyFault (mshr.targets.list.forM
        (serve (isFill resp s.mshr) resp mshr.postInvalidate)) fun _ => True := by
      cases mshr.targets.list.forM (serve (isFill resp s.mshr) resp mshr.postInvalidate) <;>
        trivial
    refine served.mono fun _ _ => ?_
    have drained := drained_inv inv taken handled none
    rcases handled with rfl | ⟨-, -, nothing⟩
    · exact finish_sep drained sep.laterShape laterKnown rfl rfl now
    · refine finish_sep drained ?_ ?_ rfl rfl now
      · simp only [MshrSystem.drained, nothing]
        exact shape_nil
      · simp [MshrSystem.drained, nothing]

/-- Sending a request that fits the targets keeps them apart. -/
theorem markInService_sep (inv : s.Inv) (sep : s.Sep) (idle : s.mshr.inService = false)
    (some : s.mshr.targets.list ≠ []) (shared memInhibit : Bool)
    (weak : sent.isSCUpgrade = true →
      ∀ c ∈ s.mshr.targets.cmds, c.isSCUpgrade = true ∨ c.isStoreCond = true)
    (fate : ∀ c, c.isSCUpgrade = true → (∀ c' ∈ s.mshr.targets.cmds, c' = c) → sent = c) :
    Ends AnyFault (s.markInService sent shared memInhibit) Sep := by
  obtain ⟨nothing, own⟩ := sep.idle idle
  have later : s.mshr.deferredTargets = .empty := by
    refine inv.reset ?_
    by_contra deferred
    simp [inv.deferred deferred] at idle
  have present : s.mshr.targets.cmds ≠ [] := by
    obtain ⟨first, rest, split⟩ := List.exists_cons_of_ne_nil some
    have mine := own first (by simp [split])
    simp [TargetList.cmds, split, mine]
  simp only [markInService, Mshr.markInService, idle, Bool.false_eq_true, if_false]
  split
  case isTrue done =>
    simp only [ends_bind, ends_ok, if_true]
    exact deallocate_sep nothing (popTarget_of_done later done) later
  case isFalse =>
    simp only [ends_bind, ends_ok, Bool.false_eq_true, if_false, ends_pure]
    exact {
      shape := sep.shape
      laterShape := sep.laterShape
      later := sep.later
      snoops := sep.snoops
      idle := fun never => absurd never (by simp)
      busy := fun _ => present
      weak := by
        intro c was
        obtain rfl := Option.some.inj was
        exact weak
      fate := by
        intro c was
        obtain rfl := Option.some.inj was
        exact fate
      known := sep.known }

theorem Sep.head_cmds (sep : s.Sep) (idle : s.mshr.inService = false) {target : Target}
    (first : s.mshr.targets.list.head? = some target) :
    s.mshr.targets.cmds.head? = some target.pkt.cmd ∧ s.mshr.targets.list ≠ [] := by
  obtain ⟨rest, split⟩ : ∃ rest, s.mshr.targets.list = target :: rest := by
    cases list : s.mshr.targets.list with
    | nil => simp [list] at first
    | cons head rest =>
      rw [list, List.head?_cons, Option.some.injEq] at first
      exact ⟨rest, by rw [first]⟩
  have own := (sep.idle idle).2 target (by simp [split])
  refine ⟨?_, by simp [split]⟩
  simp [TargetList.cmds, split, own]

/-- A register that is selected sends what fits its targets. -/
theorem getTimingPacket_sep (inv : s.Inv) (sep : s.Sep) (taken : s.allocated = true)
    (idle : s.mshr.inService = false) {blkValid accepted memInhibit : Bool}
    (apart : s.Apart (.getTimingPacket blkValid accepted shared memInhibit now)) :
    Ends AnyFault (s.getTimingPacket blkValid accepted shared memInhibit now) Sep := by
  unfold getTimingPacket
  split
  · trivial
  case h_2 target first =>
    obtain ⟨head, some⟩ := sep.head_cmds idle first
    have member : target.pkt.cmd ∈ s.mshr.targets.cmds := List.mem_of_mem_head? (by simp [head])
    have is_known := sep.known _ (List.mem_append_left _ member)
    dsimp only
    split
    · exact recvTimingResp_sep inv sep taken _ _ _
    case isFalse sound =>
      -- The shape of the list follows from its first command.
      have kinds : target.pkt.cmd.isSCUpgrade = true ∨ target.pkt.cmd.isStoreCond = true →
          ∀ c ∈ s.mshr.targets.cmds, c.isSCUpgrade = true ∨ c.isStoreCond = true := by
        intro conditional
        cases sep.shape with
        | plain none start =>
          simp [none _ member, start _ head] at conditional
        | storeCond all => exact fun c inside => .inr (all c inside)
        | scUpgrade all => exact fun c inside => .inl (by rw [all c inside]; rfl)
        | scUpgradeFail all => exact fun c inside => .inl (by rw [all c inside]; rfl)
      have alike : ∀ c, c.isSCUpgrade = true → (∀ c' ∈ s.mshr.targets.cmds, c' = c) →
          target.pkt.cmd = .scUpgradeReq ∧ c = .scUpgradeReq := by
        intro c weak all
        have same := all _ member
        have waiting : target.pkt.cmd = .scUpgradeReq := by
          rw [← same] at weak
          revert weak sound
          cases target.pkt.cmd <;> decide
        exact ⟨waiting, same.symm.trans waiting⟩
      -- What goes out for a weak upgrade is a weak upgrade, and for a plain target it is none.
      have sends : ∀ sent : MemCmd, (sent = target.pkt.cmd ∨ sent = .upgradeReq ∨
            sent = .readExReq ∨ sent = .readReq ∨
            (sent = .scUpgradeReq ∧ (target.pkt.cmd.isSCUpgrade = true ∨
              target.pkt.cmd.isStoreCond = true))) →
          (target.pkt.cmd = .scUpgradeReq → sent = .scUpgradeReq) →
          (sent.isSCUpgrade = true →
            ∀ c ∈ s.mshr.targets.cmds, c.isSCUpgrade = true ∨ c.isStoreCond = true) ∧
          ∀ c, c.isSCUpgrade = true → (∀ c' ∈ s.mshr.targets.cmds, c' = c) → sent = c := by
        intro sent choices upgrade
        refine ⟨fun weak => ?_, fun c weak all => ?_⟩
        · rcases choices with rfl | rfl | rfl | rfl | ⟨-, conditional⟩
          · exact kinds (.inl weak)
          · exact absurd weak (by decide)
          · exact absurd weak (by decide)
          · exact absurd weak (by decide)
          · exact kinds conditional
        · obtain ⟨waiting, rfl⟩ := alike c weak all
          exact upgrade waiting
      split
      · split
        · obtain ⟨weak, fate⟩ := sends target.pkt.cmd (.inl rfl) id
          exact markInService_sep inv sep idle some _ _ weak fate
        · exact sep
      · simp only [ends_bind]
        have bus : Ends AnyFault (target.pkt.cmd.busCmd target.pkt.req.isUncacheable blkValid
            s.mshr.targets.needsExclusive) fun bus =>
              (bus.getD target.pkt.cmd = target.pkt.cmd ∨
                bus.getD target.pkt.cmd = .upgradeReq ∨ bus.getD target.pkt.cmd = .readExReq ∨
                bus.getD target.pkt.cmd = .readReq ∨
                (bus.getD target.pkt.cmd = .scUpgradeReq ∧
                  (target.pkt.cmd.isSCUpgrade = true ∨ target.pkt.cmd.isStoreCond = true))) ∧
              (target.pkt.cmd = .scUpgradeReq → bus.getD target.pkt.cmd = .scUpgradeReq) := by
          unfold MemCmd.busCmd
          split
          · exact ⟨.inl rfl, id⟩
          · split
            · exact ⟨.inl rfl, id⟩
            · split
              · trivial
              case isFalse forwards _ =>
                split
                case isTrue valid =>
                  split
                  · have loads := apart valid
                    rw [head] at loads
                    have other : target.pkt.cmd ≠ .loadLockedReq :=
                      fun same => loads (by rw [same])
                    simp only [ends_ok, Option.getD_some]
                    revert is_known sound other
                    cases target.pkt.cmd <;> decide
                  · trivial
                case isFalse invalid =>
                  simp only [ends_ok, Option.getD_some]
                  have upgrade : target.pkt.cmd ≠ .scUpgradeReq := by
                    intro same
                    simp only [Bool.not_eq_true] at invalid
                    rw [same, invalid] at forwards
                    exact forwards rfl
                  refine ⟨?_, fun same => absurd same upgrade⟩
                  split <;> simp
        refine bus.mono fun bus sent => ?_
        obtain ⟨weak, fate⟩ := sends _ sent.1 sent.2
        let forwarded : MshrSystem := { s with mshr := { s.mshr with isForward := bus.isNone } }
        have invForwarded : forwarded.Inv :=
          ⟨inv.free, inv.deferred, inv.reset, inv.flags, inv.deferredFlags, inv.lined,
            ⟨inv.kinds.deferred, inv.kinds.overtaken⟩⟩
        have sepForwarded : forwarded.Sep :=
          ⟨sep.shape, sep.laterShape, sep.later, sep.snoops, sep.idle, sep.busy, sep.weak,
            sep.fate, sep.known⟩
        split
        · exact markInService_sep invForwarded sepForwarded idle some _ _ weak fate
        · exact sepForwarded

/-- A squashed prefetch leaves the targets behind it apart. -/
theorem forceDeallocateTarget_sep (inv : s.Inv) (sep : s.Sep) (idle : s.mshr.inService = false)
    (prefetch : s.mshr.targets.cmds.head? = some .hardPFReq)
    (apart : s.Apart (.prefetchSquashed now)) :
    Ends AnyFault (s.forceDeallocateTarget now) Sep := by
  have later : s.mshr.deferredTargets = .empty := by
    refine inv.reset ?_
    by_contra deferred
    simp [inv.deferred deferred] at idle
  obtain ⟨nothing, own⟩ := sep.idle idle
  have tail : s.mshr.popTarget.targets.cmds = s.mshr.targets.cmds.tail := by
    cases split : s.mshr.targets.list with
    | nil => simp [TargetList.cmds, Mshr.popTarget, split]
    | cons first rest =>
      have mine := own first (by simp [split])
      simp [TargetList.cmds, Mshr.popTarget, split, mine]
  have fewer : ∀ c ∈ s.mshr.popTarget.targets.cmds, c ∈ s.mshr.targets.cmds := by
    rw [tail]
    exact fun c member => List.mem_of_mem_tail member
  unfold forceDeallocateTarget
  split
  · trivial
  · dsimp only
    split
    case isTrue last =>
      have served : s.mshr.popTarget.targets.list = [] := List.isEmpty_iff.mp last
      have empty : s.mshr.popTarget.deferredTargets.list = [] := by
        simp [Mshr.popTarget, later, TargetList.empty]
      rw [promoteDeferredTargets_none served empty]
      exact deallocate_sep nothing served later
    case isFalse =>
      -- A list that begins with a prefetch is a plain one, and so is what is left of it.
      have plain : ∀ c ∈ s.mshr.targets.cmds, c.isSCUpgrade = false := by
        have first : MemCmd.hardPFReq ∈ s.mshr.targets.cmds := List.mem_of_mem_head? prefetch
        cases sep.shape with
        | plain none start => exact none
        | storeCond all => exact absurd (all _ first) (by decide)
        | scUpgrade all => exact absurd (all _ first) (by decide)
        | scUpgradeFail all => exact absurd (all _ first) (by decide)
      exact {
        shape := by
          refine .plain (fun c member => plain c (fewer c member)) ?_
          intro c head
          exact apart c (tail ▸ head)
        laterShape := sep.laterShape
        later := fun deferred c member => sep.later deferred c (fewer c member)
        snoops := fun t member => sep.snoops t (List.mem_of_mem_tail member)
        idle := fun _ => ⟨nothing, fun t member => own t (List.mem_of_mem_tail member)⟩
        busy := fun never => absurd (idle.symm.trans never) Bool.noConfusion
        weak := by simp [nothing]
        fate := by simp [nothing]
        known := by
          intro c member
          rcases List.mem_append.mp member with present | deferred
          · exact sep.known c (List.mem_append_left _ (fewer c present))
          · exact sep.known c (List.mem_append_right _ deferred) }

theorem Sep.head_prefetch (sep : s.Sep) (idle : s.mshr.inService = false)
    (prefetch : (s.mshr.targets.list.head?.any fun t => t.pkt.cmd == .hardPFReq) = true) :
    s.mshr.targets.cmds.head? = some .hardPFReq ∧ s.mshr.targets.list ≠ [] := by
  obtain ⟨target, first, is⟩ := (Option.any_eq_true _ _).mp prefetch
  obtain ⟨head, some⟩ := sep.head_cmds idle first
  exact ⟨by rw [head, beq_iff_eq.mp is], some⟩

/-- Every operation of a run that keeps conditional stores apart leaves them apart. -/
theorem step_sep (inv : s.Inv) (sep : s.Sep) (apart : s.Apart e)
    (stepped : s.step e = some t) : t.Sep := by
  unfold step at stepped
  split at stepped
  case isFalse => simp at stepped
  case isTrue on =>
    have ends : Ends AnyFault (s.perform e) Sep := by
      cases e with
      | allocate pkt addr size whenReady =>
        simp only [enabled, Bool.and_eq_true, Bool.not_eq_true'] at on
        exact allocate_sep inv sep on.1 on.2 _ _ _
      | allocateTarget pkt whenReady =>
        simp only [enabled, Bool.and_eq_true] at on
        exact allocateTarget_sep inv sep on.2 apart
      | handleSnoop pkt now =>
        simp only [enabled, Bool.and_eq_true] at on
        exact handleSnoop_sep inv sep on.2 apart
      | downstreamPending pending =>
        exact ⟨sep.shape, sep.laterShape, sep.later, sep.snoops, sep.idle, sep.busy, sep.weak,
          sep.fate, sep.known⟩
      | getTimingPacket blkValid accepted shared memInhibit now =>
        simp only [enabled, Bool.and_eq_true, Bool.not_eq_true'] at on
        exact getTimingPacket_sep inv sep on.1 on.2 apart
      | prefetchHit shared memInhibit =>
        simp only [enabled, Bool.and_eq_true, Bool.not_eq_true'] at on
        obtain ⟨head, some⟩ := sep.head_prefetch on.1.2 on.2
        refine markInService_sep inv sep on.1.2 some _ _ (fun never => ?_) fun c weak all => ?_
        · exact absurd never (by decide)
        · exact all _ (List.mem_of_mem_head? head)
      | prefetchSquashed now =>
        simp only [enabled, Bool.and_eq_true, Bool.not_eq_true'] at on
        exact forceDeallocateTarget_sep inv sep on.1.2 (sep.head_prefetch on.1.2 on.2).1 apart
      | recvTimingResp resp shared now =>
        simp only [enabled, Bool.and_eq_true] at on
        exact recvTimingResp_sep inv sep on.1.1 _ _ _
    cases performed : s.perform e with
    | error e => simp [performed, Except.toOption] at stepped
    | ok after =>
      simp only [performed, Except.toOption, Option.some.injEq] at stepped
      exact stepped ▸ ends.of_ok performed

/-- The response that an operation handles, and its shared flag. -/
def response (s : MshrSystem) : MshrEvent → Option (MemCmd × Bool)
  | .recvTimingResp resp shared _ => some (resp, shared)
  -- The register makes up the response to a conditional store that has failed.
  | .getTimingPacket .. =>
    if s.mshr.targets.list.head?.any fun t => t.pkt.cmd.failed then
      some (.upgradeFailResp, false)
    else none
  | _ => none

/--
The targets fit the response that is handled.

Only conditional stores are told that an upgrade failed, and none that has failed is there to be
satisfied by a fill.
-/
structure Consistent (s : MshrSystem) (e : MshrEvent) : Prop where
  failure : ∀ shared, s.response e = some (.upgradeFailResp, shared) →
    ∀ t ∈ s.mshr.targets.list, t.source = .fromCPU →
      t.pkt.cmd = .storeCondReq ∨ t.pkt.cmd = .storeCondFailReq ∨ t.pkt.cmd = .scUpgradeFailReq
  fill : ∀ resp shared mshr, s.response e = some (resp, shared) → isFill resp s.mshr = true →
    filled resp shared s.mshr = .ok mshr →
    ∀ t ∈ mshr.targets.list, t.pkt.cmd ≠ .scUpgradeFailReq
  noFault : s.perform e ≠ .error .failedUpgradeTarget ∧ s.perform e ≠ .error .notUpgrade

theorem answered_by_failure {cmd : MemCmd} (conditional : cmd.isSCUpgrade = true ∨
      cmd.isStoreCond = true) (waiting : cmd ≠ .scUpgradeReq) :
    cmd = .storeCondReq ∨ cmd = .storeCondFailReq ∨ cmd = .scUpgradeFailReq := by
  revert conditional waiting
  cases cmd <;> decide

theorem isSCUpgrade_of_answers
    (answered : sent.answers .upgradeFailResp = true) : sent.isSCUpgrade = true := by
  revert answered
  cases sent <;> decide

theorem not_fill_of_failed {mshr : Mshr}
    (answered : MemCmd.scUpgradeFailReq.answers resp = true) : isFill resp mshr = false := by
  have nothing : (resp.isRead || resp == .upgradeResp) = false := by
    revert answered
    cases resp <;> decide
  rw [isFill, nothing, Bool.and_false]

/-- A response to a failed upgrade finds only conditional stores among its targets. -/
theorem Sep.failure (sep : s.Sep) (on : s.enabled e = true) (apart : s.Apart e)
    (handles : s.response e = some (.upgradeFailResp, shared)) {c : MemCmd}
    (member : c ∈ s.mshr.targets.cmds) :
    c = .storeCondReq ∨ c = .storeCondFailReq ∨ c = .scUpgradeFailReq := by
  cases e with
  | recvTimingResp resp shared' now =>
    -- The request was a weak upgrade, so only conditional stores stand behind it.
    obtain ⟨rfl, -⟩ : resp = .upgradeFailResp ∧ shared' = shared := by
      simpa [response] using handles
    simp only [enabled, Bool.and_eq_true] at on
    obtain ⟨sent, was, answered⟩ := (Option.any_eq_true _ _).mp on.2
    have conditional := sep.weak sent was (isSCUpgrade_of_answers answered) c member
    refine answered_by_failure conditional fun waiting => ?_
    exact apart rfl (waiting ▸ member)
  | getTimingPacket blkValid accepted shared' memInhibit now =>
    -- The first target has failed, so all of them are of its kind.
    simp only [enabled, Bool.and_eq_true, Bool.not_eq_true'] at on
    simp only [response, Option.ite_none_right_eq_some] at handles
    obtain ⟨target, first, failed⟩ := (Option.any_eq_true _ _).mp handles.1
    obtain ⟨head, -⟩ := sep.head_cmds on.2 first
    have inside : target.pkt.cmd ∈ s.mshr.targets.cmds := List.mem_of_mem_head? head
    simp only [MemCmd.failed, Bool.or_eq_true, beq_iff_eq] at failed
    rcases failed with weak | store
    · rw [weak] at inside
      exact .inr (.inr (sep.shape.alike rfl inside c member))
    · rw [store] at inside head
      cases sep.shape with
      | plain none start => exact absurd (start _ head) (by decide)
      | storeCond all =>
        refine answered_by_failure (.inr (all c member)) fun waiting => ?_
        exact absurd (all c member) (by rw [waiting]; decide)
      | scUpgrade all => exact absurd (all _ inside) (by decide)
      | scUpgradeFail all => exact absurd (all _ inside) (by decide)
  | _ => simp [response] at handles

theorem filled_of_needsExclusive {mshr after : Mshr}
    (exclusive : mshr.targets.needsExclusive = true)
    (handled : filled resp shared mshr = .ok after) : after = mshr := by
  unfold filled Mshr.handleFill at handled
  simp only [exclusive, if_true] at handled
  split at handled
  · split at handled
    · exact absurd handled (by simp)
    · exact (Except.ok.inj handled).symm
  · exact (Except.ok.inj handled).symm

/-- The targets that a fill satisfies hold no failed upgrade. -/
theorem Sep.fill (inv : s.Inv) (sep : s.Sep) (busy : s.mshr.inService = true) {after : Mshr}
    (was : s.sent = some sent) (answered : sent.answers resp = true)
    (fill : isFill resp s.mshr = true) (handled : filled resp shared s.mshr = .ok after)
    {target : Target} (member : target ∈ after.targets.list) :
    target.pkt.cmd ≠ .scUpgradeFailReq := by
  intro failed
  have present : .scUpgradeFailReq ∉ s.mshr.targets.cmds := by
    intro inside
    have alike := sep.shape.alike rfl inside
    rw [sep.fate sent was _ rfl alike] at answered
    rw [not_fill_of_failed answered] at fill
    exact Bool.false_ne_true fill
  have old : ∀ t ∈ s.mshr.targets.list, t.pkt.cmd ≠ .scUpgradeFailReq := by
    intro t inside same
    by_cases own : t.source = .fromSnoop
    · exact sep.snoops t inside own same
    · exact present (TargetList.mem_cmds.mpr ⟨t, inside, own, same⟩)
  rcases (filled_lists resp shared s.mshr).of_ok handled with rfl | ⟨-, all, -⟩
  · exact old target member failed
  · rw [all] at member
    rcases List.mem_append.mp member with first | later
    · exact old target first failed
    · -- A failed upgrade is deferred behind weak upgrades, and those need an exclusive copy.
      have cpu : target.source = .fromCPU :=
        inv.kinds.deferred target.id (List.mem_map_of_mem later)
      have deferred : MemCmd.scUpgradeFailReq ∈ s.mshr.deferredTargets.cmds :=
        TargetList.mem_cmds.mpr ⟨target, later, by simp [cpu], failed⟩
      obtain ⟨c, rest, some⟩ := List.exists_cons_of_ne_nil (sep.busy busy)
      have weak := sep.later ⟨_, deferred, rfl⟩ c (by simp [some])
      obtain ⟨t, inside, own, rfl⟩ := TargetList.mem_cmds.mp (some ▸ List.mem_cons_self)
      have exclusive : s.mshr.targets.needsExclusive = true := by
        refine inv.flags.needsExclusive t inside own ?_
        revert weak
        cases t.pkt.cmd <;> decide
      rw [filled_of_needsExclusive exclusive handled] at all
      have nothing := List.self_eq_append_right.mp all
      simp [nothing] at later

/-- The two assertions that a target of the wrong kind fails. -/
def Mixed (fault : CacheFault) : Prop :=
  fault = .failedUpgradeTarget ∨ fault = .notUpgrade

theorem deallocate_unmixed : Ends (¬ Mixed ·) s.deallocate fun _ => True := by
  simp only [deallocate, Mshr.deallocate, ends_bind]
  repeat' split
  all_goals simp [Mixed]

theorem promoteDeferredTargets_unmixed {mshr : Mshr} {fault : CacheFault}
    (promoted : mshr.promoteDeferredTargets now = .error fault) : ¬ Mixed fault := by
  unfold Mshr.promoteDeferredTargets at promoted
  split at promoted
  · obtain rfl := Except.error.inj promoted
    simp [Mixed]
  · split at promoted <;> simp at promoted

theorem finish_unmixed (now : Nat) : Ends (¬ Mixed ·) (s.finish now) fun _ => True := by
  unfold finish
  cases promoted : s.mshr.promoteDeferredTargets now with
  | error e => exact promoteDeferredTargets_unmixed promoted
  | ok result =>
    obtain ⟨mshr, some | none⟩ := result
    · exact deallocate_unmixed
    · dsimp only
      split <;> simp [Mixed]

/-- A response whose targets fit it fails neither assertion. -/
theorem recvTimingResp_unmixed
    (fits : ∀ mshr, filled resp shared s.mshr = .ok mshr →
      ∀ t ∈ mshr.targets.list, t.source = .fromCPU →
        (isFill resp s.mshr = true →
          t.pkt.cmd.known = true ∧ t.pkt.cmd ≠ .scUpgradeFailReq) ∧
        (resp = .upgradeFailResp → t.pkt.cmd = .storeCondReq ∨ t.pkt.cmd = .storeCondFailReq ∨
          t.pkt.cmd = .scUpgradeFailReq)) :
    Ends (¬ Mixed ·) (s.recvTimingResp resp shared now) fun _ => True := by
  unfold recvTimingResp
  split
  · simp [Mixed]
  · simp only [ends_bind]
    have filling : Ends (¬ Mixed ·) (filled resp shared s.mshr) fun mshr =>
        filled resp shared s.mshr = .ok mshr := by
      cases handled : filled resp shared s.mshr with
      | ok mshr => rfl
      | error e =>
        unfold filled Mshr.handleFill at handled
        split at handled
        · split at handled
          · split at handled
            · obtain rfl := Except.error.inj handled
              simp [Mixed]
            · split at handled
              · obtain rfl := Except.error.inj handled
                simp [Mixed]
              · simp at handled
          · simp at handled
        · simp at handled
    refine filling.mono fun mshr handled => ?_
    have served : Ends (¬ Mixed ·) (mshr.targets.list.forM
        (serve (isFill resp s.mshr) resp mshr.postInvalidate)) fun _ => True := by
      refine ends_forM fun t member => ?_
      unfold serve
      dsimp only
      split
      case h_1 cpu =>
        obtain ⟨filled, failed⟩ := fits mshr handled t member cpu
        split
        case isTrue fill =>
          obtain ⟨is_known, other⟩ := filled fill
          revert is_known other
          cases t.pkt.cmd <;> simp +decide
        case isFalse =>
          split
          case isTrue failing =>
            rcases failed failing with same | same | same <;> simp [same]
          case isFalse => trivial
      · split <;> simp [Mixed]
      · split
        · simp [Mixed]
        · split <;> simp [Mixed]
    exact served.mono fun _ _ => finish_unmixed now

theorem markInService_unmixed (sent : MemCmd) (shared memInhibit : Bool) :
    Ends (¬ Mixed ·) (s.markInService sent shared memInhibit) fun _ => True := by
  simp only [markInService, Mshr.markInService, ends_bind]
  split
  · simp [Mixed]
  · split
    · exact deallocate_unmixed
    · trivial

/-- The targets of a response fit it, while conditional stores are kept apart. -/
theorem Sep.fits (inv : s.Inv) (sep : s.Sep) (on : s.enabled e = true) (apart : s.Apart e)
    (handles : s.response e = some (resp, shared)) {mshr : Mshr}
    (handled : filled resp shared s.mshr = .ok mshr) {target : Target}
    (member : target ∈ mshr.targets.list) :
    (isFill resp s.mshr = true → target.pkt.cmd ≠ .scUpgradeFailReq) ∧
      (target.source = .fromCPU → target.pkt.cmd.known = true) := by
  constructor
  · intro fill
    cases e with
    | recvTimingResp resp' shared' now =>
      obtain ⟨rfl, rfl⟩ : resp' = resp ∧ shared' = shared := by simpa [response] using handles
      simp only [enabled, Bool.and_eq_true] at on
      obtain ⟨sent, was, answered⟩ := (Option.any_eq_true _ _).mp on.2
      exact sep.fill inv on.1.2 was answered fill handled member
    | getTimingPacket blkValid accepted shared' memInhibit now =>
      -- The response that is made up is no fill.
      simp only [response, Option.ite_none_right_eq_some, Option.some.injEq, Prod.mk.injEq]
        at handles
      rw [← handles.2.1] at fill
      exact absurd fill (by simp +decide [isFill])
    | _ => simp [response] at handles
  · intro cpu
    have own : target.source ≠ .fromSnoop := by simp [cpu]
    refine sep.known _ (List.mem_append.mpr ?_)
    rcases (filled_lists resp shared s.mshr).of_ok handled with rfl | ⟨-, all, -⟩
    · exact .inl (TargetList.mem_cmds.mpr ⟨target, member, own, rfl⟩)
    · rw [all] at member
      exact (List.mem_append.mp member).imp
        (fun first => TargetList.mem_cmds.mpr ⟨target, first, own, rfl⟩)
        (fun later => TargetList.mem_cmds.mpr ⟨target, later, own, rfl⟩)

theorem Sep.recvTimingResp (inv : s.Inv) (sep : s.Sep) (on : s.enabled e = true) (apart : s.Apart e)
    (now : Nat) (handles : s.response e = some (resp, shared)) :
    Ends (¬ Mixed ·) (s.recvTimingResp resp shared now) fun _ => True := by
  refine recvTimingResp_unmixed fun mshr handled t member cpu => ?_
  obtain ⟨unfailed, is_known⟩ := sep.fits inv on apart handles handled member
  refine ⟨fun fill => ⟨is_known cpu, unfailed fill⟩, ?_⟩
  rintro rfl
  -- The response is no fill, so the targets are those that were there.
  have nothing : isFill .upgradeFailResp s.mshr = false := by simp +decide [isFill]
  simp only [filled, nothing, Bool.false_eq_true, if_false, Except.ok.injEq] at handled
  rw [← handled] at member
  exact sep.failure on apart handles (TargetList.mem_cmds.mpr ⟨t, member, by simp [cpu], rfl⟩)

/-- Every operation fails neither assertion while conditional stores are kept apart. -/
theorem Sep.unmixed (inv : s.Inv) (sep : s.Sep) (on : s.enabled e = true)
    (apart : s.Apart e) : Ends (¬ Mixed ·) (s.perform e) fun _ => True := by
  cases e with
  | allocate pkt addr size whenReady =>
    simp only [perform, Mshr.allocate, ends_bind]
    split <;> simp [Mixed]
  | allocateTarget pkt whenReady =>
    simp only [perform, Mshr.allocateTarget, ends_bind]
    repeat' split
    all_goals simp [Mixed]
  | handleSnoop pkt now => trivial
  | downstreamPending pending => trivial
  | getTimingPacket blkValid accepted shared memInhibit now =>
    simp only [perform, getTimingPacket]
    split
    · simp [Mixed]
    case h_2 target first =>
      split
      case isTrue failed =>
        exact sep.recvTimingResp inv on apart now (by simp [response, first, failed])
      case isFalse =>
        split
        · split
          · exact markInService_unmixed _ _ _
          · trivial
        · simp only [ends_bind, MemCmd.busCmd]
          repeat' split
          all_goals first | exact markInService_unmixed _ _ _ | simp [Mixed]
  | prefetchHit shared memInhibit => exact markInService_unmixed _ _ _
  | prefetchSquashed now =>
    simp only [perform, forceDeallocateTarget]
    split
    · simp [Mixed]
    · split
      · cases promoted : s.mshr.popTarget.promoteDeferredTargets now with
        | error e => exact promoteDeferredTargets_unmixed promoted
        | ok result =>
          obtain ⟨mshr, some | none⟩ := result
          · exact deallocate_unmixed
          · trivial
      · trivial
  | recvTimingResp resp shared now => exact sep.recvTimingResp inv on apart now rfl

/--
The conversions are handled consistently in every run that keeps conditional stores apart.

Nothing else joins a conditional store in a list, and a weak upgrade is sent and fails for
conditional stores only.
-/
theorem responses_fit_targets {events : List MshrEvent} {e : MshrEvent}
    (apart : Machine.Meets step Apart start events)
    (ran : Machine.run step start events = some s) (on : s.enabled e = true)
    (next : s.Apart e) : s.Consistent e := by
  obtain ⟨inv, sep⟩ : s.Inv ∧ s.Sep := by
    refine Machine.run_preserves_of_meets (I := fun s => s.Inv ∧ s.Sep) ?_
      ⟨start_inv, start_sep⟩ apart ran
    rintro before event after ⟨inv, sep⟩ permitted stepped
    exact ⟨step_inv inv stepped, step_sep inv sep permitted stepped⟩
  have unmixed := sep.unmixed inv on next
  exact {
    failure := fun shared handles t member cpu =>
      sep.failure on next handles (TargetList.mem_cmds.mpr ⟨t, member, by simp [cpu], rfl⟩)
    fill := fun resp shared mshr handles fill handled t member =>
      (sep.fits inv on next handles handled member).1 fill
    noFault := ⟨fun failed => unmixed.of_error failed (.inl rfl),
      fun failed => unmixed.of_error failed (.inr rfl)⟩ }

/-- Two conditional stores that wait when another cache takes the block away. -/
def snoopBeforeStores : List MshrEvent :=
  [.allocate (packetOf .storeCondReq) 0 64 0, .allocateTarget (packetOf .storeCondReq) 1,
    .handleSnoop (packetOf .readExReq) 2]

/-- Both conditional stores are told that they failed. -/
theorem stores_fail_together :
    ∃ s, Machine.run step start snoopBeforeStores = some s ∧
      s.response (.getTimingPacket false true false false 3) = some (.upgradeFailResp, false) ∧
      s.Consistent (.getTimingPacket false true false false 3) := by
  have replay : (Machine.run step start snoopBeforeStores).any (fun s =>
      s.enabled (.getTimingPacket false true false false 3) &&
        s.response (.getTimingPacket false true false false 3) ==
          some (.upgradeFailResp, false)) = true := by
    decide +kernel
  obtain ⟨s, ran, checked⟩ := (Option.any_eq_true _ _).mp replay
  simp only [Bool.and_eq_true, beq_iff_eq] at checked
  have apart : Machine.Meets step Apart start snoopBeforeStores := by
    intro first stepped
    refine ⟨trivial, ?_⟩
    obtain rfl := Option.some.inj stepped
    intro second stepped
    refine ⟨⟨rfl, by decide⟩, ?_⟩
    obtain rfl := Option.some.inj stepped
    intro third stepped
    exact ⟨fun _ _ _ => by decide +kernel, trivial⟩
  exact ⟨s, ran, checked.2, responses_fit_targets apart ran checked.1 (by simp [Apart])⟩

/-- A load joins a conditional store, and another cache takes the block away. -/
def loadBehindStore : List MshrEvent :=
  [.allocate (packetOf .storeCondReq) 0 64 0, .allocateTarget (packetOf .readReq) 1,
    .handleSnoop (packetOf .readExReq) 2]

/-- The fault of a computation that has one. -/
def faultOf {α : Type} : Except CacheFault α → Option CacheFault
  | .error fault => some fault
  | .ok _ => none

/-- The load is answered as a store that failed. -/
theorem load_answered_as_failed_store :
    ¬ ∀ events e s, Machine.run step start events = some s → s.enabled e = true →
      s.Consistent e := by
  intro always
  have replay : (Machine.run step start loadBehindStore).any (fun s =>
      s.enabled (.getTimingPacket false true false false 3) &&
        faultOf (s.perform (.getTimingPacket false true false false 3)) ==
          some .failedUpgradeTarget) = true := by
    decide +kernel
  obtain ⟨s, ran, checked⟩ := (Option.any_eq_true _ _).mp replay
  simp only [Bool.and_eq_true, beq_iff_eq] at checked
  refine (always _ _ s ran checked.1).noFault.1 ?_
  have failed := checked.2
  cases performed : s.perform (.getTimingPacket false true false false 3) with
  | ok t =>
    rw [performed] at failed
    cases failed
  | error fault =>
    rw [performed] at failed
    cases failed
    rfl

end MshrSystem

end GemDroid
