import Mathlib.Algebra.Order.Floor.Ring
import GemDroid.Dvfs.CoScale
import GemDroid.Dvfs.Memory

/-! When the turns of the governor end, and which indices they set. -/

namespace GemDroid

namespace DvfsPlatform

/-- The states of the core and the IPs are rows of their tables, and so are their optimal ones. -/
structure Tabulated (p : DvfsPlatform) : Prop where
  core : p.core.InRange
  coreOptimal : 0 ≤ p.core.optDVFSState
  ip : ∀ ip, (p.ip ip).InRange
  ipOptimal : ∀ ip, 0 ≤ (p.ip ip).optDVFSState

end DvfsPlatform

/-- A memory frequency of the grid of tenths that is not below the lowest one. -/
def OnGrid (mem : Rat) : Prop :=
  ∃ tenths, 3 ≤ tenths ∧ mem = DvfsPlatform.gridFreq tenths

theorem deviceNext_gridFreq {tenths : Nat} (above : 3 ≤ tenths) :
    deviceNext (DvfsPlatform.gridFreq tenths) =
      DvfsPlatform.gridFreq (if 3 < tenths then tenths - 1 else tenths) := by
  have lowest : minMemFreq = DvfsPlatform.gridFreq 3 := by
    norm_num [minMemFreq, DvfsPlatform.gridFreq]
  have lowers : epsilon < |DvfsPlatform.gridFreq tenths - minMemFreq| ↔ 3 < tenths := by
    rw [lowest, DvfsPlatform.epsilon_lt_iff above]
  by_cases more : 3 < tenths
  · obtain ⟨next, rfl⟩ : ∃ next, tenths = next + 1 := ⟨tenths - 1, by omega⟩
    rw [deviceNext, if_pos (lowers.mpr more), if_pos more, DvfsPlatform.gridFreq_pred,
      Nat.add_sub_cancel]
  · rw [deviceNext, if_neg (mt lowers.mp more), if_neg more]

theorem OnGrid.deviceNext {mem : Rat} (grid : OnGrid mem) : OnGrid (deviceNext mem) := by
  obtain ⟨tenths, above, rfl⟩ := grid
  refine ⟨_, ?_, deviceNext_gridFreq above⟩
  split <;> omega

/-- The number of tenths of a memory frequency. -/
def tenthsOf (mem : Rat) : Nat :=
  ⌊10 * mem⌋.toNat

@[simp] theorem tenthsOf_gridFreq (tenths : Nat) :
    tenthsOf (DvfsPlatform.gridFreq tenths) = tenths := by
  have whole : 10 * DvfsPlatform.gridFreq tenths = (tenths : Int) := by
    rw [DvfsPlatform.gridFreq]
    push_cast
    ring
  rw [tenthsOf, whole, Int.floor_intCast, Int.toNat_natCast]

theorem OnGrid.device_stops {mem : Rat} (grid : OnGrid mem) (bound : Rat)
    (memoryTime : Rat → Rat) :
    Walk.Stops GemDroid.deviceNext (deviceChange bound memoryTime) mem := by
  -- Each round that goes on lowers the memory by a tenth.
  refine Walk.stops_of_measure OnGrid tenthsOf (fun mem grid go => ⟨grid.deviceNext, ?_⟩) grid
  obtain ⟨tenths, above, rfl⟩ := grid
  have more : 3 < tenths := by
    by_contra last
    have lowest : tenths = 3 := by omega
    refine go (if_neg ?_)
    rw [lowest]
    norm_num [minMemFreq, DvfsPlatform.gridFreq, epsilon]
  rw [deviceNext_gridFreq above, if_pos more, tenthsOf_gridFreq, tenthsOf_gridFreq]
  omega

namespace CoScaleEstimates

variable {c : CoScaleEstimates} {bound : Rat} {pos : CoScaleFreqs}

/-- Some round of the search breaks out of the loop. -/
def Breaks (bound : Rat) (c : CoScaleEstimates) (pos : CoScaleFreqs) : Prop :=
  Walk.Stops c.next (c.change bound) pos

theorem next_index (c : CoScaleEstimates) (pos : CoScaleFreqs) :
    (c.next pos).index = if c.lowest < pos.index then pos.index - 1 else pos.index := by
  simp only [next, round, decide_eq_true_eq]

theorem next_mem (c : CoScaleEstimates) (pos : CoScaleFreqs) :
    (c.next pos).mem = deviceNext pos.mem := by
  simp only [next, round, decide_eq_true_eq, deviceNext]

theorem change_bottom (index : ¬c.lowest < pos.index)
    (mem : |deviceNext pos.mem - minMemFreq| < epsilon) : c.change bound pos = none := by
  unfold deviceNext at mem
  have bottom : (c.round pos).bottom = true := by
    simp only [round, index, decide_false, Bool.not_false, Bool.true_and, decide_eq_true_eq]
    exact mem
  simp only [change, choose, bottom, if_true]

theorem next_onGrid (grid : OnGrid pos.mem) : OnGrid (c.next pos).mem := by
  rw [next_mem]
  exact grid.deviceNext

theorem breaks_of_onGrid (grid : OnGrid pos.mem) : c.Breaks bound pos := by
  -- Each round that goes on lowers the memory by a tenth or the index by one.
  refine Walk.stops_of_measure (fun pos => OnGrid pos.mem)
    (fun pos => tenthsOf pos.mem + (pos.index - c.lowest).toNat)
    (fun pos grid go => ⟨next_onGrid grid, ?_⟩) grid
  obtain ⟨tenths, above, here⟩ := grid
  have index := c.next_index pos
  have mem := c.next_mem pos
  have lower := deviceNext_gridFreq above
  rw [here] at mem
  rw [mem, index, lower, here, tenthsOf_gridFreq, tenthsOf_gridFreq]
  by_cases more : 3 < tenths
  · rw [if_pos more]
    split <;> omega
  · rw [if_neg more] at lower ⊢
    have lowest : tenths = 3 := by omega
    -- With the memory at its lowest frequency the index can still be lowered.
    have higher : c.lowest < pos.index := by
      by_contra last
      refine go (change_bottom last ?_)
      rw [here, lower, lowest]
      norm_num [minMemFreq, DvfsPlatform.gridFreq, epsilon]
    rw [if_pos higher]
    omega

theorem change_index {change : CoScaleFreqs → CoScaleFreqs}
    (taken : c.change bound pos = some change) (found : CoScaleFreqs) :
    (change found).index =
      if c.choose bound pos = .index then (c.next pos).index else found.index := by
  unfold CoScaleEstimates.change at taken
  split at taken <;> cases taken <;> simp_all

theorem next_inside {states : Int} (low : 0 ≤ c.lowest)
    (inside : 0 ≤ pos.index ∧ pos.index < states) :
    0 ≤ (c.next pos).index ∧ (c.next pos).index < states := by
  rw [next_index]
  split <;> omega

variable {found result searched : CoScaleFreqs}

theorem walk_index_inside {states : Int} (low : 0 ≤ c.lowest) {fuel : Nat}
    (start : 0 ≤ pos.index ∧ pos.index < states) (first : 0 ≤ found.index ∧ found.index < states)
    (ended : Walk.walk c.next (c.change bound) fuel pos found = some (searched, result)) :
    0 ≤ result.index ∧ result.index < states := by
  refine Walk.walk_keeps (fun pos => 0 ≤ pos.index ∧ pos.index < states)
    (fun found => 0 ≤ found.index ∧ found.index < states)
    (fun pos inside => next_inside low inside) ?_ start first ended
  intro pos change inside taken found holds
  rw [change_index taken]
  split
  · exact next_inside low inside
  · exact holds

end CoScaleEstimates

namespace CoScale

variable {env : CoScaleEnv} {fuel fuel' : Nat} {s t : CoScale} {ip : IpType}

/-- The longest time of a search for a component (`min_time * getSweepVal1()`). -/
def bound (env : CoScaleEnv) (c : CoScaleEstimates) : Rat :=
  c.minTime * env.sweepVal1

/--
The index set is not lower than the current one for a late component.

For others it is not lower than the optimal one unless the current index is.
-/
def IndexRight (late : Bool) (optimal current set : Int) : Prop :=
  if late then current ≤ set else optimal ≤ set ∨ current < optimal

/-- A turn leaves the core or the accelerator with the right index. -/
def TurnRight (env : CoScaleEnv) (ip : IpType) (s t : CoScale) : Prop :=
  if ip = .cpu then
    IndexRight (late env s.p .cpu s.p.cpuMinTime) s.p.core.optDVFSState s.p.core.dvfsState
      t.p.core.dvfsState
  else if IpType.vd.code ≤ ip.code then
    IndexRight (late env s.p ip (s.p.ipMinTime ip)) (s.p.ip ip).optDVFSState
      (s.p.ip ip).dvfsState (t.p.ip ip).dvfsState
  else True

/-- With this fuel every turn ends and leaves its component with the right index. -/
def TurnsRight (fuel : Nat) (env : CoScaleEnv) : List IpType → CoScale → Prop
  | [], _ => True
  | ip :: ips, s =>
    ∃ t, s.turn fuel env ip = .ok t ∧ s.TurnRight env ip t ∧ TurnsRight fuel env ips t

/-- The turn of a component is not passed over: it was measured and is active. -/
def Takes (env : CoScaleEnv) (ip : IpType) (s : CoScale) : Prop :=
  0 < s.p.lastTimeTook ip ∧ if ip = .cpu then env.coreActive = true else env.ipActive ip = true

/-- What holds of the variables between two turns. -/
structure Inv (s : CoScale) : Prop where
  tabulated : s.p.Tabulated
  cpuFreq : s.cpuFreq = s.p.core.dvfsState
  cpu : 0 ≤ s.cpu ∧ s.cpu < coreDvfsStates

/-- The variables after the turn of the core. -/
def afterCpu (searched found : CoScaleFreqs) (s : CoScale) : CoScale :=
  { s.setMem searched.mem found.mem with
    p := { s.p with core := { s.p.core with dvfsState := found.index } }
    cpu := searched.index
    cpuFreq := found.index }

/-- The variables after the turn of an accelerator. -/
def afterIp (ip : IpType) (searched found : CoScaleFreqs) (s : CoScale) : CoScale :=
  { s.setMem searched.mem found.mem with
    p := { s.p with ip := Function.update s.p.ip ip { s.p.ip ip with dvfsState := found.index } } }

theorem cpuSearch_late (lateness : late env s.p .cpu s.p.cpuMinTime = true) (fuel : Nat) :
    s.cpuSearch fuel env = some (⟨s.mem, s.cpu⟩, ⟨raisedMem s.memFreq,
      if s.cpuFreq < coreDvfsStates - 1 then s.cpuFreq + 1 else s.cpuFreq⟩) :=
  if_pos lateness

theorem cpuSearch_early (early : late env s.p .cpu s.p.cpuMinTime = false) (fuel : Nat) :
    s.cpuSearch fuel env = Walk.walk s.p.cpuEstimates.next
      (s.p.cpuEstimates.change (bound env s.p.cpuEstimates)) fuel ⟨s.mem, s.cpu⟩
      ⟨s.memFreq, s.cpuFreq⟩ :=
  if_neg (ne_true_of_eq_false early)

theorem ipSearch_late (lateness : late env s.p ip (s.p.ipMinTime ip) = true) (fuel : Nat) :
    s.ipSearch fuel env ip =
      some (⟨s.mem, (s.p.ip ip).dvfsState⟩, ⟨raisedMem s.memFreq, 1⟩) :=
  if_pos lateness

theorem ipSearch_early (early : late env s.p ip (s.p.ipMinTime ip) = false) (fuel : Nat) :
    s.ipSearch fuel env ip = Walk.walk (s.p.ipEstimates ip).next
      ((s.p.ipEstimates ip).change (bound env (s.p.ipEstimates ip))) fuel
      ⟨s.mem, (s.p.ip ip).dvfsState⟩ ⟨s.memFreq, 0⟩ :=
  if_neg (ne_true_of_eq_false early)

theorem devSearch_late (lateness : late env s.p ip (s.p.devMinTime ip) = true) (fuel : Nat) :
    s.devSearch fuel env ip = some (s.mem, raisedMem s.memFreq) :=
  if_pos lateness

theorem devSearch_early (early : late env s.p ip (s.p.devMinTime ip) = false) (fuel : Nat) :
    s.devSearch fuel env ip = Walk.walk deviceNext
      (deviceChange (s.p.devMinTime ip * env.sweepVal1) fun mem =>
        s.p.memScaledTime ip (getMaxBandwidth mem) (s.p.ip ip).dvfsState) fuel s.mem s.memFreq :=
  if_neg (ne_true_of_eq_false early)

theorem cpuSearch_mono (le : fuel ≤ fuel') {result : CoScaleFreqs × CoScaleFreqs}
    (ended : s.cpuSearch fuel env = some result) : s.cpuSearch fuel' env = some result := by
  cases lateness : late env s.p .cpu s.p.cpuMinTime with
  | true => rwa [cpuSearch_late lateness] at ended ⊢
  | false =>
    rw [cpuSearch_early lateness] at ended ⊢
    exact Walk.walk_mono le ended

theorem ipSearch_mono (le : fuel ≤ fuel') {result : CoScaleFreqs × CoScaleFreqs}
    (ended : s.ipSearch fuel env ip = some result) : s.ipSearch fuel' env ip = some result := by
  cases lateness : late env s.p ip (s.p.ipMinTime ip) with
  | true => rwa [ipSearch_late lateness] at ended ⊢
  | false =>
    rw [ipSearch_early lateness] at ended ⊢
    exact Walk.walk_mono le ended

theorem devSearch_mono (le : fuel ≤ fuel') {result : Rat × Rat}
    (ended : s.devSearch fuel env ip = some result) : s.devSearch fuel' env ip = some result := by
  cases lateness : late env s.p ip (s.p.devMinTime ip) with
  | true => rwa [devSearch_late lateness] at ended ⊢
  | false =>
    rw [devSearch_early lateness] at ended ⊢
    exact Walk.walk_mono le ended

theorem Inv.cpuSearch_inside (inv : s.Inv) {searched found : CoScaleFreqs}
    (ended : s.cpuSearch fuel env = some (searched, found)) :
    (0 ≤ searched.index ∧ searched.index < coreDvfsStates) ∧
      0 ≤ found.index ∧ found.index < coreDvfsStates := by
  have core := inv.tabulated.core
  have cpuFreq := inv.cpuFreq
  unfold CoreDvfs.InRange at core
  cases lateness : late env s.p .cpu s.p.cpuMinTime with
  | true =>
    rw [cpuSearch_late lateness] at ended
    cases ended
    refine ⟨inv.cpu, ?_⟩
    dsimp only
    split <;> omega
  | false =>
    rw [cpuSearch_early lateness] at ended
    exact ⟨Walk.walk_inside (fun pos => 0 ≤ pos.index ∧ pos.index < coreDvfsStates)
      (fun pos inside => CoScaleEstimates.next_inside inv.tabulated.coreOptimal inside) inv.cpu
      ended, CoScaleEstimates.walk_index_inside inv.tabulated.coreOptimal inv.cpu
      (by dsimp only; omega) ended⟩

theorem Inv.ipSearch_inside (inv : s.Inv) {searched found : CoScaleFreqs}
    (ended : s.ipSearch fuel env ip = some (searched, found)) :
    0 ≤ found.index ∧ found.index < ipDvfsStates := by
  cases lateness : late env s.p ip (s.p.ipMinTime ip) with
  | true =>
    rw [ipSearch_late lateness] at ended
    cases ended
    simp [ipDvfsStates]
  | false =>
    rw [ipSearch_early lateness] at ended
    refine CoScaleEstimates.walk_index_inside (inv.tabulated.ipOptimal ip) ?_ ?_ ended
    · exact inv.tabulated.ip ip
    · simp [ipDvfsStates]

theorem Inv.cpuTurn_ok (inv : s.Inv) :
    s.cpuTurn fuel env = .ok t ↔
      ∃ searched found, s.cpuSearch fuel env = some (searched, found) ∧
        t = s.afterCpu searched found := by
  unfold cpuTurn
  cases ended : s.cpuSearch fuel env with
  | none => simp only [reduceCtorEq, false_and, exists_false]
  | some result =>
    obtain ⟨searched, found⟩ := result
    have inside := (inv.cpuSearch_inside ended).2
    have assertion : -1 < found.index ∧ found.index < coreDvfsStates := by omega
    simp only [DvfsPlatform.setCoreFreqInd, if_pos assertion, bind, Except.bind, pure, Except.pure,
      Except.ok.injEq, Option.some.injEq, Prod.mk.injEq]
    constructor
    · rintro rfl
      exact ⟨searched, found, ⟨rfl, rfl⟩, rfl⟩
    · rintro ⟨_, _, ⟨rfl, rfl⟩, rfl⟩
      rfl

theorem Inv.ipTurn_ok (inv : s.Inv) :
    s.ipTurn fuel env ip = .ok t ↔
      ∃ searched found, s.ipSearch fuel env ip = some (searched, found) ∧
        t = s.afterIp ip searched found := by
  unfold ipTurn
  cases ended : s.ipSearch fuel env ip with
  | none => simp only [reduceCtorEq, false_and, exists_false]
  | some result =>
    obtain ⟨searched, found⟩ := result
    have inside := inv.ipSearch_inside ended
    have assertion : -1 < found.index ∧ found.index < ipDvfsStates := by omega
    simp only [DvfsPlatform.setIPFreqInd, if_pos assertion, bind, Except.bind, pure, Except.pure,
      Except.ok.injEq, Option.some.injEq, Prod.mk.injEq]
    constructor
    · rintro rfl
      exact ⟨searched, found, ⟨rfl, rfl⟩, rfl⟩
    · rintro ⟨_, _, ⟨rfl, rfl⟩, rfl⟩
      rfl

theorem devTurn_ok :
    s.devTurn fuel env ip = .ok t ↔
      ∃ mem memFreq, s.devSearch fuel env ip = some (mem, memFreq) ∧ t = s.setMem mem memFreq := by
  unfold devTurn
  cases ended : s.devSearch fuel env ip with
  | none => simp only [reduceCtorEq, false_and, exists_false]
  | some result =>
    obtain ⟨mem, memFreq⟩ := result
    simp only [Except.ok.injEq, Option.some.injEq, Prod.mk.injEq]
    constructor
    · rintro rfl
      exact ⟨mem, memFreq, ⟨rfl, rfl⟩, rfl⟩
    · rintro ⟨_, _, ⟨rfl, rfl⟩, rfl⟩
      rfl

/-- A turn is passed over, or is one of the core, of an accelerator or of a device. -/
theorem turn_cases (env : CoScaleEnv) (s : CoScale) (known : ip ≠ .dma ∧ ip ≠ .cache) :
    (¬s.Takes env ip ∧ ∀ fuel, s.turn fuel env ip = .ok s) ∨
    s.Takes env ip ∧
      (ip = .cpu ∧ (∀ fuel, s.turn fuel env ip = s.cpuTurn fuel env) ∨
        ip ≠ .cpu ∧ IpType.vd.code ≤ ip.code ∧
          (∀ fuel, s.turn fuel env ip = s.ipTurn fuel env ip) ∨
        ip ≠ .cpu ∧ ¬IpType.vd.code ≤ ip.code ∧
          ∀ fuel, s.turn fuel env ip = s.devTurn fuel env ip) := by
  by_cases measured : 0 < s.p.lastTimeTook ip
  · by_cases core : ip = .cpu
    · by_cases active : env.coreActive = true
      · refine Or.inr ⟨⟨measured, by rwa [if_pos core]⟩, Or.inl ⟨core, fun fuel => ?_⟩⟩
        rw [turn, if_pos ⟨core, measured⟩, if_pos active]
      · refine Or.inl ⟨fun takes => active ?_, fun fuel => ?_⟩
        · simpa only [core, if_true] using takes.2
        · rw [turn, if_pos ⟨core, measured⟩, if_neg active]
    · have instance_ : (!ip.hasInstance) = false := by
        simp only [IpType.hasInstance, core, known, ne_eq, not_false_eq_true, decide_true,
          Bool.and_self, Bool.not_true]
      by_cases active : env.ipActive ip = true
      · refine Or.inr ⟨⟨measured, by rwa [if_neg core]⟩, Or.inr ?_⟩
        by_cases accelerator : IpType.vd.code ≤ ip.code
        · refine Or.inl ⟨core, accelerator, fun fuel => ?_⟩
          rw [turn, if_neg fun both => core both.1, if_pos ⟨accelerator, measured⟩, instance_,
            if_neg Bool.false_ne_true, if_pos active]
        · refine Or.inr ⟨core, accelerator, fun fuel => ?_⟩
          rw [turn, if_neg fun both => core both.1, if_neg fun both => accelerator both.1,
            if_pos ⟨not_le.mp accelerator, measured⟩, if_pos active]
      · refine Or.inl ⟨fun takes => active ?_, fun fuel => ?_⟩
        · simpa only [core, if_false] using takes.2
        · rw [turn, if_neg fun both => core both.1, instance_, if_neg Bool.false_ne_true,
            if_neg active, if_neg active, ite_self, ite_self]
  · refine Or.inl ⟨fun takes => measured takes.1, fun fuel => ?_⟩
    rw [turn, if_neg fun both => measured both.2, if_neg fun both => measured both.2,
      if_neg fun both => measured both.2]

theorem Inv.turn_mono (inv : s.Inv) (known : ip ≠ .dma ∧ ip ≠ .cache) (le : fuel ≤ fuel')
    (ended : s.turn fuel env ip = .ok t) : s.turn fuel' env ip = .ok t := by
  obtain ⟨-, passed⟩ | ⟨-, ⟨-, cpu⟩ | ⟨-, -, acc⟩ | ⟨-, -, dev⟩⟩ :=
    turn_cases env s known
  · rw [passed] at ended ⊢
    exact ended
  · rw [cpu, inv.cpuTurn_ok] at ended ⊢
    obtain ⟨searched, found, search, after⟩ := ended
    exact ⟨searched, found, cpuSearch_mono le search, after⟩
  · rw [acc, inv.ipTurn_ok] at ended ⊢
    obtain ⟨searched, found, search, after⟩ := ended
    exact ⟨searched, found, ipSearch_mono le search, after⟩
  · rw [dev, devTurn_ok] at ended ⊢
    obtain ⟨mem, memFreq, search, after⟩ := ended
    exact ⟨mem, memFreq, devSearch_mono le search, after⟩

theorem Inv.turn (inv : s.Inv) (known : ip ≠ .dma ∧ ip ≠ .cache)
    (ended : s.turn fuel env ip = .ok t) : t.Inv := by
  obtain ⟨-, passed⟩ | ⟨-, ⟨-, cpu⟩ | ⟨-, -, acc⟩ | ⟨-, -, dev⟩⟩ :=
    turn_cases env s known
  · rw [passed] at ended
    cases ended
    exact inv
  · rw [cpu, inv.cpuTurn_ok] at ended
    obtain ⟨searched, found, search, rfl⟩ := ended
    obtain ⟨low, inside⟩ := inv.cpuSearch_inside search
    exact ⟨⟨inside, inv.tabulated.coreOptimal, inv.tabulated.ip, inv.tabulated.ipOptimal⟩, rfl,
      low⟩
  · rw [acc, inv.ipTurn_ok] at ended
    obtain ⟨searched, found, search, rfl⟩ := ended
    have inside := inv.ipSearch_inside search
    refine ⟨⟨inv.tabulated.core, inv.tabulated.coreOptimal, fun other => ?_, fun other => ?_⟩,
      inv.cpuFreq, inv.cpu⟩
    · by_cases same : other = ip
      · subst same
        simp only [afterIp, Function.update_self]
        exact inside
      · simpa only [afterIp, Function.update_of_ne same] using inv.tabulated.ip other
    · by_cases same : other = ip
      · subst same
        simpa only [afterIp, Function.update_self] using inv.tabulated.ipOptimal other
      · simpa only [afterIp, Function.update_of_ne same] using inv.tabulated.ipOptimal other
  · rw [dev, devTurn_ok] at ended
    obtain ⟨mem, memFreq, -, rfl⟩ := ended
    exact ⟨inv.tabulated, inv.cpuFreq, inv.cpu⟩

theorem cpuSearch_onGrid (env : CoScaleEnv) (grid : OnGrid s.mem) :
    ∃ fuel searched found, s.cpuSearch fuel env = some (searched, found) ∧ OnGrid searched.mem := by
  cases lateness : late env s.p .cpu s.p.cpuMinTime with
  | true => exact ⟨0, _, _, cpuSearch_late lateness 0, grid⟩
  | false =>
    have breaks : s.p.cpuEstimates.Breaks (bound env s.p.cpuEstimates) ⟨s.mem, s.cpu⟩ :=
      CoScaleEstimates.breaks_of_onGrid grid
    obtain ⟨fuel, ⟨searched, found⟩, ended⟩ :=
      (Walk.exists_walk_iff ⟨s.memFreq, s.cpuFreq⟩).mpr breaks
    exact ⟨fuel, searched, found, (cpuSearch_early lateness fuel).trans ended,
      Walk.walk_inside (fun pos => OnGrid pos.mem)
        (fun pos grid => CoScaleEstimates.next_onGrid grid) grid ended⟩

theorem ipSearch_onGrid (env : CoScaleEnv) (ip : IpType) (grid : OnGrid s.mem) :
    ∃ fuel searched found, s.ipSearch fuel env ip = some (searched, found) ∧
      OnGrid searched.mem := by
  cases lateness : late env s.p ip (s.p.ipMinTime ip) with
  | true => exact ⟨0, _, _, ipSearch_late lateness 0, grid⟩
  | false =>
    have breaks : (s.p.ipEstimates ip).Breaks (bound env (s.p.ipEstimates ip))
        ⟨s.mem, (s.p.ip ip).dvfsState⟩ := CoScaleEstimates.breaks_of_onGrid grid
    obtain ⟨fuel, ⟨searched, found⟩, ended⟩ :=
      (Walk.exists_walk_iff ⟨s.memFreq, 0⟩).mpr breaks
    exact ⟨fuel, searched, found, (ipSearch_early lateness fuel).trans ended,
      Walk.walk_inside (fun pos => OnGrid pos.mem)
        (fun pos grid => CoScaleEstimates.next_onGrid grid) grid ended⟩

theorem devSearch_onGrid (env : CoScaleEnv) (ip : IpType) (grid : OnGrid s.mem) :
    ∃ fuel mem memFreq, s.devSearch fuel env ip = some (mem, memFreq) ∧ OnGrid mem := by
  cases lateness : late env s.p ip (s.p.devMinTime ip) with
  | true => exact ⟨0, _, _, devSearch_late lateness 0, grid⟩
  | false =>
    obtain ⟨fuel, ⟨mem, memFreq⟩, ended⟩ :=
      (Walk.exists_walk_iff s.memFreq).mpr (grid.device_stops _ _)
    exact ⟨fuel, mem, memFreq, (devSearch_early lateness fuel).trans ended,
      Walk.walk_inside OnGrid (fun mem grid => grid.deviceNext) grid ended⟩

theorem Inv.turn_ends (inv : s.Inv) (env : CoScaleEnv) (known : ip ≠ .dma ∧ ip ≠ .cache)
    (grid : OnGrid s.mem) :
    ∃ fuel t, s.turn fuel env ip = .ok t ∧ OnGrid t.mem := by
  obtain ⟨-, passed⟩ | ⟨-, ⟨-, cpu⟩ | ⟨-, -, acc⟩ | ⟨-, -, dev⟩⟩ :=
    turn_cases env s known
  · exact ⟨0, s, passed 0, grid⟩
  · obtain ⟨fuel, searched, found, ended, grid'⟩ := cpuSearch_onGrid env grid
    exact ⟨fuel, _, (cpu fuel).trans (inv.cpuTurn_ok.mpr ⟨searched, found, ended, rfl⟩), grid'⟩
  · obtain ⟨fuel, searched, found, ended, grid'⟩ := ipSearch_onGrid env ip grid
    exact ⟨fuel, _, (acc fuel).trans (inv.ipTurn_ok.mpr ⟨searched, found, ended, rfl⟩), grid'⟩
  · obtain ⟨fuel, mem, memFreq, ended, grid'⟩ := devSearch_onGrid env ip grid
    exact ⟨fuel, _, (dev fuel).trans (devTurn_ok.mpr ⟨mem, memFreq, ended, rfl⟩), grid'⟩

variable {ips : List IpType}

theorem Inv.turns_end (inv : s.Inv) (env : CoScaleEnv) (known : ∀ ip ∈ ips, ip ≠ .dma ∧ ip ≠ .cache)
    (grid : OnGrid s.mem) :
    ∃ fuel, ∀ more, fuel ≤ more →
      ∃ t, ips.foldlM (fun s ip => s.turn more env ip) s = .ok t := by
  induction ips generalizing s with
  | nil => exact ⟨0, fun _ _ => ⟨s, rfl⟩⟩
  | cons ip ips ih =>
    obtain ⟨first, later⟩ := List.forall_mem_cons.mp known
    obtain ⟨fuel, t, ended, grid'⟩ := inv.turn_ends env first grid
    obtain ⟨fuel', others⟩ := ih (inv.turn first ended) later grid'
    -- The fuel that the longest of the turns needs is enough for all of them.
    refine ⟨max fuel fuel', fun more enough => ?_⟩
    obtain ⟨last, rest⟩ := others more (by omega)
    refine ⟨last, ?_⟩
    rw [List.foldlM_cons, inv.turn_mono first (by omega : fuel ≤ more) ended]
    exact rest

theorem TurnsRight.foldlM (right : TurnsRight fuel env ips s) :
    ∃ t, ips.foldlM (fun s ip => s.turn fuel env ip) s = .ok t := by
  induction ips generalizing s with
  | nil => exact ⟨s, rfl⟩
  | cons ip ips ih =>
    obtain ⟨t, ended, -, rest⟩ := right
    obtain ⟨last, others⟩ := ih rest
    exact ⟨last, by rw [List.foldlM_cons, ended]; exact others⟩

end CoScale

namespace DvfsPlatform

theorem dvfsCoScaleNewNew_ends {fuel : Nat} {env : CoScaleEnv} {p : DvfsPlatform}
    (ended : ∃ t, p.flow.ips.foldlM (fun s ip => s.turn fuel env ip) (CoScale.start p) = .ok t) :
    p.dvfsCoScaleNewNew fuel env ≠ .error .outOfFuel := by
  obtain ⟨t, ended⟩ := ended
  simp only [dvfsCoScaleNewNew, ended, bind, Except.bind, pure, Except.pure, setMemFreq]
  split
  · simp
  · split <;> simp

/-- The factors of the sweep as they are by default, with every component active. -/
def unsweptEnv : CoScaleEnv where
  sweepVal1 := 1
  sweepVal2 := 1
  coreActive := true
  ipActive _ := true

theorem videoFrame_tabulated (memFreq : Rat) (flow : Flow) :
    (videoFrame memFreq flow).Tabulated where
  core := by simp [videoFrame, CoreDvfs.InRange, coreDvfsStates]
  coreOptimal := by simp [videoFrame]
  ip _ := by simp [videoFrame, IpDvfs.InRange, ipDvfsStates]
  ipOptimal _ := by simp [videoFrame]

/-- With its states in their tables and the memory on its grid the search of the governor ends. -/
theorem dvfsCoScaleNewNew_ends_of_onGrid {p : DvfsPlatform} (tabulated : p.Tabulated)
    (grid : OnGrid p.memFreq) (env : CoScaleEnv) :
    ∃ fuel, ∀ more, fuel ≤ more → p.dvfsCoScaleNewNew more env ≠ .error .outOfFuel := by
  have inv : (CoScale.start p).Inv := ⟨tabulated, rfl, tabulated.core⟩
  obtain ⟨fuel, ended⟩ := inv.turns_end env p.flow.instances grid
  exact ⟨fuel, fun more enough => dvfsCoScaleNewNew_ends (ended more enough)⟩

theorem dvfsCoScaleNewNew_ends_video : ∃ fuel, ∀ more, fuel ≤ more →
    (videoFrame (1 / 2) ⟨[.cpu, .gpu], by simp⟩).dvfsCoScaleNewNew more unsweptEnv ≠
      .error .outOfFuel :=
  dvfsCoScaleNewNew_ends_of_onGrid (videoFrame_tabulated _ _)
    ⟨5, by decide, by norm_num [videoFrame, gridFreq]⟩ _

end DvfsPlatform

end GemDroid
