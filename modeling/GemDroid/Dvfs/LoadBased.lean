import GemDroid.Dvfs.States
import GemDroid.Lib.Run

/-! The load-based governors over whole runs of epochs, and the range of the frequency states. -/

namespace GemDroid

/-- What is measured of a core in one epoch; a load that is not a number is `none`. -/
structure CoreMeasure where
  load : Option Rat
  coordinatedPower : Rat
  powerInLastEpoch : Rat
  deriving DecidableEq, Repr

/-- What is measured of an IP in one epoch; a load that is not a number is `none`. -/
structure IpMeasure where
  load : Option Rat
  lastEnergyTook : Rat
  coordinatedPower : Rat
  powerInLastEpoch : Rat
  deriving DecidableEq, Repr

/-- The IPs whose frequency the governors scale, from `IP_TYPE_VD` to `IP_TYPE_GPU`. -/
def IpType.isScaled (t : IpType) : Bool :=
  IpType.vd.code ≤ t.code ∧ t.code ≤ IpType.gpu.code

/-- The part of `dvfsLoadBased` for one core. -/
def CoreDvfs.loadBased (governor : Governor) (m : CoreMeasure) (c : CoreDvfs) : Option CoreDvfs :=
  match m.load with
  | none => some c
  | some load =>
    -- A busy component is raised in the way of its governor, an idle one lowered by one state.
    if 6 / 10 < load then
      match governor with
      | .ondemand | .interactive => some (c.setMaxCoreFreq governor)
      | .building => some (c.incFreq 2)
      | .powercap =>
        { c with powerInLastEpoch := m.powerInLastEpoch }.setMaxAllowedFreq m.coordinatedPower
      | _ => some c
    else if load < 2 / 10 then some (c.decFreq governor 1)
    else some c

/-- The part of `dvfsLoadBased` for one IP. -/
def IpDvfs.loadBased (governor : Governor) (m : IpMeasure) (ip : IpDvfs) : Option IpDvfs :=
  -- An IP that used no energy in the epoch is left alone.
  if ip.ipType.isScaled = false ∨ m.lastEnergyTook = 0 then some ip
  else
    match m.load with
    | none => some ip
    | some load =>
      if 6 / 10 < load then
        match governor with
        | .ondemand | .interactive => some ip.setMaxIPFreq
        | .building => some (ip.incFreq 1)
        | .powercap =>
          { ip with powerInLastEpoch := m.powerInLastEpoch }.setMaxAllowedFreq m.coordinatedPower
        | _ => some ip
      else if load < 3 / 10 then some (ip.decFreq governor 1)
      else some ip

/-- The frequency management of the whole platform. -/
structure DvfsSystem where
  governor : Governor
  cores : List CoreDvfs
  ips : List IpDvfs
  deriving DecidableEq, Repr

/-- One epoch: the measures of every core and every IP. -/
structure Epoch where
  cores : List CoreMeasure
  ips : List IpMeasure
  deriving DecidableEq, Repr

/-- The parameters of a platform; memory of GPUs beyond the first is never initialised. -/
structure DvfsBoot where
  governor : Governor
  numCpus : Nat
  numIpInst : Nat
  coreFreq : Int
  devFreq : Int
  ipFreq : Int
  rawCounter : Int
  rawGpus : List IpDvfs
  deriving DecidableEq, Repr

/-- The state to which the optimal governors go (`optimal_freqs`). -/
def IpType.optimalFreq : IpType → Int
  | .cpu => 6
  | .ve | .ae | .img => 2
  | .dc | .nw | .snd | .mic | .cam | .mmcIn | .mmcOut | .vd | .ad | .gpu | .dma | .cache => 1

namespace DvfsSystem

/-- Every state is a row of its table. -/
def InRange (s : DvfsSystem) : Prop :=
  (∀ c ∈ s.cores, c.InRange) ∧ ∀ ip ∈ s.ips, ip.InRange

/--
One epoch of a load-based governor: `updateDVFS` counts down and `dvfsLoadBased` selects.

A failed assertion on a frequency ends the run.
-/
def step (s : DvfsSystem) (e : Epoch) : Option DvfsSystem :=
  if e.cores.length = s.cores.length ∧ e.ips.length = s.ips.length then do
    let cores ← ((s.cores.map (CoreDvfs.updateDVFS s.governor)).zip e.cores).mapM
      fun (c, m) => c.loadBased s.governor m
    let ips ← ((s.ips.map IpDvfs.updateDVFS).zip e.ips).mapM
      fun (ip, m) => ip.loadBased s.governor m
    some { s with cores := cores, ips := ips }
  else none

/-- Change every IP that the governors scale. -/
def mapScaled (f : IpDvfs → IpDvfs) (ips : List IpDvfs) : List IpDvfs :=
  ips.map fun ip => if ip.ipType.isScaled then f ip else ip

/-- The first frequencies each governor selects (`initDVFS`). -/
def initDVFS (s : DvfsSystem) : Option DvfsSystem :=
  match s.governor with
  | .performance | .ondemand | .interactive | .building | .coreOracle =>
    some { s with
      cores := s.cores.map (CoreDvfs.setMaxCoreFreq s.governor)
      ips := mapScaled IpDvfs.setMaxIPFreq s.ips }
  | .optimal | .slack | .slackFarEnergy | .slackKnapsack | .dynamicProg
  | .slackMaxEnergyConsumer | .slackMaxPowerConsumer | .slackMaxEnergyPerTimeConsumer =>
    some { s with
      cores := s.cores.map CoreDvfs.setOptCoreFreq
      ips := mapScaled IpDvfs.setOptIPFreq s.ips }
  | .powersave => do
    let cores ← s.cores.mapM (CoreDvfs.setCoreFreq (5 / 10))
    let ips ← s.ips.mapM fun ip =>
      if ip.ipType.isScaled then ip.setIPFreq (2 / 10) else some ip
    some { s with cores := cores, ips := ips }
  -- The others keep what `init` selected.
  | .disabled | .powercap | .coscale | .memscale => some s

/-- The instances of one kind of IP, whose frequency `init` takes from the parameters. -/
def instances (boot : DvfsBoot) (freq : Int) (t : IpType) : Option (List IpDvfs) :=
  (IpDvfs.setIPFreq (freq / 1000) ⟨t, 0, boot.rawCounter, t.optimalFreq, 0⟩).map
    fun ip => List.replicate boot.numIpInst ip

/-- The platform after construction: every `init`, and then `initDVFS`. -/
def start (boot : DvfsBoot) : Option DvfsSystem := do
  let core ← CoreDvfs.setCoreFreq (boot.coreFreq / 1000)
    ⟨0, 0, IpType.cpu.optimalFreq, 0⟩
  let devices ← [.dc, .nw, .snd, .mic, .cam, .mmcIn, .mmcOut].mapM (instances boot boot.devFreq)
  let accelerators ← [.vd, .ve, .ad, .ae, .img].mapM (instances boot boot.ipFreq)
  let gpu ← IpDvfs.setIPFreq (boot.ipFreq / 1000)
    ⟨.gpu, 0, boot.rawCounter, IpType.gpu.optimalFreq, 0⟩
  initDVFS {
    governor := boot.governor
    cores := List.replicate boot.numCpus core
    -- Only the first GPU goes through `init`, the others hold what their memory held.
    ips := devices.flatten ++ accelerators.flatten ++
      (gpu :: boot.rawGpus.map fun raw => { raw with ipType := .gpu }).take boot.numIpInst }

end DvfsSystem

theorem getIndexInTable_lt {table : List (Rat × Rat)} {freq : Rat} {index : Nat}
    (found : getIndexInTable table freq = some index) : index < table.length := by
  obtain ⟨bound, -⟩ := List.findIdx?_eq_some_iff_getElem.mp found
  simpa [freqs] using bound

namespace CoreDvfs

theorem setCoreFreq_inRange {freq : Rat} {c c' : CoreDvfs}
    (selected : c.setCoreFreq freq = some c') : c'.InRange := by
  -- The state is the index that the table lookup found.
  simp only [setCoreFreq, Option.map_eq_some_iff] at selected
  obtain ⟨index, found, rfl⟩ := selected
  have bound := getIndexInTable_lt found
  simp only [coreVoltageFreq, List.length_cons, List.length_nil] at bound
  simp only [InRange, coreDvfsStates]
  omega

theorem decFreq_inRange {governor : Governor} {c : CoreDvfs} (before : c.InRange) :
    (c.decFreq governor 1).InRange := by
  obtain ⟨low, high⟩ := before
  unfold decFreq
  split
  · exact ⟨low, high⟩
  · split
    · simp only [InRange]
      omega
    · exact ⟨low, high⟩

/-- The building governor raises no core by two states from the state below the top. -/
def Steady (governor : Governor) (m : CoreMeasure) (c : CoreDvfs) : Prop :=
  governor = .building → c.dvfsState = coreDvfsStates - 2 →
    ∀ load, m.load = some load → load ≤ 6 / 10

/-- An epoch keeps a core in range exactly when it does not overshoot the top state. -/
theorem loadBased_inRange_iff {governor : Governor} {m : CoreMeasure} {c c' : CoreDvfs}
    (before : c.InRange) (taken : c.loadBased governor m = some c') :
    c'.InRange ↔ c.Steady governor m := by
  obtain ⟨low, high⟩ := before
  unfold loadBased at taken
  cases measured : m.load with
  | none =>
    simp only [measured, Option.some.injEq] at taken
    subst taken
    exact iff_of_true ⟨low, high⟩ (by simp [Steady, measured])
  | some load =>
    simp only [measured] at taken
    by_cases loaded : 6 / 10 < load
    · rw [if_pos loaded] at taken
      cases governor with
      | building =>
        -- Two states are added below the top, and only one is left from the state below it.
        simp only [Option.some.injEq] at taken
        subst taken
        have overshoots : ¬ load ≤ 6 / 10 := not_le.mpr loaded
        simp only [Steady, measured, Option.some.injEq, forall_eq', overshoots, imp_false,
          forall_const, incFreq, InRange, coreDvfsStates]
        simp only [coreDvfsStates] at high
        by_cases below : c.dvfsState < 13 - 1
        · simp only [below, if_true]
          omega
        · simp only [below, if_false]
          omega
      | powercap => exact iff_of_true (setCoreFreq_inRange taken) (by simp [Steady])
      | ondemand | interactive =>
        simp only [Option.some.injEq] at taken
        subst taken
        refine iff_of_true ?_ (by simp [Steady])
        simp [setMaxCoreFreq, InRange, coreDvfsStates]
      | _ =>
        simp only [Option.some.injEq] at taken
        subst taken
        exact iff_of_true ⟨low, high⟩ (by simp [Steady])
    · have calm : c.Steady governor m := by
        intro _ _ other same
        rw [measured, Option.some.injEq] at same
        exact same ▸ not_lt.mp loaded
      rw [if_neg loaded] at taken
      refine iff_of_true ?_ calm
      split at taken
      · simp only [Option.some.injEq] at taken
        exact taken ▸ decFreq_inRange ⟨low, high⟩
      · simp only [Option.some.injEq] at taken
        exact taken ▸ ⟨low, high⟩

end CoreDvfs

namespace IpDvfs

theorem setIPFreq_inRange {freq : Rat} {ip ip' : IpDvfs}
    (selected : ip.setIPFreq freq = some ip') : ip'.InRange := by
  -- The state is the index that the table lookup found.
  simp only [setIPFreq, Option.map_eq_some_iff] at selected
  obtain ⟨index, found, rfl⟩ := selected
  have bound := getIndexInTable_lt found
  simp only [ipVoltageFreq, List.length_cons, List.length_nil] at bound
  simp only [InRange, ipDvfsStates]
  omega

theorem setMaxIPFreq_inRange (ip : IpDvfs) : ip.setMaxIPFreq.InRange := by
  simp [setMaxIPFreq, InRange, ipDvfsStates]

theorem decFreq_inRange {governor : Governor} {ip : IpDvfs} (before : ip.InRange) :
    (ip.decFreq governor 1).InRange := by
  obtain ⟨low, high⟩ := before
  unfold decFreq
  split
  · exact ⟨low, high⟩
  · split
    · simp only [InRange]
      omega
    · exact ⟨low, high⟩

theorem incFreq_inRange {ip : IpDvfs} (before : ip.InRange) : (ip.incFreq 1).InRange := by
  unfold incFreq
  split
  · simp only [InRange, ipDvfsStates] at *
    omega
  · exact ip.setMaxIPFreq_inRange

/-- An epoch keeps an IP in range; its `incFreq` stops at the top state. -/
theorem loadBased_inRange {governor : Governor} {m : IpMeasure} {ip ip' : IpDvfs}
    (before : ip.InRange) (taken : ip.loadBased governor m = some ip') : ip'.InRange := by
  -- The cases follow the branches: unscaled, no load, high load, low load.
  -- Only a high load under the building governor adds to the state, and there the top is a limit.
  unfold loadBased at taken
  split at taken
  · simp only [Option.some.injEq] at taken
    exact taken ▸ before
  · cases measured : m.load with
    | none =>
      simp only [measured, Option.some.injEq] at taken
      exact taken ▸ before
    | some load =>
      simp only [measured] at taken
      split at taken
      · cases governor with
        | building =>
          simp only [Option.some.injEq] at taken
          exact taken ▸ incFreq_inRange before
        | powercap => exact setIPFreq_inRange taken
        | ondemand | interactive =>
          simp only [Option.some.injEq] at taken
          exact taken ▸ ip.setMaxIPFreq_inRange
        | _ =>
          simp only [Option.some.injEq] at taken
          exact taken ▸ before
      · split at taken
        · simp only [Option.some.injEq] at taken
          exact taken ▸ decFreq_inRange before
        · simp only [Option.some.injEq] at taken
          exact taken ▸ before

end IpDvfs

theorem freqForPower_mem {table : List (Rat × Rat)} (rows : table ≠ [])
    (power : Rat × Rat → Rat) (budget : Rat) :
    freqForPower table power budget ∈ freqs table := by
  -- Either some row meets the budget, or the last row is taken as it is.
  unfold freqForPower
  split
  case h_1 row found => exact List.mem_map_of_mem (List.mem_of_find?_eq_some found)
  case h_2 =>
    have listed : freqs table ≠ [] := by simpa [freqs] using rows
    rw [List.getLastD_eq_getLast?, List.getLast?_eq_some_getLast listed, Option.getD_some]
    exact List.getLast_mem listed

theorem CoreDvfs.loadBased_isSome (governor : Governor) (m : CoreMeasure) (c : CoreDvfs) :
    (c.loadBased governor m).isSome := by
  -- The integer part of each tabulated frequency is the index of one of the first two rows.
  have tabulated : ∀ freq ∈ freqs coreVoltageFreq, (getIndexInTable coreVoltageFreq
      (tableFreq coreVoltageFreq (Rounding.trunc freq))).isSome := by
    decide +kernel
  unfold loadBased
  split
  · rfl
  · split
    · split
      · rfl
      · rfl
      · rfl
      · simpa [setMaxAllowedFreq, setCoreFreq, getFreqForPower] using
          tabulated _ (freqForPower_mem (by decide) _ _)
      · rfl
    · split <;> rfl

theorem IpDvfs.loadBased_isSome (governor : Governor) (m : IpMeasure) (ip : IpDvfs) :
    (ip.loadBased governor m).isSome := by
  -- Only the power cap looks a frequency up, and it takes one that is listed.
  have tabulated : ∀ freq ∈ freqs ipVoltageFreq, (getIndexInTable ipVoltageFreq freq).isSome := by
    decide +kernel
  unfold loadBased
  split
  · rfl
  · split
    · rfl
    · split
      · split
        · rfl
        · rfl
        · rfl
        · simpa [setMaxAllowedFreq, setIPFreq, getFreqForPower] using
            tabulated _ (freqForPower_mem (by decide) _ _)
        · rfl
      · split <;> rfl

private theorem mapM_forall_iff {α β : Type} {f : α → Option β} {allowed : α → Prop}
    {holds : β → Prop} {xs : List α} {ys : List β}
    (each : ∀ x ∈ xs, ∀ y, f x = some y → (holds y ↔ allowed x)) (mapped : xs.mapM f = some ys) :
    (∀ y ∈ ys, holds y) ↔ ∀ x ∈ xs, allowed x := by
  -- The list is mapped from the front, so each element is settled before the rest.
  induction xs generalizing ys with
  | nil =>
    simp only [List.mapM_nil, Option.pure_def, Option.some.injEq] at mapped
    simp [← mapped]
  | cons x xs ih =>
    simp only [List.mapM_cons, Option.bind_eq_bind, Option.bind_eq_some_iff, Option.pure_def,
      Option.some.injEq] at mapped
    obtain ⟨y, here, rest, there, rfl⟩ := mapped
    simp only [List.forall_mem_cons, each x (by simp) y here,
      ih (fun x member => each x (by simp [member])) there]

private theorem mapM_exists {α β : Type} {f : α → Option β} (each : ∀ x, (f x).isSome)
    (xs : List α) : ∃ ys, xs.mapM f = some ys ∧ ys.length = xs.length := by
  induction xs with
  | nil => exact ⟨[], rfl, rfl⟩
  | cons x xs ih =>
    obtain ⟨y, here⟩ := Option.isSome_iff_exists.mp (each x)
    obtain ⟨ys, there, length⟩ := ih
    exact ⟨y :: ys, by simp [here, there], by simp [length]⟩

namespace DvfsSystem

/-- The epoch measures each core and each IP. -/
def Measures (e : Epoch) (s : DvfsSystem) : Prop :=
  e.cores.length = s.cores.length ∧ e.ips.length = s.ips.length

theorem Measures.step {s : DvfsSystem} {e : Epoch} (measures : Measures e s) :
    ∃ t, s.step e = some t ∧ t.cores.length = s.cores.length ∧ t.ips.length = s.ips.length := by
  obtain ⟨cores, ips⟩ := measures
  -- The guard compares the lengths, and then both mappings succeed.
  obtain ⟨cores', scaled, length⟩ := mapM_exists
    (fun cm : CoreDvfs × CoreMeasure => cm.1.loadBased_isSome s.governor cm.2)
    ((s.cores.map (CoreDvfs.updateDVFS s.governor)).zip e.cores)
  obtain ⟨ips', scaled', length'⟩ := mapM_exists
    (fun im : IpDvfs × IpMeasure => im.1.loadBased_isSome s.governor im.2)
    ((s.ips.map IpDvfs.updateDVFS).zip e.ips)
  refine ⟨{ s with cores := cores', ips := ips' }, ?_, ?_, ?_⟩
  · simp [DvfsSystem.step, cores, ips, scaled, scaled']
  · simp [length, cores]
  · simp [length', ips]

/-- A governor takes every epoch that measures each core and each IP; no lookup ever fails. -/
theorem run_isSome_iff (s : DvfsSystem) (es : List Epoch) :
    (Machine.run step s es).isSome ↔ ∀ e ∈ es, Measures e s := by
  induction es generalizing s with
  | nil => simp
  | cons e es ih =>
    rw [Machine.run_cons, List.forall_mem_cons]
    by_cases measures : Measures e s
    · obtain ⟨t, taken, cores, ips⟩ := measures.step
      simp only [taken, Option.bind_some, ih, Measures, cores, ips]
      exact (and_iff_right measures).symm
    · have refused : s.step e = none := if_neg measures
      simp [refused, measures]

/-- No core overshoots its table in the epoch. -/
def Steady (s : DvfsSystem) (e : Epoch) : Prop :=
  ∀ cm ∈ s.cores.zip e.cores, cm.1.Steady s.governor cm.2

/-- An epoch keeps every state in range exactly when no core overshoots. -/
theorem inRange_iff_steady {s t : DvfsSystem} {e : Epoch} (before : s.InRange)
    (taken : s.step e = some t) : t.InRange ↔ s.Steady e := by
  unfold step at taken
  split at taken
  case isFalse => simp at taken
  case isTrue =>
    simp only [Option.bind_eq_bind, Option.bind_eq_some_iff, Option.some.injEq] at taken
    obtain ⟨cores, scaledCores, ips, scaledIps, rfl⟩ := taken
    -- Counting down leaves the states alone, so the epoch starts in range.
    have eachCore : ∀ cm ∈ (s.cores.map (CoreDvfs.updateDVFS s.governor)).zip e.cores, ∀ c',
        cm.1.loadBased s.governor cm.2 = some c' →
          (c'.InRange ↔ cm.1.Steady s.governor cm.2) := by
      intro cm member c' scaled
      obtain ⟨c, original, counted⟩ := List.mem_map.mp (List.of_mem_zip member).1
      refine CoreDvfs.loadBased_inRange_iff ?_ scaled
      have range := before.1 c original
      rw [← counted]
      unfold CoreDvfs.updateDVFS
      split <;> exact range
    have eachIp : ∀ im ∈ (s.ips.map IpDvfs.updateDVFS).zip e.ips, ∀ ip',
        im.1.loadBased s.governor im.2 = some ip' → (ip'.InRange ↔ True) := by
      intro im member ip' scaled
      obtain ⟨ip, original, counted⟩ := List.mem_map.mp (List.of_mem_zip member).1
      refine iff_true_intro (IpDvfs.loadBased_inRange ?_ scaled)
      rw [← counted]
      exact before.2 ip original
    have allCores := mapM_forall_iff eachCore scaledCores
    have allIps := mapM_forall_iff eachIp scaledIps
    simp only [InRange, allCores, allIps, implies_true, and_true, Steady, List.zip_map_left,
      List.forall_mem_map]
    refine forall_congr' fun cm => forall_congr' fun _ => ?_
    simp only [Prod.map, CoreDvfs.Steady, CoreDvfs.updateDVFS, id]
    split <;> rfl

theorem instances_inRange {boot : DvfsBoot} {freq : Int} {t : IpType} {ips : List IpDvfs}
    (made : instances boot freq t = some ips) : ∀ ip ∈ ips, ip.InRange := by
  -- All instances are copies of one that went through `init`.
  simp only [instances, Option.map_eq_some_iff] at made
  obtain ⟨ip, selected, rfl⟩ := made
  intro other member
  rw [List.eq_of_mem_replicate member]
  exact IpDvfs.setIPFreq_inRange selected

theorem flatten_instances_inRange {boot : DvfsBoot} {freq : Int} {kinds : List IpType}
    {ips : List (List IpDvfs)} (made : kinds.mapM (instances boot freq) = some ips) :
    ∀ ip ∈ ips.flatten, ip.InRange := by
  -- Each kind by itself, and a member of the whole comes from one kind.
  have range : ∀ t ∈ kinds, ∀ group, instances boot freq t = some group →
      ((∀ ip ∈ group, ip.InRange) ↔ True) :=
    fun _ _ _ one => iff_true_intro (instances_inRange one)
  have each := (mapM_forall_iff range made).mpr fun _ _ => trivial
  intro ip member
  obtain ⟨group, among, inside⟩ := List.mem_flatten.mp member
  exact each group among ip inside

theorem initDVFS_raises {s t : DvfsSystem} (started : initDVFS s = some t)
    (raising : s.governor = .ondemand ∨ s.governor = .interactive ∨ s.governor = .building) :
    t.cores = s.cores.map (CoreDvfs.setMaxCoreFreq s.governor) ∧
      t.ips = mapScaled IpDvfs.setMaxIPFreq s.ips := by
  unfold initDVFS at started
  rcases raising with governor | governor | governor <;>
    · rw [governor, Option.some.injEq] at started
      rw [← started, governor]
      exact ⟨rfl, rfl⟩

/--
A load-based governor starts in range, up to the GPUs that were never initialised.

Only the power cap leaves the states alone that it finds.
-/
theorem start_inRange_iff {boot : DvfsBoot} {s : DvfsSystem} (booted : start boot = some s)
    (loadBased : boot.governor ∈ [.ondemand, .interactive, .building, .powercap]) :
    s.InRange ↔ (boot.governor = .powercap →
      ∀ raw ∈ boot.rawGpus.take (boot.numIpInst - 1), raw.InRange) := by
  simp only [start, Option.bind_eq_bind, Option.bind_eq_some_iff] at booted
  obtain ⟨core, selectedCore, devices, madeDevices, accelerators, madeAccelerators, gpu,
    selectedGpu, booted⟩ := booted
  have coreRange := CoreDvfs.setCoreFreq_inRange selectedCore
  have fixed : ∀ ip ∈ devices.flatten ++ accelerators.flatten, ip.InRange := by
    intro ip member
    rcases List.mem_append.mp member with device | accelerator
    · exact flatten_instances_inRange madeDevices ip device
    · exact flatten_instances_inRange madeAccelerators ip accelerator
  have gpuRange := IpDvfs.setIPFreq_inRange selectedGpu
  by_cases capped : boot.governor = .powercap
  · simp only [initDVFS, capped, Option.some.injEq] at booted
    subst booted
    -- Every other component went through its own `init`.
    have gpus : (∀ ip ∈ (gpu :: boot.rawGpus.map fun raw => { raw with ipType := .gpu }).take
        boot.numIpInst, ip.InRange) ↔
        ∀ raw ∈ boot.rawGpus.take (boot.numIpInst - 1), raw.InRange := by
      cases boot.numIpInst with
      | zero => simp
      | succ n =>
        simp only [List.take_succ_cons, List.forall_mem_cons, gpuRange, true_and,
          ← List.map_take, List.forall_mem_map, Nat.add_sub_cancel]
        rfl
    simp only [InRange, List.mem_replicate, and_imp, forall_eq_apply_imp_iff, List.mem_append,
      capped, forall_const, or_imp, forall_and] at fixed ⊢
    rw [gpus]
    constructor
    · rintro ⟨-, -, raws⟩
      exact raws
    · intro raws
      exact ⟨fun _ => coreRange, fixed, raws⟩
  · refine iff_of_true ?_ fun capped' => absurd capped' capped
    have raising : boot.governor = .ondemand ∨ boot.governor = .interactive ∨
        boot.governor = .building := by
      simpa [capped] using loadBased
    have raised := initDVFS_raises booted raising
    refine ⟨?_, ?_⟩
    · rw [raised.1]
      intro c member
      obtain ⟨c', -, rfl⟩ := List.mem_map.mp member
      unfold CoreDvfs.setMaxCoreFreq
      split <;> simp [CoreDvfs.InRange, coreDvfsStates]
    · rw [raised.2]
      intro ip member
      obtain ⟨ip', among, rfl⟩ := List.mem_map.mp member
      split
      · exact ip'.setMaxIPFreq_inRange
      case isFalse unscaled =>
        -- What the governors do not scale is a device, and that went through its `init`.
        rcases List.mem_append.mp among with made | gpus
        · exact fixed ip' made
        · rcases List.mem_cons.mp (List.mem_of_mem_take gpus) with rfl | raw
          · exact gpuRange
          · obtain ⟨raw', -, rfl⟩ := List.mem_map.mp raw
            exact absurd rfl unscaled

/--
Under the load-based governors every frequency state stays in its table exactly when the building
governor never raises a core by two states from the state below the top, and, under the power
cap, the GPUs that `init` never saw held a state of the table.
-/
theorem states_in_range_iff (boot : DvfsBoot) (s : DvfsSystem) (booted : start boot = some s)
    (loadBased : boot.governor ∈ [.ondemand, .interactive, .building, .powercap])
    (es : List Epoch) :
    Machine.Always step InRange s es ↔
      (boot.governor = .powercap →
        ∀ raw ∈ boot.rawGpus.take (boot.numIpInst - 1), raw.InRange) ∧
      Machine.Meets step Steady s es := by
  -- The first state decides the power cap; from there the epochs decide.
  rw [← start_inRange_iff booted loadBased]
  by_cases first : s.InRange
  · rw [Machine.always_iff_meets (fun _ _ _ before taken => inRange_iff_steady before taken)
      first]
    simp [first]
  · exact iff_of_false (fun always => first always.at_start) fun both => first both.1

/-- A platform with one core and one instance of each IP. -/
def smallPlatform (governor : Governor) : DvfsBoot :=
  { governor := governor, numCpus := 1, numIpInst := 1, coreFreq := 900, devFreq := 400,
    ipFreq := 300, rawCounter := 0, rawGpus := [] }

/-- An epoch in which the core had some load and the IPs did nothing. -/
def coreEpoch (load : Rat) : Epoch :=
  { cores := [⟨some load, 7, 0⟩], ips := List.replicate 13 ⟨some 0, 0, 7, 0⟩ }

/-- A core that first idles and then works stays in range under the ondemand governor. -/
theorem ondemand_stays_in_range :
    ∃ s t, start (smallPlatform .ondemand) = some s ∧
      Machine.run step s [coreEpoch (1 / 10), coreEpoch (7 / 10)] = some t ∧ t.InRange := by
  have booted : (start (smallPlatform .ondemand)).any (fun s =>
      s.governor = .ondemand ∧
        (Machine.run step s [coreEpoch (1 / 10), coreEpoch (7 / 10)]).isSome) = true := by
    decide +kernel
  obtain ⟨s, started, checked⟩ := (Option.any_eq_true _ _).mp booted
  obtain ⟨governor, some'⟩ := of_decide_eq_true checked
  obtain ⟨t, ran⟩ := Option.isSome_iff_exists.mp some'
  refine ⟨s, t, started, ran, Machine.Always.at_end ?_ ran⟩
  refine (states_in_range_iff (smallPlatform .ondemand) s started (by decide) _).mpr
    ⟨fun capped => by simp [smallPlatform] at capped, ?_⟩
  -- The condition concerns only the building governor, and no epoch changes the governor.
  have kept : ∀ (s t : DvfsSystem) (e : Epoch), s.step e = some t → t.governor = s.governor := by
    intro s t e taken
    unfold step at taken
    split at taken
    · simp only [Option.bind_eq_bind, Option.bind_eq_some_iff, Option.some.injEq] at taken
      obtain ⟨cores, -, ips, -, rfl⟩ := taken
      rfl
    · simp at taken
  have steady : ∀ (s : DvfsSystem) (e : Epoch), s.governor = .ondemand → s.Steady e := by
    intro s e ondemand cm _ building
    simp [ondemand] at building
  intro middle first
  refine ⟨steady s _ governor, ?_⟩
  intro last second
  exact ⟨steady middle _ ((kept _ _ _ first).trans governor), trivial⟩

/-- The building governor raises a core from the state below the top past its table. -/
theorem building_overshoots :
    ∃ s t, start (smallPlatform .building) = some s ∧
      Machine.run step s [coreEpoch (1 / 10), coreEpoch (7 / 10)] = some t ∧ ¬ t.InRange := by
  -- The first epoch lowers the core to the state below the top, the second adds two.
  have booted : (start (smallPlatform .building)).any (fun s =>
      (Machine.run step s [coreEpoch (1 / 10), coreEpoch (7 / 10)]).any fun t =>
        t.cores.any fun c => c.dvfsState = 13) = true := by
    decide +kernel
  obtain ⟨s, started, checked⟩ := (Option.any_eq_true _ _).mp booted
  obtain ⟨t, ran, found⟩ := (Option.any_eq_true _ _).mp checked
  obtain ⟨c, member, state⟩ := List.any_eq_true.mp found
  refine ⟨s, t, started, ran, fun range => ?_⟩
  have high := (range.1 c member).2
  rw [of_decide_eq_true state] at high
  exact absurd high (by decide)

end DvfsSystem

end GemDroid
