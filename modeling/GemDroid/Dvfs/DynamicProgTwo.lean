import Mathlib.Data.List.Permutation
import GemDroid.Dvfs.DynamicProgOne

/-! What the search over memory, core and accelerator frequencies finds. -/

namespace GemDroid

namespace DvfsPlatform

variable {p : DvfsPlatform} {ipType : IpType} {ipDevs : List IpType}

/-- What was measured of the core is positive. -/
structure CoreMeasured (p : DvfsPlatform) : Prop where
  time : 0 < p.lastTimeTook .cpu
  freq : 0 < p.lastFrequency .cpu

/-- A triple that is searched. -/
structure Searched (ipType : IpType) (p : DvfsPlatform) (t : Triple) : Prop where
  mem : t.mem ∈ memFreqsDown 3
  cpuLow : p.lowestCpu ≤ t.cpu
  cpuHigh : t.cpu ≤ coreDvfsStates - 1
  ipLow : p.lowestIp ipType ≤ t.ip
  ipHigh : t.ip ≤ ipDvfsStates - 1

/-- A triple that is searched and meets the deadline. -/
structure TripleInTime (ipType : IpType) (ipDevs : List IpType) (p : DvfsPlatform)
    (t : Triple) : Prop extends p.Searched ipType t where
  inTime : p.tripleTime ipType ipDevs t ≤ fpsDeadline

/-- The devices alone meet the deadline at the memory frequency of a triple. -/
def DevicesInTime (ipDevs : List IpType) (p : DvfsPlatform) (t : Triple) : Prop :=
  p.devTime ipDevs t.mem ≤ fpsDeadline

/-- A triple is searched before another one. -/
def TripleBefore (t t' : Triple) : Prop :=
  t'.mem < t.mem ∨ t'.mem = t.mem ∧ (t'.cpu < t.cpu ∨ t'.cpu = t.cpu ∧ t'.ip < t.ip)

theorem TripleBefore.asymm {t t' : Triple} (before : TripleBefore t t') : ¬TripleBefore t' t := by
  obtain less | ⟨same, rest⟩ := before
  · rintro (more | ⟨same, -⟩)
    · exact absurd less more.asymm
    · exact absurd same less.ne'
  · rintro (more | ⟨-, rest'⟩)
    · exact absurd same more.ne'
    · omega

/-- The triples that are compared, in the order of the search. -/
def comparedTriples (ipType : IpType) (ipDevs : List IpType) (p : DvfsPlatform) : List Triple :=
  ((memFreqsDown 3).filter fun mem => !decide ((fpsDeadline : Rat) < p.devTime ipDevs mem)).flatMap
    fun mem => ((Search.down (coreDvfsStates - 1) p.lowestCpu).filter fun cpu =>
      !decide ((fpsDeadline : Rat) < p.cpuTime mem cpu + p.devTime ipDevs mem)).flatMap fun cpu =>
        ((Search.down (ipDvfsStates - 1) (p.lowestIp ipType)).filter fun ip =>
          !decide ((fpsDeadline : Rat) < p.tripleTime ipType ipDevs ⟨mem, cpu, ip⟩)).map fun ip =>
            ⟨mem, cpu, ip⟩

theorem CoreMeasured.cpuTime_persists (measured : p.CoreMeasured) {mem : Rat}
    (fit : p.devTime ipDevs mem ≤ fpsDeadline) {cpu cpu' : Int} (less : cpu' < cpu)
    (lower : p.cpuTime mem cpu' + p.devTime ipDevs mem ≤ fpsDeadline) :
    p.cpuTime mem cpu + p.devTime ipDevs mem ≤ fpsDeadline := by
  have freq := CoreDvfs.getCoreFreqAt_pos
  have ratio (index : Int) : 0 ≤ p.lastFrequency .cpu / CoreDvfs.getCoreFreqAt index :=
    div_nonneg measured.freq.le (freq index).le
  -- A time below zero, as more stalls than cycles give, never makes the core late.
  by_cases base : 0 ≤ p.cpuBaseTime mem
  · have faster : p.cpuTime mem cpu ≤ p.cpuTime mem cpu' :=
      mul_le_mul_of_nonneg_left (div_le_div_of_nonneg_left measured.freq.le (freq cpu')
        (CoreDvfs.getCoreFreqAt_mono less.le)) base
    linarith
  · have below : p.cpuTime mem cpu ≤ 0 :=
      mul_nonpos_of_nonpos_of_nonneg (not_le.mp base).le (ratio cpu)
    linarith

theorem leastTriple_eq (measured : p.Measured ipType) (core : p.CoreMeasured)
    (devices : ∀ dev ∈ ipDevs, dev.isDevice = true) :
    p.leastTriple ipType ipDevs = (p.comparedTriples ipType ipDevs).foldl
      (Search.keep (fun energy least => decide (energy < least))
        fun t => p.tripleEnergy ipType ipDevs t) (startEnergy, startTriple) := by
  simp only [leastTriple, Search.forBreak, comparedTriples, List.foldl_flatMap, List.foldl_map]
  rw [Search.takeWhile_eq_filter (devTime_persists devices 3)]
  refine List.foldl_ext _ _ _ fun best mem member => ?_
  obtain ⟨searched, fit⟩ := List.mem_filter.mp member
  simp only [Bool.not_eq_true', decide_eq_false_iff_not, not_lt] at fit
  have positive := (setMemFreq_memFreqsDown (p := p) le_rfl searched).1
  rw [Search.takeWhile_eq_filter]
  · refine List.foldl_ext _ _ _ fun best cpu _ => ?_
    rw [Search.takeWhile_eq_filter]
    -- A state of the accelerator that takes too long is followed by lower ones.
    refine (Search.down_falling _ _).imp fun {ip ip'} less lower => ?_
    simp only [Bool.not_eq_true', decide_eq_false_iff_not, not_lt] at lower ⊢
    exact (add_le_add le_rfl (measured.ipTime_anti positive less.le)).trans lower
  · refine (Search.down_falling _ _).imp fun {cpu cpu'} less lower => ?_
    simp only [Bool.not_eq_true', decide_eq_false_iff_not, not_lt] at lower ⊢
    exact core.cpuTime_persists fit less lower

theorem mem_comparedTriples (measured : p.Measured ipType) {t : Triple} :
    t ∈ p.comparedTriples ipType ipDevs ↔
      p.TripleInTime ipType ipDevs t ∧ p.DevicesInTime ipDevs t := by
  simp only [comparedTriples, List.mem_flatMap, List.mem_filter, List.mem_map, Search.mem_down,
    Bool.not_eq_true', decide_eq_false_iff_not, not_lt, DevicesInTime]
  constructor
  · rintro ⟨mem, ⟨searched, fit⟩, cpu, ⟨⟨cpuLow, cpuHigh⟩, -⟩, ip, ⟨⟨ipLow, ipHigh⟩, inTime⟩, rfl⟩
    exact ⟨⟨⟨searched, cpuLow, cpuHigh, ipLow, ipHigh⟩, inTime⟩, fit⟩
  · rintro ⟨⟨⟨searched, cpuLow, cpuHigh, ipLow, ipHigh⟩, inTime⟩, fit⟩
    have positive := (setMemFreq_memFreqsDown (p := p) le_rfl searched).1
    have rest := measured.ipTime_nonneg positive t.ip
    have part : p.cpuTime t.mem t.cpu + p.devTime ipDevs t.mem ≤ fpsDeadline := by
      unfold tripleTime at inTime
      linarith
    exact ⟨t.mem, ⟨searched, fit⟩, t.cpu, ⟨⟨cpuLow, cpuHigh⟩, part⟩, t.ip,
      ⟨⟨ipLow, ipHigh⟩, inTime⟩, rfl⟩

theorem comparedTriples_ordered (ipType : IpType) (ipDevs : List IpType) (p : DvfsPlatform) :
    (p.comparedTriples ipType ipDevs).Pairwise TripleBefore := by
  refine List.pairwise_flatMap.mpr ⟨fun mem _ =>
    List.pairwise_flatMap.mpr ⟨fun cpu _ => ?_, ?_⟩, ?_⟩
  · refine List.pairwise_map.mpr (((Search.down_falling _ _).filter _).imp fun less => ?_)
    exact .inr ⟨rfl, .inr ⟨rfl, less⟩⟩
  · refine ((Search.down_falling _ _).filter _).imp fun {cpu cpu'} less t here t' there => ?_
    obtain ⟨ip, -, rfl⟩ := List.mem_map.mp here
    obtain ⟨ip', -, rfl⟩ := List.mem_map.mp there
    exact .inr ⟨rfl, .inl less⟩
  · refine ((memFreqsDown_falling 3).filter _).imp fun {mem mem'} less t here t' there => ?_
    obtain ⟨cpu, -, inner⟩ := List.mem_flatMap.mp here
    obtain ⟨ip, -, rfl⟩ := List.mem_map.mp inner
    obtain ⟨cpu', -, inner'⟩ := List.mem_flatMap.mp there
    obtain ⟨ip', -, rfl⟩ := List.mem_map.mp inner'
    exact .inl less

/-- A triple with its indices moved up into the tables. -/
def Triple.inTable (t : Triple) : Triple :=
  ⟨t.mem, max t.cpu 0, max t.ip 0⟩

theorem clampIndex_max_zero {states : Int} (some_state : 0 < states) (index : Int) :
    clampIndex states (max index 0) = clampIndex states index := by
  unfold clampIndex
  split <;> split <;> omega

theorem tripleTime_inTable (t : Triple) :
    p.tripleTime ipType ipDevs t.inTable = p.tripleTime ipType ipDevs t := by
  simp only [tripleTime, cpuTime, ipTime, CoreDvfs.getCoreFreqAt, IpDvfs.getIPFreqAt,
    Triple.inTable, clampIndex_max_zero (by decide : (0 : Int) < coreDvfsStates),
    clampIndex_max_zero (by decide : (0 : Int) < ipDvfsStates)]

theorem tripleEnergy_inTable (t : Triple) :
    p.tripleEnergy ipType ipDevs t.inTable = p.tripleEnergy ipType ipDevs t := by
  simp only [tripleEnergy, cpuEnergy, ipEnergy, CoreDvfs.getCoreFreqAt, IpDvfs.getIPFreqAt,
    Triple.inTable, clampIndex_max_zero (by decide : (0 : Int) < coreDvfsStates),
    clampIndex_max_zero (by decide : (0 : Int) < ipDvfsStates)]

theorem Triple.inTable_before (t : Triple) : 0 ≤ t.cpu ∧ 0 ≤ t.ip ∨ TripleBefore t.inTable t := by
  by_cases cpu : 0 ≤ t.cpu
  · by_cases ip : 0 ≤ t.ip
    · exact .inl ⟨cpu, ip⟩
    · refine .inr (.inr ⟨rfl, .inr ⟨?_, ?_⟩⟩) <;> simp only [inTable] <;> omega
  · refine .inr (.inr ⟨rfl, .inl ?_⟩)
    simp only [inTable]
    omega

theorem TripleInTime.inTable {t : Triple} (inTime : p.TripleInTime ipType ipDevs t) :
    p.TripleInTime ipType ipDevs t.inTable where
  mem := inTime.mem
  cpuLow := inTime.cpuLow.trans (le_max_left _ _)
  cpuHigh := max_le inTime.cpuHigh (by decide)
  ipLow := inTime.ipLow.trans (le_max_left _ _)
  ipHigh := max_le inTime.ipHigh (by decide)
  inTime := (tripleTime_inTable t).trans_le inTime.inTime

/-- What the search ends with: where it started, or a triple of the tables that is least. -/
theorem leastTriple_spec (measured : p.Measured ipType) (core : p.CoreMeasured)
    (devices : ∀ dev ∈ ipDevs, dev.isDevice = true) :
    (p.leastTriple ipType ipDevs = (startEnergy, startTriple) ∧
      ∀ t, p.TripleInTime ipType ipDevs t → p.DevicesInTime ipDevs t →
        startEnergy ≤ p.tripleEnergy ipType ipDevs t) ∨
    ∃ t, p.leastTriple ipType ipDevs = (p.tripleEnergy ipType ipDevs t, t) ∧ 0 ≤ t.cpu ∧ 0 ≤ t.ip ∧
      p.TripleInTime ipType ipDevs t ∧ p.DevicesInTime ipDevs t ∧
      ∀ t', p.TripleInTime ipType ipDevs t' → p.DevicesInTime ipDevs t' →
        p.tripleEnergy ipType ipDevs t ≤ p.tripleEnergy ipType ipDevs t' := by
  rw [leastTriple_eq measured core devices]
  obtain ⟨kept, dearer⟩ | ⟨t, before, after, split, kept, -, passed, stayed⟩ :=
    Search.foldl_keep Search.replaces_lt (fun t => p.tripleEnergy ipType ipDevs t)
      (startEnergy, startTriple) (p.comparedTriples ipType ipDevs)
  · refine .inl ⟨kept, fun t inTime fit => ?_⟩
    have left := dearer t ((mem_comparedTriples measured).mpr ⟨inTime, fit⟩)
    exact not_lt.mp (of_decide_eq_false left)
  · have member : t ∈ p.comparedTriples ipType ipDevs := by simp [split]
    obtain ⟨inTime, fit⟩ := (mem_comparedTriples measured).mp member
    -- The same frequencies are searched first with indices of the tables.
    have low : 0 ≤ t.cpu ∧ 0 ≤ t.ip := by
      refine t.inTable_before.resolve_right fun first => ?_
      have table_member := (mem_comparedTriples measured).mpr ⟨inTime.inTable, fit⟩
      have ordered := comparedTriples_ordered ipType ipDevs p
      rw [split] at table_member ordered
      have front := Search.mem_front (fun _ _ => TripleBefore.asymm) ordered table_member first
      have cheaper := of_decide_eq_true (passed _ front)
      exact absurd (tripleEnergy_inTable t) cheaper.ne'
    refine .inr ⟨t, kept, low.1, low.2, inTime, fit, fun t' inTime' fit' => ?_⟩
    have other := (mem_comparedTriples measured).mpr ⟨inTime', fit'⟩
    rw [split, List.mem_append, List.mem_cons] at other
    obtain earlier | rfl | later := other
    · exact (of_decide_eq_true (passed t' earlier)).le
    · exact le_rfl
    · exact not_lt.mp (of_decide_eq_false (stayed t' later))

/-- The platform at a memory frequency and states of the core and an accelerator. -/
def atTriple (ipType : IpType) (t : Triple) (p : DvfsPlatform) : DvfsPlatform :=
  { p with
    memFreq := t.mem
    core := { p.core with dvfsState := t.cpu }
    ip := Function.update p.ip ipType { p.ip ipType with dvfsState := t.ip } }

theorem atTriple_injective {t t' : Triple}
    (same : p.atTriple ipType t = p.atTriple ipType t') : t = t' := by
  have mem := congrArg DvfsPlatform.memFreq same
  have cpu := congrArg (fun q => q.core.dvfsState) same
  have ip := congrArg (fun q => (q.ip ipType).dvfsState) same
  simp only [atTriple, Function.update_self] at mem cpu ip
  cases t
  cases t'
  simp_all

/-- A triple that meets the deadline with no more energy than any other one. -/
structure LeastTriple (ipType : IpType) (ipDevs : List IpType) (p : DvfsPlatform)
    (t : Triple) : Prop where
  inTime : p.TripleInTime ipType ipDevs t
  least : ∀ t', p.TripleInTime ipType ipDevs t' →
    p.tripleEnergy ipType ipDevs t ≤ p.tripleEnergy ipType ipDevs t'

/-- Some triple meets the deadline with less energy than the search starts from. -/
def Affordable (ipType : IpType) (ipDevs : List IpType) (p : DvfsPlatform) : Prop :=
  ∃ t, p.TripleInTime ipType ipDevs t ∧ p.tripleEnergy ipType ipDevs t < startEnergy

/--
The search ends with states of the tables that are searched, at a triple of least energy if any
triple in time is affordable.
-/
def FindsLeastTriple (ipType : IpType) (p : DvfsPlatform) : Prop :=
  ∃ t : Triple, 0 ≤ t.cpu ∧ 0 ≤ t.ip ∧ p.Searched ipType t ∧
    p.dvfsDynamicProg2 p.getIPAccsInFlow p.getIPDevsInFlow = .ok (p.atTriple ipType t) ∧
    (p.Affordable ipType p.getIPDevsInFlow → p.LeastTriple ipType p.getIPDevsInFlow t)

/--
The accelerator comes second in the flow, and the devices alone are in time at a triple of least
energy, or the search starts from one.
-/
def LeastSurvivesBreaks (ipType : IpType) (p : DvfsPlatform) : Prop :=
  p.getIPAccsInFlow = [.cpu, ipType] ∧
    (p.Affordable ipType p.getIPDevsInFlow →
      ∃ t, p.LeastTriple ipType p.getIPDevsInFlow t ∧
        (p.DevicesInTime p.getIPDevsInFlow t ∨ t = startTriple))

theorem dvfsDynamicProg2_eq (measured : p.Measured ipType) (core : p.CoreMeasured) {energy : Rat}
    {t : Triple} (ended : p.leastTriple ipType ipDevs = (energy, t)) (cpu : 0 ≤ t.cpu)
    (ip : 0 ≤ t.ip) (searched : p.Searched ipType t) :
    p.dvfsDynamicProg2 [.cpu, ipType] ipDevs = .ok (p.atTriple ipType t) := by
  have cpuHigh := searched.cpuHigh
  have ipHigh := searched.ipHigh
  simp only [dvfsDynamicProg2, List.getD_cons_succ, List.getD_cons_zero, measured.hasInstance,
    Bool.not_true, Bool.false_eq_true, if_false, measured.time.ne', core.time.ne', or_self, ended,
    (setMemFreq_memFreqsDown le_rfl searched.mem).2, bind, Except.bind, setCoreFreqInd,
      setIPFreqInd]
  rw [if_pos ⟨by omega, by omega⟩]
  simp only
  rw [if_pos ⟨by omega, by omega⟩]
  rfl

theorem startTriple_searched (core : p.core.InRange) (ip : (p.ip ipType).InRange) :
    p.Searched ipType startTriple := by
  obtain ⟨-, coreHigh⟩ := core
  obtain ⟨-, ipHigh⟩ := ip
  refine ⟨maxMemFreq_searched (by norm_num), ?_, le_rfl, ?_, le_rfl⟩
  · simp only [lowestCpu, startTriple]
    omega
  · simp only [lowestIp, startTriple]
    omega

theorem DevicesInTime.start (devices : ∀ dev ∈ ipDevs, dev.isDevice = true) {t : Triple}
    (searched : p.Searched ipType t) (fit : p.DevicesInTime ipDevs t) :
    p.DevicesInTime ipDevs startTriple := by
  obtain ⟨tenths, -, high, same⟩ := mem_memFreqsDown.mp searched.mem
  have cast : (tenths : Rat) ≤ 10 := by exact_mod_cast high
  refine (devTime_anti devices ?_).trans fit
  simp only [startTriple, maxMemFreq]
  linarith

theorem getIPDevsInFlow_devices (p : DvfsPlatform) :
    ∀ dev ∈ p.getIPDevsInFlow, dev.isDevice = true :=
  fun _ member => (List.mem_filter.mp member).2

theorem CoreMeasured.cpuTime_nonneg (core : p.CoreMeasured) (mem_positive : 0 < p.memFreq)
    (some_stalls : 0 ≤ p.getProfileFractionOfMemInst.getD (20 / 100))
    (no_more : p.getProfileFractionOfMemInst.getD (20 / 100) ≤ 1) {mem : Rat}
    (positive : 0 < mem) (cpu : Int) : 0 ≤ p.cpuTime mem cpu := by
  have waiting := mul_nonneg some_stalls core.time.le
  have computing := mul_nonneg (sub_nonneg.mpr no_more) core.time.le
  have slower := mul_nonneg waiting (div_pos mem_positive positive).le
  have base : 0 ≤ p.cpuBaseTime mem := by
    simp only [cpuBaseTime, memScaledTimeCPU]
    linarith
  exact mul_nonneg base (div_pos core.freq (CoreDvfs.getCoreFreqAt_pos cpu)).le

theorem LeastSurvivesBreaks.of_profile (order : p.getIPAccsInFlow = [.cpu, ipType])
    (measured : p.Measured ipType) (core : p.CoreMeasured)
    (some_stalls : 0 ≤ p.getProfileFractionOfMemInst.getD (20 / 100))
    (no_more : p.getProfileFractionOfMemInst.getD (20 / 100) ≤ 1) :
    p.LeastSurvivesBreaks ipType := by
  refine ⟨order, fun ⟨cheap, cheap_inTime, less⟩ => ?_⟩
  -- The devices are in time whenever the sum with the core and the accelerator is.
  have fits (t : Triple) (inTime : p.TripleInTime ipType p.getIPDevsInFlow t) :
      p.DevicesInTime p.getIPDevsInFlow t := by
    have positive := (setMemFreq_memFreqsDown (p := p) le_rfl inTime.mem).1
    have cpu := core.cpuTime_nonneg measured.mem some_stalls no_more positive t.cpu
    have ip := measured.ipTime_nonneg positive t.ip
    have sum := inTime.inTime
    unfold tripleTime at sum
    unfold DevicesInTime
    linarith
  obtain ⟨-, dearer⟩ | ⟨found, -, -, -, inTime, fit, least⟩ :=
    leastTriple_spec measured core p.getIPDevsInFlow_devices
  · exact absurd less (not_lt.mpr (dearer cheap cheap_inTime (fits cheap cheap_inTime)))
  · exact ⟨found, ⟨inTime, fun t inTime => least t inTime (fits t inTime)⟩, .inl fit⟩

/--
The search ends in the tables and finds a triple of least energy if and only if no break cuts off
all of them, for a flow whose accelerator comes second.
-/
theorem dvfsDynamicProg2_finds_iff (shape : p.getIPAccsInFlow.Perm [.cpu, ipType])
    (measured : p.Measured ipType) (coreMeasured : p.CoreMeasured) (core : p.core.InRange)
    (ip : (p.ip ipType).InRange) :
    p.FindsLeastTriple ipType ↔ p.LeastSurvivesBreaks ipType := by
  have devices := p.getIPDevsInFlow_devices
  by_cases order : p.getIPAccsInFlow = [.cpu, ipType]
  · obtain ⟨kept, dearer⟩ | ⟨found, kept, cpuLow, ipLow, inTime, fit, least⟩ :=
      leastTriple_spec measured coreMeasured devices
    · have searched := startTriple_searched core ip
      have ran := dvfsDynamicProg2_eq measured coreMeasured kept (by decide) (by decide) searched
      constructor
      · rintro ⟨t, -, -, -, ended, least⟩
        rw [order, ran] at ended
        obtain rfl := atTriple_injective (Except.ok.inj ended)
        exact ⟨order, fun affordable => ⟨_, least affordable, .inr rfl⟩⟩
      · rintro ⟨-, survives⟩
        refine ⟨startTriple, by decide, by decide, searched, order ▸ ran, fun affordable => ?_⟩
        obtain ⟨t, least, fit | rfl⟩ := survives affordable
        · -- A triple that was compared would have been kept.
          obtain ⟨cheap, inTime, less⟩ := affordable
          have reached := (dearer t least.inTime fit).trans (least.least cheap inTime)
          exact absurd less (not_lt.mpr reached)
        · exact least
    · have ran := dvfsDynamicProg2_eq measured coreMeasured kept cpuLow ipLow inTime.toSearched
      constructor
      · rintro ⟨t, -, -, -, ended, least⟩
        rw [order, ran] at ended
        obtain rfl := atTriple_injective (Except.ok.inj ended)
        exact ⟨order, fun affordable => ⟨_, least affordable, .inl fit⟩⟩
      · rintro ⟨-, survives⟩
        refine ⟨found, cpuLow, ipLow, inTime.toSearched, order ▸ ran, fun affordable => ?_⟩
        obtain ⟨t, least_t, reached⟩ := survives affordable
        have compared : p.DevicesInTime p.getIPDevsInFlow t := by
          obtain fit_t | rfl := reached
          · exact fit_t
          · exact DevicesInTime.start devices inTime.toSearched fit
        exact ⟨inTime, fun t' inTime' =>
          (least t least_t.inTime compared).trans (least_t.least t' inTime')⟩
  · -- The core has no instance that the search could set.
    have swapped := (List.perm_pair.mp shape).resolve_left order
    constructor
    · rintro ⟨t, -, -, -, ended, -⟩
      rw [swapped] at ended
      cases ended
    · exact fun survives => absurd survives.1 order

theorem videoFrame_measured (flow : Flow) :
    (videoFrame 1 flow).Measured .vd ∧ (videoFrame 1 flow).CoreMeasured :=
  ⟨⟨rfl, by simp [videoFrame], by norm_num [videoFrame], by simp [videoFrame]⟩,
    by simp [videoFrame], by simp [videoFrame]⟩

/-- The statement for a video that waits for the memory a fifth of the time. -/
theorem dvfsDynamicProg2_finds_video :
    (videoFrame 1 ⟨[.cpu, .vd, .dc], by simp⟩).getIPAccsInFlow.Perm [.cpu, .vd] ∧
      (videoFrame 1 ⟨[.cpu, .vd, .dc], by simp⟩).Measured .vd ∧
      (videoFrame 1 ⟨[.cpu, .vd, .dc], by simp⟩).CoreMeasured ∧
      (videoFrame 1 ⟨[.cpu, .vd, .dc], by simp⟩).core.InRange ∧
      ((videoFrame 1 ⟨[.cpu, .vd, .dc], by simp⟩).ip .vd).InRange ∧
      (videoFrame 1 ⟨[.cpu, .vd, .dc], by simp⟩).FindsLeastTriple .vd := by
  obtain ⟨measured, core⟩ := videoFrame_measured ⟨[.cpu, .vd, .dc], by simp⟩
  have order : (videoFrame 1 ⟨[.cpu, .vd, .dc], by simp⟩).getIPAccsInFlow = [.cpu, .vd] := by
    decide
  have shape := List.Perm.of_eq order
  have core_range : (videoFrame 1 ⟨[.cpu, .vd, .dc], by simp⟩).core.InRange :=
    ⟨by decide, by decide⟩
  have ip_range : ((videoFrame 1 ⟨[.cpu, .vd, .dc], by simp⟩).ip .vd).InRange :=
    ⟨by decide, by decide⟩
  refine ⟨shape, measured, core, core_range, ip_range, ?_⟩
  exact (dvfsDynamicProg2_finds_iff shape measured core core_range ip_range).mpr
    (.of_profile order measured core (by decide +kernel) (by decide +kernel))

/-- A video whose profile counts four stalls in each cycle, after a late frame from the network. -/
def stalledFrame : DvfsPlatform :=
  { videoFrame (3 / 10) ⟨[.cpu, .vd, .nw], by simp⟩ with
    lastTimeTook := fun
      | .cpu => 10
      | .nw => 20
      | _ => 1
    profileMemFullStalls := 4000
    profileActiveCycles := 1000 }

/-- The time of the core is below zero, and makes up for devices that the search gives up on. -/
theorem late_devices_cut_off : ¬stalledFrame.FindsLeastTriple .vd := by
  rintro ⟨t, -, -, -, ended, least⟩
  have found : (stalledFrame.dvfsDynamicProg2 stalledFrame.getIPAccsInFlow
      stalledFrame.getIPDevsInFlow).toOption.map
        (fun q => (q.memFreq, q.core.dvfsState, (q.ip .vd).dvfsState)) = some (1, 12, 6) := by
    decide +kernel
  rw [ended] at found
  have same := Option.some.inj found
  simp only [atTriple, Function.update_self] at same
  obtain ⟨mem, cpu, ip⟩ := t
  simp only [Prod.mk.injEq] at same
  obtain ⟨rfl, rfl, rfl⟩ := same
  have inTime : stalledFrame.TripleInTime .vd stalledFrame.getIPDevsInFlow ⟨1, 8, 6⟩ :=
    ⟨⟨mem_memFreqsDown.mpr ⟨10, by norm_num, le_rfl, by norm_num⟩, by decide, by decide, by decide,
      by decide⟩, by decide +kernel⟩
  have lower := (least ⟨_, inTime, by decide +kernel⟩).least _ inTime
  exact absurd lower (by decide +kernel)

end DvfsPlatform

end GemDroid
