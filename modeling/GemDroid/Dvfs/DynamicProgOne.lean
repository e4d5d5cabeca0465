import Mathlib.Tactic.IntervalCases
import GemDroid.Dvfs.DynamicProg

/-! What the search over memory and accelerator frequencies finds. -/

namespace GemDroid

namespace DvfsPlatform

variable {p : DvfsPlatform} {ipType : IpType} {ipDevs : List IpType}

/-- What was measured of an accelerator and the memory is positive. -/
structure Measured (ipType : IpType) (p : DvfsPlatform) : Prop where
  accelerator : ipType.isScaled = true
  time : 0 < p.lastTimeTook ipType
  freq : 0 < p.lastFrequency ipType
  mem : 0 < p.memFreq

variable {mem : Rat} {pair pair' : Rat × Int}

theorem mem_memFreqsDown {lowest : Int} :
    mem ∈ memFreqsDown lowest ↔ ∃ t : Int, lowest ≤ t ∧ t ≤ 10 ∧ mem = t / 10 := by
  simp only [memFreqsDown, List.mem_map, Search.mem_down, and_assoc]
  exact exists_congr fun t => by simp [eq_comm]

theorem memFreqsDown_falling (lowest : Int) :
    (memFreqsDown lowest).Pairwise fun mem mem' => mem' < mem := by
  rw [memFreqsDown, List.pairwise_map]
  refine (Search.down_falling 10 lowest).imp fun {i j} less => ?_
  have cast : (j : Rat) < i := by exact_mod_cast less
  linarith

theorem setMemFreq_memFreqsDown {lowest : Int} (bottom : 3 ≤ lowest)
    (searched : mem ∈ memFreqsDown lowest) :
    0 < mem ∧ p.setMemFreq mem = .ok { p with memFreq := mem } := by
  obtain ⟨t, above, below, rfl⟩ := mem_memFreqsDown.mp searched
  have low : (3 : Rat) ≤ t := by exact_mod_cast bottom.trans above
  have high : (t : Rat) ≤ 10 := by exact_mod_cast below
  refine ⟨by linarith, if_pos ⟨?_, ?_⟩⟩
  · unfold minMemFreq epsilon
    linarith
  · unfold maxMemFreq epsilon
    linarith

theorem memScaledTime_device {dev : IpType} (device : dev.isDevice = true) {mem' : Rat}
    (le : mem ≤ mem') (index : Int) :
    p.memScaledTime dev (getMaxBandwidth mem') index ≤
      p.memScaledTime dev (getMaxBandwidth mem) index := by
  have bandwidth : getMaxBandwidth mem ≤ getMaxBandwidth mem' := by
    unfold getMaxBandwidth
    linarith
  cases dev with
  | dc | cam => exact deviceTime_anti bandwidth
  | nw | snd | mic | mmcIn | mmcOut => exact le_rfl
  | cpu | vd | ve | ad | ae | img | gpu | dma | cache =>
    simp [IpType.isDevice, IpType.code] at device

theorem devTime_anti (devices : ∀ dev ∈ ipDevs, dev.isDevice = true) {mem' : Rat}
    (le : mem ≤ mem') : p.devTime ipDevs mem' ≤ p.devTime ipDevs mem := by
  -- The sums grow alike from any two times in this order.
  have sums (time time' : Rat) (start : time' ≤ time) :
      ipDevs.foldl (fun time dev =>
        time + p.memScaledTime dev (getMaxBandwidth mem') (p.ip .dc).dvfsState) time' ≤
      ipDevs.foldl (fun time dev =>
        time + p.memScaledTime dev (getMaxBandwidth mem) (p.ip .dc).dvfsState) time := by
    induction ipDevs generalizing time time' with
    | nil => exact start
    | cons dev devs ih =>
      obtain ⟨first, rest⟩ := List.forall_mem_cons.mp devices
      exact ih rest _ _ (add_le_add start (memScaledTime_device first le _))
  exact sums 0 0 le_rfl

/-- An accelerator takes some time at every frequency. -/
theorem Measured.ipBaseTime_nonneg (measured : p.Measured ipType)
    (positive : 0 < mem) : 0 ≤ p.ipBaseTime ipType mem := by
  obtain ⟨accelerator, time, freq, mem_positive⟩ := measured
  have bandwidth : 0 < getMaxBandwidth mem := by
    unfold getMaxBandwidth
    linarith
  have processing : 0 ≤ p.processingTime ipType (getMaxBandwidth mem) (p.ip ipType).dvfsState := by
    have freq_positive := IpDvfs.getIPFreqAt_pos (p.ip ipType).dvfsState
    have base : 0 ≤ IpDvfs.getTimeEst (p.lastTimeTook ipType) (p.lastFrequency ipType)
        (IpDvfs.getIPFreqAt (p.ip ipType).dvfsState) := by
      unfold IpDvfs.getTimeEst
      positivity
    have size : (0 : Rat) ≤ ipType.processingSize := by
      cases ipType <;> norm_num [IpType.processingSize, vidCodingRatio, audCodingRatio]
    have latency : (0 : Rat) ≤ ipType.processingLatency := by
      cases ipType <;> norm_num [IpType.processingLatency]
    have line : (0 : Rat) ≤ cacheLineSize := by norm_num [cacheLineSize]
    simp only [processingTime]
    split
    · exact base
    · positivity
  have scaled : 0 ≤ p.memScaledTime ipType (getMaxBandwidth mem) (p.ip ipType).dvfsState := by
    cases ipType with
    | vd | ve | ad | ae | img => exact processing
    | gpu =>
      have ratio : 0 ≤ p.memFreq / getFreqForBandwidth (getMaxBandwidth mem) := by
        unfold getFreqForBandwidth
        positivity
      simp only [memScaledTime]
      nlinarith
    | cpu | dc | nw | snd | mic | cam | mmcIn | mmcOut | dma | cache =>
      simp [IpType.isScaled, IpType.code] at accelerator
  simp only [ipBaseTime]
  split
  · rename_i lower
    have longer : 0 ≤ p.lastMemFreq - mem := by linarith
    positivity
  · exact scaled

theorem Measured.ipTime_anti (measured : p.Measured ipType) (positive : 0 < mem) {i j : Int}
    (le : i ≤ j) : p.ipTime ipType mem j ≤ p.ipTime ipType mem i := by
  have base := measured.ipBaseTime_nonneg positive
  have freq := measured.freq
  exact div_le_div_of_nonneg_left (mul_nonneg base freq.le) (IpDvfs.getIPFreqAt_pos i)
    (IpDvfs.getIPFreqAt_mono le)

theorem Measured.ipTime_nonneg (measured : p.Measured ipType) (positive : 0 < mem)
    (i : Int) : 0 ≤ p.ipTime ipType mem i :=
  div_nonneg (mul_nonneg (measured.ipBaseTime_nonneg positive) measured.freq.le)
    (IpDvfs.getIPFreqAt_pos i).le

/-- A pair that is searched and meets the deadline. -/
structure PairInTime (ipType : IpType) (ipDevs : List IpType) (p : DvfsPlatform)
    (pair : Rat × Int) : Prop where
  mem : pair.1 ∈ memFreqsDown 6
  low : p.lowestIp ipType ≤ pair.2
  high : pair.2 ≤ ipDvfsStates - 1
  inTime : p.pairTime ipType ipDevs pair ≤ fpsDeadline

/-- A pair is searched before another one. -/
def PairBefore (pair pair' : Rat × Int) : Prop :=
  pair'.1 < pair.1 ∨ pair'.1 = pair.1 ∧ pair'.2 < pair.2

/-- The pairs that meet the deadline, in the order of the search. -/
def pairsInTime (ipType : IpType) (ipDevs : List IpType) (p : DvfsPlatform) : List (Rat × Int) :=
  ((memFreqsDown 6).filter fun mem => !decide ((fpsDeadline : Rat) < p.devTime ipDevs mem)).flatMap
    fun mem => ((Search.down (ipDvfsStates - 1) (p.lowestIp ipType)).filter fun ip =>
      !decide ((fpsDeadline : Rat) < p.pairTime ipType ipDevs (mem, ip))).map fun ip => (mem, ip)

theorem devTime_persists (devices : ∀ dev ∈ ipDevs, dev.isDevice = true) (lowest : Int) :
    (memFreqsDown lowest).Pairwise fun mem mem' =>
      (!decide ((fpsDeadline : Rat) < p.devTime ipDevs mem')) = true →
        (!decide ((fpsDeadline : Rat) < p.devTime ipDevs mem)) = true := by
  refine (memFreqsDown_falling lowest).imp fun {mem mem'} less fit => ?_
  simp only [Bool.not_eq_true', decide_eq_false_iff_not, not_lt] at fit ⊢
  exact (devTime_anti devices less.le).trans fit

theorem leastPair_eq (measured : p.Measured ipType)
    (devices : ∀ dev ∈ ipDevs, dev.isDevice = true) :
    p.leastPair ipType ipDevs = (p.pairsInTime ipType ipDevs).foldl
      (Search.keep (fun energy least => decide (energy ≤ least))
        fun pair => p.pairEnergy ipType ipDevs pair)
      (startEnergy, maxMemFreq, ipDvfsStates - 1) := by
  simp only [leastPair, Search.forBreak, pairsInTime, List.foldl_flatMap, List.foldl_map]
  rw [Search.takeWhile_eq_filter (devTime_persists devices 6)]
  refine List.foldl_ext _ _ _ fun best mem member => ?_
  have positive := (setMemFreq_memFreqsDown (p := p) (by norm_num)
    (List.mem_filter.mp member).1).1
  rw [Search.takeWhile_eq_filter]
  -- A state that takes too long is followed by lower ones, which take longer.
  refine (Search.down_falling _ _).imp fun {ip ip'} less fit => ?_
  simp only [Bool.not_eq_true', decide_eq_false_iff_not, not_lt] at fit ⊢
  exact (add_le_add le_rfl (measured.ipTime_anti positive less.le)).trans fit

theorem mem_pairsInTime (measured : p.Measured ipType) :
    pair ∈ p.pairsInTime ipType ipDevs ↔ p.PairInTime ipType ipDevs pair := by
  simp only [pairsInTime, List.mem_flatMap, List.mem_filter, List.mem_map, Search.mem_down,
    Bool.not_eq_true', decide_eq_false_iff_not, not_lt]
  constructor
  · rintro ⟨mem, ⟨searched, -⟩, ip, ⟨⟨low, high⟩, inTime⟩, rfl⟩
    exact ⟨searched, low, high, inTime⟩
  · rintro ⟨searched, low, high, inTime⟩
    have positive := (setMemFreq_memFreqsDown (p := p) (by norm_num) searched).1
    have rest := measured.ipTime_nonneg positive pair.2
    have devices : p.devTime ipDevs pair.1 ≤ fpsDeadline := by
      unfold pairTime at inTime
      linarith
    exact ⟨pair.1, ⟨searched, devices⟩, pair.2, ⟨⟨low, high⟩, inTime⟩, rfl⟩

theorem pairsInTime_ordered (ipType : IpType) (ipDevs : List IpType) (p : DvfsPlatform) :
    (p.pairsInTime ipType ipDevs).Pairwise PairBefore := by
  refine List.pairwise_flatMap.mpr ⟨fun mem _ => ?_, ?_⟩
  · refine List.pairwise_map.mpr (((Search.down_falling _ _).filter _).imp fun less => ?_)
    exact .inr ⟨rfl, less⟩
  · refine ((memFreqsDown_falling 6).filter _).imp fun {mem mem'} less pair here pair' there => ?_
    obtain ⟨ip, -, rfl⟩ := List.mem_map.mp here
    obtain ⟨ip', -, rfl⟩ := List.mem_map.mp there
    exact .inl less

/-- A pair that meets the deadline with no more energy than any other one. -/
structure LeastPair (ipType : IpType) (ipDevs : List IpType) (p : DvfsPlatform)
    (pair : Rat × Int) : Prop where
  inTime : p.PairInTime ipType ipDevs pair
  least : ∀ pair', p.PairInTime ipType ipDevs pair' →
    p.pairEnergy ipType ipDevs pair ≤ p.pairEnergy ipType ipDevs pair'

/-- The platform at a memory frequency and a state of an accelerator. -/
def atPair (ipType : IpType) (pair : Rat × Int) (p : DvfsPlatform) : DvfsPlatform :=
  { p with
    memFreq := pair.1
    ip := Function.update p.ip ipType { p.ip ipType with dvfsState := pair.2 } }

/--
The search ends with a state of the table, at a pair of least energy if any pair meets the
deadline.
-/
def FindsLeastPair (ipType : IpType) (ipDevs : List IpType) (p : DvfsPlatform) : Prop :=
  ∃ pair : Rat × Int, 0 ≤ pair.2 ∧ pair.2 < ipDvfsStates ∧
    p.dvfsDynamicProg1 [ipType] ipDevs = .ok (p.atPair ipType pair) ∧
    ((∃ pair', p.PairInTime ipType ipDevs pair') → p.LeastPair ipType ipDevs pair)

/--
No pair meets the deadline; or the last pair of least energy has a state of the table and no more
energy than the search starts from; or all pairs have more, and the first one is of least energy.
-/
def LastLeastInTable (ipType : IpType) (ipDevs : List IpType) (p : DvfsPlatform) : Prop :=
  (∀ pair, ¬p.PairInTime ipType ipDevs pair) ∨
  (∃ pair, p.LeastPair ipType ipDevs pair ∧ 0 ≤ pair.2 ∧
    p.pairEnergy ipType ipDevs pair ≤ startEnergy ∧
    ∀ later, p.PairInTime ipType ipDevs later → PairBefore pair later →
      p.pairEnergy ipType ipDevs pair < p.pairEnergy ipType ipDevs later) ∨
  (p.LeastPair ipType ipDevs (maxMemFreq, ipDvfsStates - 1) ∧
    startEnergy < p.pairEnergy ipType ipDevs (maxMemFreq, ipDvfsStates - 1))

theorem PairBefore.asymm (before : PairBefore pair pair') :
    ¬PairBefore pair' pair := by
  obtain less | ⟨same, less⟩ := before
  · rintro (more | ⟨same, -⟩)
    · exact absurd less more.asymm
    · exact absurd same less.ne'
  · rintro (more | ⟨-, more⟩)
    · exact absurd same more.ne'
    · omega

/-- What the search ends with: where it started, or the last of the pairs of least energy. -/
theorem leastPair_spec (measured : p.Measured ipType)
    (devices : ∀ dev ∈ ipDevs, dev.isDevice = true) :
    (p.leastPair ipType ipDevs = (startEnergy, maxMemFreq, ipDvfsStates - 1) ∧
      ∀ pair, p.PairInTime ipType ipDevs pair →
        startEnergy < p.pairEnergy ipType ipDevs pair) ∨
    ∃ pair, p.leastPair ipType ipDevs = (p.pairEnergy ipType ipDevs pair, pair) ∧
      p.pairEnergy ipType ipDevs pair ≤ startEnergy ∧ p.LeastPair ipType ipDevs pair ∧
      ∀ later, p.PairInTime ipType ipDevs later → PairBefore pair later →
        p.pairEnergy ipType ipDevs pair < p.pairEnergy ipType ipDevs later := by
  rw [leastPair_eq measured devices]
  obtain ⟨kept, dearer⟩ | ⟨pair, before, after, split, kept, entered, passed, stayed⟩ :=
    Search.foldl_keep Search.replaces_le (fun pair => p.pairEnergy ipType ipDevs pair)
      (startEnergy, maxMemFreq, ipDvfsStates - 1) (p.pairsInTime ipType ipDevs)
  · refine .inl ⟨kept, fun pair inTime => ?_⟩
    have left := dearer pair ((mem_pairsInTime measured).mpr inTime)
    exact not_le.mp (of_decide_eq_false left)
  · have member : pair ∈ p.pairsInTime ipType ipDevs := by simp [split]
    have ordered := pairsInTime_ordered ipType ipDevs p
    rw [split] at ordered
    refine .inr ⟨pair, kept, of_decide_eq_true entered, ⟨(mem_pairsInTime measured).mp member, ?_⟩,
      ?_⟩
    · intro other inTime
      have other_member := (mem_pairsInTime measured).mpr inTime
      rw [split, List.mem_append, List.mem_cons] at other_member
      obtain earlier | rfl | later := other_member
      · exact of_decide_eq_true (passed other earlier)
      · exact le_rfl
      · exact (not_le.mp (of_decide_eq_false (stayed other later))).le
    · intro later inTime pair_first
      have later_member := (mem_pairsInTime measured).mpr inTime
      rw [split] at later_member
      -- A pair searched later stands behind this one in the list.
      have behind := Search.mem_back (fun _ _ => PairBefore.asymm) ordered later_member pair_first
      exact not_le.mp (of_decide_eq_false (stayed later behind))

theorem Measured.hasInstance (measured : p.Measured ipType) : ipType.hasInstance = true := by
  have accelerator := measured.accelerator
  cases ipType <;> first | rfl | simp [IpType.isScaled, IpType.code] at accelerator

theorem dvfsDynamicProg1_eq (measured : p.Measured ipType) (searched : isFixedApp p.appId = false)
    {energy : Rat} (ended : p.leastPair ipType ipDevs = (energy, pair))
    (mem : pair.1 ∈ memFreqsDown 6) :
    p.dvfsDynamicProg1 [ipType] ipDevs =
      if 0 ≤ pair.2 ∧ pair.2 < ipDvfsStates then .ok (p.atPair ipType pair)
      else .error .ipIndexOutOfRange := by
  have measured_time : p.lastTimeTook ipType ≠ 0 := measured.time.ne'
  simp only [dvfsDynamicProg1, List.headD_cons, measured.hasInstance, Bool.not_true,
    Bool.false_eq_true,
    if_false, measured_time, ended, searched, (setMemFreq_memFreqsDown (by norm_num) mem).2, bind,
    Except.bind, setIPFreqInd, atPair]
  congr 1

theorem PairBefore.trichotomy (pair pair' : Rat × Int) :
    PairBefore pair pair' ∨ pair = pair' ∨ PairBefore pair' pair := by
  obtain ⟨mem, ip⟩ := pair
  obtain ⟨mem', ip'⟩ := pair'
  obtain less | rfl | more := lt_trichotomy mem mem'
  · exact .inr (.inr (.inl less))
  · obtain less | rfl | more := lt_trichotomy ip ip'
    · exact .inr (.inr (.inr ⟨rfl, less⟩))
    · exact .inr (.inl rfl)
    · exact .inl (.inr ⟨rfl, more⟩)
  · exact .inl (.inl more)

theorem atPair_injective (same : p.atPair ipType pair = p.atPair ipType pair') : pair = pair' := by
  have mem := congrArg DvfsPlatform.memFreq same
  have state := congrArg (fun q => (q.ip ipType).dvfsState) same
  simp only [atPair, Function.update_self] at mem state
  exact Prod.ext mem state

theorem maxMemFreq_searched {lowest : Int} (below : lowest ≤ 10) :
    maxMemFreq ∈ memFreqsDown lowest :=
  mem_memFreqsDown.mpr ⟨10, below, le_rfl, by norm_num [maxMemFreq]⟩

theorem LeastPair.unique_last (least : p.LeastPair ipType ipDevs pair)
    (least' : p.LeastPair ipType ipDevs pair')
    (last : ∀ later, p.PairInTime ipType ipDevs later → PairBefore pair later →
      p.pairEnergy ipType ipDevs pair < p.pairEnergy ipType ipDevs later)
    (last' : ∀ later, p.PairInTime ipType ipDevs later → PairBefore pair' later →
      p.pairEnergy ipType ipDevs pair' < p.pairEnergy ipType ipDevs later) : pair = pair' := by
  obtain before | same | after := PairBefore.trichotomy pair pair'
  · exact absurd (last pair' least'.inTime before) (not_lt.mpr (least'.least pair least.inTime))
  · exact same
  · exact absurd (last' pair least.inTime after) (not_lt.mpr (least.least pair' least'.inTime))

/-- The search finds a pair of least energy if and only if its last one is a pair of the table. -/
theorem dvfsDynamicProg1_finds_iff (measured : p.Measured ipType)
    (searched : isFixedApp p.appId = false) (devices : ∀ dev ∈ ipDevs, dev.isDevice = true) :
    p.FindsLeastPair ipType ipDevs ↔ p.LastLeastInTable ipType ipDevs := by
  -- Where the search ends is known; what is left is which index and energy that is.
  obtain ⟨kept, dearer⟩ | ⟨pair, kept, cheap, least, last⟩ := leastPair_spec measured devices
  · have ran := dvfsDynamicProg1_eq measured searched kept (maxMemFreq_searched (by norm_num))
    rw [if_pos (by decide)] at ran
    constructor
    · rintro ⟨found, -, -, ended, least⟩
      have same := atPair_injective (Except.ok.inj (ran.symm.trans ended))
      by_cases any : ∃ pair, p.PairInTime ipType ipDevs pair
      · have start_least := same ▸ least any
        exact .inr (.inr ⟨start_least, dearer _ start_least.inTime⟩)
      · exact .inl (not_exists.mp any)
    · intro condition
      refine ⟨_, by decide, by decide, ran, fun ⟨other, inTime⟩ => ?_⟩
      obtain none_inTime | ⟨pair, least, -, cheap, -⟩ | ⟨least, -⟩ := condition
      · exact absurd inTime (none_inTime other)
      · exact absurd (dearer pair least.inTime) (not_lt.mpr cheap)
      · exact least
  · have ran := dvfsDynamicProg1_eq measured searched kept least.inTime.mem
    constructor
    · rintro ⟨found, -, -, ended, -⟩
      rw [ran] at ended
      split at ended
      · rename_i inside
        exact .inr (.inl ⟨pair, least, inside.1, cheap, last⟩)
      · cases ended
    · intro condition
      have low : 0 ≤ pair.2 := by
        obtain none_inTime | ⟨pair', least', low', -, last'⟩ | ⟨start_least, dear⟩ := condition
        · exact absurd least.inTime (none_inTime pair)
        · exact least.unique_last least' last last' ▸ low'
        · exact absurd (dear.trans_le (start_least.least pair least.inTime)) (not_lt.mpr cheap)
      have high : pair.2 < ipDvfsStates := by
        have top := least.inTime.high
        omega
      rw [if_pos ⟨low, high⟩] at ran
      exact ⟨pair, low, high, ran, fun _ => least⟩

/-- A sound that is decoded at half a watt, with the state that the last frame had. -/
def soundFrame (dvfsState : Int) (power : Rat) : DvfsPlatform :=
  { videoFrame 1 ⟨[.ad, .snd], by simp⟩ with
    ip := fun t => ⟨t, dvfsState, 0, 1, 0⟩
    lastPowerTook := fun _ => power }

theorem soundFrame_measured (dvfsState : Int) (power : Rat) :
    (soundFrame dvfsState power).Measured .ad :=
  ⟨rfl, by simp [soundFrame, videoFrame], by norm_num [soundFrame, videoFrame],
    by simp [soundFrame, videoFrame]⟩

theorem soundFrame_least :
    (soundFrame 4 (1 / 2)).LeastPair .ad [.snd] (6 / 10, 2) := by
  refine ⟨⟨mem_memFreqsDown.mpr ⟨6, le_rfl, by norm_num, rfl⟩, by decide, by decide,
    by decide +kernel⟩, fun ⟨mem, ip⟩ inTime => ?_⟩
  obtain ⟨tenths, from_low, to_high, rfl⟩ := mem_memFreqsDown.mp inTime.mem
  have low : 2 ≤ ip := inTime.low
  have high : ip ≤ 6 := inTime.high
  interval_cases tenths <;> interval_cases ip <;> decide +kernel

/-- The statement for a sound in a middle state. -/
theorem dvfsDynamicProg1_finds_middle :
    (soundFrame 4 (1 / 2)).Measured .ad ∧ isFixedApp (soundFrame 4 (1 / 2)).appId = false ∧
      (∀ dev ∈ [IpType.snd], dev.isDevice = true) ∧
      (soundFrame 4 (1 / 2)).FindsLeastPair .ad [.snd] := by
  have devices : ∀ dev ∈ [IpType.snd], dev.isDevice = true := by
    simp [IpType.isDevice, IpType.code]
  refine ⟨soundFrame_measured 4 _, rfl, devices, ?_⟩
  refine (dvfsDynamicProg1_finds_iff (soundFrame_measured 4 _) rfl devices).mpr
    (.inr (.inl ⟨(6 / 10, 2), soundFrame_least, by decide, by decide +kernel, ?_⟩))
  intro later inTime before
  obtain ⟨tenths, from_low, -, same⟩ := mem_memFreqsDown.mp inTime.mem
  obtain less | ⟨-, less⟩ := before
  · have cast : (6 : Rat) ≤ tenths := by exact_mod_cast from_low
    simp only at less
    linarith
  · have low : 2 ≤ later.2 := inTime.low
    simp only at less
    omega

/-- In a low state the search falls below the table, where the least energy stays the same. -/
theorem search_leaves_table : ¬(soundFrame 1 2).FindsLeastPair .ad [.snd] := by
  rintro ⟨pair, -, -, ended, -⟩
  have failed : ((soundFrame 1 2).dvfsDynamicProg1 [.ad] [.snd]).toOption.isNone = true := by
    decide +kernel
  rw [ended] at failed
  cases failed

end DvfsPlatform

end GemDroid
