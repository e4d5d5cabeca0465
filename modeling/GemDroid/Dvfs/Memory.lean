import Mathlib.Algebra.BigOperators.Intervals
import Mathlib.Algebra.Order.BigOperators.Group.Finset
import Mathlib.Algebra.Order.BigOperators.Group.List
import Mathlib.Tactic.IntervalCases
import GemDroid.Dvfs.TimeModel

/-! How the governors move the memory frequency by the slack of a frame. -/

namespace GemDroid

namespace DvfsPlatform

/-- The time of a component of the flow at another memory frequency, as `dvfsMemory` predicts it. -/
def predictedTime (origMemFreq memFreq : Rat) (ip : IpType) (p : DvfsPlatform) : Rat :=
  if ip = .cpu then p.memScaledTimeCPU origMemFreq memFreq
  else p.memScaledTime ip (getMaxBandwidth memFreq) (p.ip ip).dvfsState

/-- What a component adds to the estimate when the frequency is raised. -/
def raiseEstimate (origMemFreq memFreq extraTimeEstimate : Rat) (ip : IpType)
    (p : DvfsPlatform) : Rat :=
  let _newTime := p.predictedTime origMemFreq memFreq ip
  let oldTime := p.lastTimeTook ip
  -- The test of the prediction guards an empty statement, and the assignment after it is
  -- always made.
  let newTime := oldTime
  extraTimeEstimate + (newTime - oldTime)

/-- What a component adds to the estimate when the frequency is lowered. -/
def lowerEstimate (origMemFreq memFreq extraTimeEstimate : Rat) (ip : IpType)
    (p : DvfsPlatform) : Rat :=
  let newTime := p.predictedTime origMemFreq memFreq ip
  let oldTime := p.lastTimeTook ip
  let newTime := if newTime < oldTime then oldTime else newTime
  extraTimeEstimate + (newTime - oldTime)

/-- The loop of `dvfsMemory` that lowers the frequency, at most `fuel` rounds of it. -/
def lowerMemory (origMemFreq minMem slack : Rat) :
    Nat → Rat → Rat → Rat → DvfsPlatform → Except DvfsFault (DvfsPlatform × Rat)
  | 0, _, _, _, _ => .error .outOfFuel
  | fuel + 1, memFreq, extraTimeEstimate, correctExtraTime, p =>
    if epsilon < |memFreq - minMem| then
      let memFreq := memFreq - 1 / 10
      -- The estimate goes on from that of the round before.
      let extraTimeEstimate := p.flow.ips.foldl
        (fun extra ip => p.lowerEstimate origMemFreq memFreq extra ip) extraTimeEstimate
      if slack < extraTimeEstimate then .ok (p, correctExtraTime)
      else do
        let p ← p.setMemFreq memFreq
        lowerMemory origMemFreq minMem slack fuel memFreq extraTimeEstimate extraTimeEstimate p
    else .ok (p, correctExtraTime)

/-- The frequency that the memory is not lowered below. -/
def minMem (p : DvfsPlatform) : Rat :=
  if p.governor = .slackMaxEnergyConsumer ∨ p.governor = .slackFarEnergy then minMemFreq + 1 / 10
  else minMemFreq

/--
Move the memory frequency by the slack of the last frame (`dvfsMemory`).

The results are the slack left and whether other components may use it.
-/
def dvfsMemory (slack : Rat) (p : DvfsPlatform) : Except DvfsFault (DvfsPlatform × Rat × Bool) :=
  let origMemFreq := p.memFreq
  if slack < 0 then
    if origMemFreq < maxMemFreq then do
      let memFreq := origMemFreq + 1 / 10
      let extraTimeEstimate := p.flow.ips.foldl
        (fun extra ip => p.raiseEstimate origMemFreq memFreq extra ip) 0
      let p ← p.setMemFreq memFreq
      return (p, slack - extraTimeEstimate, false)
    else .ok (p, slack, false)
  else do
    -- Each round lowers the frequency by a tenth, so there are fewer rounds than tenths.
    let fuel := ⌈10 * origMemFreq⌉.toNat + 1
    let (p, correctExtraTime) ← lowerMemory origMemFreq p.minMem slack fuel origMemFreq 0 0 p
    return (p, slack - correctExtraTime, true)

/-- The time that the components of the flow are predicted to save at a higher frequency. -/
def savedTime (memFreq : Rat) (p : DvfsPlatform) : Rat :=
  (p.flow.ips.map fun ip =>
    max 0 (p.lastTimeTook ip - p.predictedTime p.memFreq memFreq ip)).sum

/-- The frequency rises by a step, and the slack by the time that is predicted to be saved. -/
def RaisesSlack (slack : Rat) (p : DvfsPlatform) : Prop :=
  p.dvfsMemory slack = .ok
    ({ p with memFreq := p.memFreq + 1 / 10 }, slack + p.savedTime (p.memFreq + 1 / 10), false)

theorem foldl_raiseEstimate (origMemFreq memFreq : Rat) (ips : List IpType) (p : DvfsPlatform)
    (extra : Rat) :
    ips.foldl (fun extra ip => p.raiseEstimate origMemFreq memFreq extra ip) extra = extra := by
  induction ips generalizing extra with
  | nil => rfl
  | cons ip ips ih =>
    rw [List.foldl_cons, ih]
    simp [raiseEstimate]

theorem sum_cut_eq_zero_iff {ips : List IpType} {time : IpType → Rat} :
    (ips.map fun ip => max 0 (time ip)).sum = 0 ↔ ∀ ip ∈ ips, time ip ≤ 0 := by
  induction ips with
  | nil => simp
  | cons ip ips ih =>
    have rest : 0 ≤ (ips.map fun ip => max 0 (time ip)).sum := List.sum_nonneg (by simp)
    rw [List.map_cons, List.sum_cons, add_eq_zero_iff_of_nonneg (le_max_left _ _) rest, ih,
      List.forall_mem_cons, max_eq_left_iff]

theorem savedTime_eq_zero_iff {memFreq : Rat} {p : DvfsPlatform} :
    p.savedTime memFreq = 0 ↔
      ∀ ip ∈ p.flow.ips, p.lastTimeTook ip ≤ p.predictedTime p.memFreq memFreq ip := by
  simp only [savedTime, sum_cut_eq_zero_iff, sub_nonpos]

/--
With the frame behind its time and the memory below its highest frequency, the slack rises by the
predicted saving exactly when the memory has room for a step and the saving is zero.
-/
theorem dvfsMemory_raises_iff {slack : Rat} {p : DvfsPlatform} (behind : slack < 0)
    (below : p.memFreq < maxMemFreq) :
    p.RaisesSlack slack ↔
      (minMemFreq - epsilon ≤ p.memFreq + 1 / 10 ∧ p.memFreq + 1 / 10 ≤ maxMemFreq + epsilon) ∧
      ∀ ip ∈ p.flow.ips,
        p.lastTimeTook ip ≤ p.predictedTime p.memFreq (p.memFreq + 1 / 10) ip := by
  rw [← savedTime_eq_zero_iff]
  simp only [RaisesSlack, dvfsMemory, if_pos behind, if_pos below, foldl_raiseEstimate, setMemFreq]
  by_cases room : minMemFreq - epsilon ≤ p.memFreq + 1 / 10 ∧
      p.memFreq + 1 / 10 ≤ maxMemFreq + epsilon
  · rw [if_pos room]
    simp only [bind, Except.bind, pure, Except.pure, Except.ok.injEq, Prod.mk.injEq, true_and,
      and_true, sub_zero, left_eq_add, room, and_self]
  · rw [if_neg room]
    simp only [bind, Except.bind, reduceCtorEq, room, false_and]

/-- The statement for a frame without components that could be faster. -/
theorem dvfsMemory_raises_idle :
    (-1 : Rat) < 0 ∧ (videoFrame (1 / 2) ⟨[.nw], by simp⟩).memFreq < maxMemFreq ∧
      (videoFrame (1 / 2) ⟨[.nw], by simp⟩).RaisesSlack (-1) :=
  ⟨by norm_num, by decide +kernel, (dvfsMemory_raises_iff (by norm_num) (by decide +kernel)).mpr
    ⟨by decide +kernel, by decide +kernel⟩⟩

/-- A core that waits for the memory a fifth of its time is faster, and the slack stays as it is. -/
theorem saving_not_added :
    ¬(videoFrame (1 / 2) ⟨[.cpu, .vd, .dc], by simp⟩).RaisesSlack (-1) := by
  intro raised
  have slack : ((videoFrame (1 / 2) ⟨[.cpu, .vd, .dc], by simp⟩).dvfsMemory (-1)).toOption.map
      (fun result => result.2.1) = some (-1) := by
    decide +kernel
  rw [raised] at slack
  have saved := Option.some.inj slack
  revert saved
  decide +kernel

/-- A memory frequency of the grid of tenths. -/
def gridFreq (tenths : Nat) : Rat :=
  tenths / 10

/-- The lowest tenth that the governor lowers the memory to. -/
def minTenths (p : DvfsPlatform) : Nat :=
  if p.governor = .slackMaxEnergyConsumer ∨ p.governor = .slackFarEnergy then 4 else 3

/-- The time that the flow is predicted to take longer at another memory frequency. -/
def extraTime (origMemFreq memFreq : Rat) (p : DvfsPlatform) : Rat :=
  (p.flow.ips.map fun ip =>
    max 0 (p.predictedTime origMemFreq memFreq ip - p.lastTimeTook ip)).sum

/-- From some tenth on down to another, each frequency costs no more than the slack. -/
def Affords (slack : Rat) (cur low : Nat) (p : DvfsPlatform) : Prop :=
  ∀ tenths, low ≤ tenths → tenths ≤ cur →
    p.extraTime (gridFreq cur) (gridFreq tenths) ≤ slack

/--
The memory is left at the lowest frequency that the slack affords, all higher ones included, and
the slack is lowered by what that frequency costs.
-/
def SpendsSlack (slack : Rat) (cur : Nat) (p : DvfsPlatform) : Prop :=
  ∃ low, p.minTenths ≤ low ∧ low ≤ cur ∧ p.Affords slack cur low ∧
    (∀ lower, p.minTenths ≤ lower → lower < low → ¬p.Affords slack cur lower) ∧
    p.dvfsMemory slack = .ok ({ p with memFreq := gridFreq low },
      slack - p.extraTime (gridFreq cur) (gridFreq low), true)

/-- The extra time predicted for the step down to a tenth, with the memory one tenth above it. -/
def stepTime (cur tenths : Nat) (p : DvfsPlatform) : Rat :=
  { p with memFreq := gridFreq (tenths + 1) }.extraTime (gridFreq cur) (gridFreq tenths)

/-- The extra times of all steps down to a tenth. -/
def stepsTime (cur low : Nat) (p : DvfsPlatform) : Rat :=
  ∑ tenths ∈ Finset.Ico low cur, p.stepTime cur tenths

/--
The slack affords some frequency and no lower one, neither by itself nor step by step, and the
steps down to it cost as much as the frequency itself.
-/
def StepsAgree (slack : Rat) (cur : Nat) (p : DvfsPlatform) : Prop :=
  ∃ low, p.minTenths ≤ low ∧ low ≤ cur ∧ p.Affords slack cur low ∧
    p.stepsTime cur low = p.extraTime (gridFreq cur) (gridFreq low) ∧
    (p.minTenths < low → slack < p.extraTime (gridFreq cur) (gridFreq (low - 1)) ∧
      slack < p.stepsTime cur (low - 1))

theorem foldl_lowerEstimate (origMemFreq memFreq : Rat) (p : DvfsPlatform) (extra : Rat) :
    p.flow.ips.foldl (fun extra ip => p.lowerEstimate origMemFreq memFreq extra ip) extra =
      extra + p.extraTime origMemFreq memFreq := by
  have added (ips : List IpType) :
      ips.foldl (fun extra ip => p.lowerEstimate origMemFreq memFreq extra ip) extra =
        extra + (ips.map fun ip =>
          max 0 (p.predictedTime origMemFreq memFreq ip - p.lastTimeTook ip)).sum := by
    induction ips generalizing extra with
    | nil => simp
    | cons ip ips ih =>
      have cut : p.lowerEstimate origMemFreq memFreq extra ip =
          extra + max 0 (p.predictedTime origMemFreq memFreq ip - p.lastTimeTook ip) := by
        simp only [lowerEstimate]
        split
        · rename_i faster
          rw [max_eq_left (by linarith), sub_self]
        · rename_i slower
          rw [max_eq_right (by linarith)]
      rw [List.foldl_cons, ih, cut, List.map_cons, List.sum_cons, add_assoc]
  exact added p.flow.ips

theorem stepTime_nonneg (cur tenths : Nat) (p : DvfsPlatform) : 0 ≤ p.stepTime cur tenths :=
  List.sum_nonneg (by simp)

theorem stepsTime_anti {cur low low' : Nat} (le : low ≤ low') (p : DvfsPlatform) :
    p.stepsTime cur low' ≤ p.stepsTime cur low :=
  Finset.sum_le_sum_of_subset_of_nonneg (Finset.Ico_subset_Ico_left le)
    fun tenths _ _ => p.stepTime_nonneg cur tenths

theorem minMem_eq (p : DvfsPlatform) : p.minMem = gridFreq p.minTenths := by
  unfold minMem minTenths
  split <;> norm_num [minMemFreq, gridFreq]

theorem epsilon_lt_iff {tenths low : Nat} (le : low ≤ tenths) :
    epsilon < |gridFreq tenths - gridFreq low| ↔ low < tenths := by
  have apart : gridFreq tenths - gridFreq low = ((tenths - low : Nat) : Rat) / 10 := by
    rw [gridFreq, gridFreq, Nat.cast_sub le]
    ring
  rw [apart, abs_of_nonneg (by positivity)]
  constructor
  · intro more
    by_contra same
    rw [Nat.sub_eq_zero_of_le (not_lt.mp same)] at more
    norm_num [epsilon] at more
  · intro lower
    have step : (1 : Rat) ≤ ((tenths - low : Nat) : Rat) := by
      exact_mod_cast Nat.sub_pos_of_lt lower
    unfold epsilon
    linarith

theorem gridFreq_pred (tenths : Nat) : gridFreq (tenths + 1) - 1 / 10 = gridFreq tenths := by
  simp only [gridFreq, Nat.cast_add, Nat.cast_one]
  ring

theorem setMemFreq_grid {tenths : Nat} (low : 3 ≤ tenths) (high : tenths ≤ 10)
    (p : DvfsPlatform) :
    p.setMemFreq (gridFreq tenths) = .ok { p with memFreq := gridFreq tenths } := by
  have low' : (3 : Rat) ≤ tenths := by exact_mod_cast low
  have high' : (tenths : Rat) ≤ 10 := by exact_mod_cast high
  refine if_pos ⟨?_, ?_⟩
  · unfold minMemFreq epsilon gridFreq
    linarith
  · unfold maxMemFreq epsilon gridFreq
    linarith

theorem stepsTime_step {cur low : Nat} (below : low < cur) (p : DvfsPlatform) :
    p.stepsTime cur low = p.stepTime cur low + p.stepsTime cur (low + 1) :=
  Finset.sum_eq_sum_Ico_succ_bot below _

/-- The loop stops where the steps cost more than the slack, or at the lowest frequency. -/
theorem lowerMemory_spec {slack : Rat} {cur lowest : Nat} (bottom : 3 ≤ lowest) (top : cur ≤ 10)
    (p : DvfsPlatform) {fuel g : Nat} (above : lowest ≤ g) (below : g ≤ cur)
    (enough : g - lowest < fuel) (afforded : p.stepsTime cur g ≤ slack) :
    ∃ low, lowest ≤ low ∧ low ≤ g ∧ p.stepsTime cur low ≤ slack ∧
      (lowest < low → slack < p.stepsTime cur (low - 1)) ∧
      lowerMemory (gridFreq cur) (gridFreq lowest) slack fuel (gridFreq g) (p.stepsTime cur g)
          (p.stepsTime cur g) { p with memFreq := gridFreq g } =
        .ok ({ p with memFreq := gridFreq low }, p.stepsTime cur low) := by
  -- The induction is on the rounds, with the frequency that the memory has got to.
  induction fuel generalizing g with
  | zero => omega
  | succ fuel ih =>
    rw [lowerMemory]
    by_cases more : lowest < g
    · rw [if_pos ((epsilon_lt_iff above).mpr more)]
      obtain ⟨next, rfl⟩ : ∃ next, g = next + 1 := ⟨g - 1, by omega⟩
      have estimate : p.stepsTime cur (next + 1) +
          { p with memFreq := gridFreq (next + 1) }.extraTime (gridFreq cur) (gridFreq next) =
            p.stepsTime cur next := by
        rw [stepsTime_step (show next < cur by omega) p, add_comm]
        rfl
      simp only [gridFreq_pred, foldl_lowerEstimate, estimate]
      by_cases spent : slack < p.stepsTime cur next
      · exact ⟨next + 1, above, le_rfl, afforded, fun _ => spent, by rw [if_pos spent]⟩
      · obtain ⟨low, low_above, low_below, fits, stops, ran⟩ :=
          ih (g := next) (by omega) (by omega) (by omega) (not_lt.mp spent)
        refine ⟨low, low_above, by omega, fits, stops, ?_⟩
        rw [if_neg spent, setMemFreq_grid (by omega) (by omega)]
        exact ran
    · rw [if_neg (mt (epsilon_lt_iff above).mp more)]
      obtain rfl : g = lowest := by omega
      exact ⟨g, le_rfl, le_rfl, afforded, fun less => absurd less (lt_irrefl g), rfl⟩

theorem dvfsMemory_spec {slack : Rat} {p : DvfsPlatform} (ahead : 0 ≤ slack) {cur : Nat}
    (onGrid : p.memFreq = gridFreq cur) (top : cur ≤ 10) (room : p.minTenths ≤ cur) :
    ∃ low, p.minTenths ≤ low ∧ low ≤ cur ∧ p.stepsTime cur low ≤ slack ∧
      (p.minTenths < low → slack < p.stepsTime cur (low - 1)) ∧
      p.dvfsMemory slack =
        .ok ({ p with memFreq := gridFreq low }, slack - p.stepsTime cur low, true) := by
  have bottom : 3 ≤ p.minTenths := by
    unfold minTenths
    split <;> omega
  have none_yet : p.stepsTime cur cur = 0 := by simp [stepsTime]
  have rounds : ⌈10 * p.memFreq⌉.toNat + 1 = cur + 1 := by
    have whole : 10 * p.memFreq = (cur : Int) := by
      rw [onGrid, gridFreq]
      push_cast
      ring
    rw [whole, Int.ceil_intCast, Int.toNat_natCast]
  obtain ⟨low, above, below, fits, stops, ran⟩ := lowerMemory_spec bottom top p room le_rfl
    (show cur - p.minTenths < cur + 1 by omega) (none_yet.trans_le ahead)
  refine ⟨low, above, below, fits, stops, ?_⟩
  have start : ({ p with memFreq := gridFreq cur } : DvfsPlatform) = p := by
    rw [← onGrid]
  rw [none_yet, start] at ran
  simp only [dvfsMemory, if_neg (not_lt.mpr ahead), rounds, minMem_eq]
  rw [onGrid, ran]
  rfl

theorem gridFreq_inj {tenths tenths' : Nat} (same : gridFreq tenths = gridFreq tenths') :
    tenths = tenths' := by
  have scaled : (tenths : Rat) = tenths' := by
    unfold gridFreq at same
    linarith
  exact_mod_cast scaled

theorem Affords.lowest {slack : Rat} {cur low : Nat} {p : DvfsPlatform} (below : low ≤ cur)
    (stops : p.minTenths < low → slack < p.extraTime (gridFreq cur) (gridFreq (low - 1)))
    {lower : Nat} (above : p.minTenths ≤ lower) (less : lower < low) :
    ¬p.Affords slack cur lower := by
  intro affords
  have fits := affords (low - 1) (by omega) (by omega)
  exact absurd fits (not_le.mpr (stops (by omega)))

/--
With slack left and the memory at a frequency of the grid, the memory is lowered as far as the
slack affords and the slack by what that costs exactly when the steps on the way cost no more.
-/
theorem dvfsMemory_spends_iff {slack : Rat} {p : DvfsPlatform} (ahead : 0 ≤ slack) {cur : Nat}
    (onGrid : p.memFreq = gridFreq cur) (top : cur ≤ 10) :
    p.SpendsSlack slack cur ↔ p.StepsAgree slack cur := by
  constructor
  · rintro ⟨low, above, below, affords, lowest, ran⟩
    obtain ⟨low', above', below', fits', stops', ran'⟩ :=
      dvfsMemory_spec ahead onGrid top (above.trans below)
    -- The code ends in one state, so the two frequencies are the same.
    have same := Except.ok.inj (ran.symm.trans ran')
    have freq := congrArg (fun result => result.1.memFreq) same
    have left := congrArg (fun result => result.2.1) same
    obtain rfl := gridFreq_inj freq
    have agree : p.stepsTime cur low = p.extraTime (gridFreq cur) (gridFreq low) := by
      simp only at left
      linarith
    refine ⟨low, above, below, affords, agree, fun less => ⟨?_, stops' less⟩⟩
    by_contra cheap
    refine lowest (low - 1) (by omega) (by omega) fun tenths from_low to_cur => ?_
    by_cases last : tenths = low - 1
    · exact last ▸ not_lt.mp cheap
    · exact affords tenths (by omega) to_cur
  · rintro ⟨low, above, below, affords, agree, stops⟩
    obtain ⟨low', above', below', fits', stops', ran'⟩ :=
      dvfsMemory_spec ahead onGrid top (above.trans below)
    have fits : p.stepsTime cur low ≤ slack := agree.trans_le (affords low le_rfl below)
    -- Going down the steps cost more, so that only one place stops the code.
    have same : low' = low := by
      obtain less | equal | more := lt_trichotomy low' low
      · have reached := (stepsTime_anti (show low' ≤ low - 1 by omega) p).trans fits'
        exact absurd reached (not_le.mpr (stops (by omega)).2)
      · exact equal
      · have reached := (stepsTime_anti (show low ≤ low' - 1 by omega) p).trans fits
        exact absurd reached (not_le.mpr (stops' (by omega)))
    subst same
    refine ⟨low', above, below, affords, fun lower from_min less => ?_, by rw [ran', agree]⟩
    exact Affords.lowest below (fun less => (stops less).1) from_min less

/-- The statement for a frame that waits for no component of its flow. -/
theorem dvfsMemory_spends_idle :
    (0 : Rat) ≤ 1 ∧ (videoFrame (gridFreq 5) ⟨[.nw], by simp⟩).memFreq = gridFreq 5 ∧ 5 ≤ 10 ∧
      (videoFrame (gridFreq 5) ⟨[.nw], by simp⟩).SpendsSlack 1 5 := by
  refine ⟨by norm_num, rfl, by norm_num, ?_⟩
  refine (dvfsMemory_spends_iff (by norm_num) rfl (by norm_num)).mpr ⟨3, ?_⟩
  refine ⟨by decide +kernel, by decide +kernel, ?_, by decide +kernel, by decide +kernel⟩
  intro tenths from_low to_cur
  interval_cases tenths <;> decide +kernel

/--
A core that waits for the memory a fifth of its time affords seven tenths, but the steps down to
them cost more than the slack.
-/
theorem steps_cost_too_much :
    ¬(videoFrame (gridFreq 10) ⟨[.cpu], by simp⟩).SpendsSlack (1 / 2) 10 := by
  rintro ⟨low, above, below, affords, lowest, ran⟩
  have freq : ((videoFrame (gridFreq 10) ⟨[.cpu], by simp⟩).dvfsMemory (1 / 2)).toOption.map
      (fun result => result.1.memFreq) = some (gridFreq 8) := by
    decide +kernel
  rw [ran] at freq
  obtain rfl := gridFreq_inj (Option.some.inj freq)
  refine lowest 7 (by decide +kernel) (by norm_num) fun tenths from_low to_cur => ?_
  interval_cases tenths <;> decide +kernel

end DvfsPlatform

end GemDroid
