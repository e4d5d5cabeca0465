import GemDroid.Dvfs.TimeModel
import GemDroid.Lib.Search

/-! The frequencies that cores and IPs are lowered to for the slack of a frame. -/

namespace GemDroid

namespace CoreDvfs

/-- The time of the last frame at another frequency, for the memory as it is now. -/
def slackTime (freq : Rat) (p : DvfsPlatform) (c : CoreDvfs) : Rat :=
  getTimeEst (p.memScaledTimeCPU p.lastMemFreq p.memFreq) c.getCoreFreq freq

/-- The frequency for the slack, and the slack that is left (`getFreqForSlackOptimal`). -/
def getFreqForSlackOptimal (prevTime slack : Rat) (p : DvfsPlatform) (c : CoreDvfs) : Rat × Rat :=
  let newFreq :=
    if slack < 0 then getCoreFreqAt (c.dvfsState + 2)
    else if c.optDVFSState < c.dvfsState then
      -- The index at which the loop over lower frequencies breaks off takes too long.
      let k := Search.descend
        (fun k => !decide (prevTime + slack < c.slackTime (getCoreFreqAt k) p))
        (c.dvfsState - c.optDVFSState).toNat (c.dvfsState - 1)
      getCoreFreqAt (k + 1)
    else getCoreFreqAt c.optDVFSState
  (newFreq, slack - (c.slackTime newFreq p - prevTime))

/-- The frequency is one between the optimal and the current one, and no slack is overspent. -/
def KeepsSlack (prevTime slack : Rat) (p : DvfsPlatform) (c : CoreDvfs) : Prop :=
  (∃ index, c.optDVFSState ≤ index ∧ 0 ≤ index ∧ index ≤ c.dvfsState ∧
    (c.getFreqForSlackOptimal prevTime slack p).1 = tableFreq coreVoltageFreq index) ∧
  ((c.getFreqForSlackOptimal prevTime slack p).1 < c.getCoreFreq →
    0 ≤ (c.getFreqForSlackOptimal prevTime slack p).2)

end CoreDvfs

namespace IpDvfs

/-- The time of the last frame at another frequency, for the bandwidth that is left now. -/
def slackTime (freq : Rat) (p : DvfsPlatform) (ip : IpDvfs) : Rat :=
  getTimeEst (p.memScaledTime ip.ipType p.getAvailBW ip.dvfsState) ip.getIPFreq freq

/-- The lowest state that slack is used for: the optimal one, or two below the current one. -/
def lowestState (ip : IpDvfs) : Int :=
  if ip.ipType = .img then ip.dvfsState - 2 else ip.optDVFSState

/-- The frequency for the slack, and the slack that is left (`getFreqForSlackOptimal`). -/
def getFreqForSlackOptimal (prevTime slack : Rat) (p : DvfsPlatform) (ip : IpDvfs) : Rat × Rat :=
  let k :=
    if slack < 0 then ip.dvfsState + 1
    else if ip.optDVFSState < ip.dvfsState then
      Search.descend
        (fun k => !decide (prevTime + slack < ip.slackTime (getIPFreqAt k) p))
        (ip.dvfsState - ip.lowestState).toNat (ip.dvfsState - 1)
    else ip.dvfsState - 1
  let newFreq :=
    if slack < 0 ∨ ip.optDVFSState < ip.dvfsState then getIPFreqAt (k + 1) else ip.getIPFreq
  let extra := ip.slackTime (getIPFreqAt (k + 1)) p - prevTime
  -- Audio pays for as many of its frames as there are in one of the video.
  if ip.ipType = .ad ∨ ip.ipType = .ae then (newFreq, slack - adAeRatioToVd * extra)
  else (newFreq, slack - extra)

/-- The frequency is one between the lowest and the current one, and no slack is overspent. -/
def KeepsSlack (prevTime slack : Rat) (p : DvfsPlatform) (ip : IpDvfs) : Prop :=
  (∃ index, ip.lowestState ≤ index ∧ 0 ≤ index ∧ index ≤ ip.dvfsState ∧
    (ip.getFreqForSlackOptimal prevTime slack p).1 = tableFreq ipVoltageFreq index) ∧
  ((ip.getFreqForSlackOptimal prevTime slack p).1 < ip.getIPFreq →
    0 ≤ (ip.getFreqForSlackOptimal prevTime slack p).2)

/-- A state is the lowest one down to which every time fits the slack. -/
structure LowestFit (prevTime slack : Rat) (p : DvfsPlatform) (ip : IpDvfs) (index : Int) :
    Prop where
  above : ip.lowestState ≤ index
  below : index < ip.dvfsState
  fits : ∀ i, index ≤ i → i < ip.dvfsState →
    ip.slackTime (getIPFreqAt i) p ≤ prevTime + slack
  stops : ip.lowestState < index →
    prevTime + slack < ip.slackTime (getIPFreqAt (index - 1)) p

/-- An audio IP has slack for all the frames it pays for at the lowest state that fits for one. -/
def AudioAffords (prevTime slack : Rat) (p : DvfsPlatform) (ip : IpDvfs) : Prop :=
  ip.ipType = .ad ∨ ip.ipType = .ae → ∀ index, ip.LowestFit prevTime slack p index →
    getIPFreqAt index < ip.getIPFreq →
    adAeRatioToVd * (ip.slackTime (getIPFreqAt index) p - prevTime) ≤ slack

end IpDvfs

variable {p : DvfsPlatform} {prevTime slack : Rat}

theorem clampIndex_between {states low index high : Int} (above : low ≤ index)
    (below : index ≤ high) (inside : high < states) (nonneg : 0 ≤ high) :
    low ≤ clampIndex states index ∧ 0 ≤ clampIndex states index ∧
      clampIndex states index ≤ high := by
  rw [clampIndex, if_neg (by omega)]
  split <;> omega

theorem CoreDvfs.keepsSlack {c : CoreDvfs} (ahead : 0 ≤ slack) (inRange : c.InRange)
    (above : c.optDVFSState < c.dvfsState) : c.KeepsSlack prevTime slack p := by
  obtain ⟨passed, most, ended, fitting, -⟩ := Search.descend_spec
    (fun k => !decide (prevTime + slack < c.slackTime (getCoreFreqAt k) p))
    (c.dvfsState - c.optDVFSState).toNat (c.dvfsState - 1)
  have result : c.getFreqForSlackOptimal prevTime slack p =
      (getCoreFreqAt (c.dvfsState - passed),
        slack - (c.slackTime (getCoreFreqAt (c.dvfsState - passed)) p - prevTime)) := by
    simp only [getFreqForSlackOptimal, if_neg (not_lt.mpr ahead), if_pos above, ended]
    rw [show c.dvfsState - 1 - passed + 1 = c.dvfsState - passed by omega]
  obtain ⟨low, high⟩ := inRange
  rw [KeepsSlack, result]
  refine ⟨⟨clampIndex coreDvfsStates (c.dvfsState - passed), ?_, ?_, ?_, rfl⟩, fun lowered => ?_⟩
  · exact (clampIndex_between (by omega) (by omega) high low).1
  · exact (clampIndex_between (le_refl _) (by omega) high low).2.1
  · exact (clampIndex_between (le_refl _) (by omega) high low).2.2
  · -- A core that is lowered has passed the state it ends in.
    have some_passed : 0 < passed := by
      by_contra none_passed
      obtain rfl : passed = 0 := by omega
      refine absurd lowered (not_lt.mpr (le_of_eq ?_))
      simp [getCoreFreqAt, getCoreFreq, clampIndex_eq_self low high]
    have fits := fitting (c.dvfsState - passed) (by omega) (by omega)
    simp only [Bool.not_eq_true', decide_eq_false_iff_not, not_lt] at fits
    simp only
    linarith

namespace IpDvfs

variable {ip : IpDvfs}

theorem LowestFit.unique {i j : Int} (one : ip.LowestFit prevTime slack p i)
    (two : ip.LowestFit prevTime slack p j) : i = j := by
  have no_lower {i j : Int} (one : ip.LowestFit prevTime slack p i)
      (two : ip.LowestFit prevTime slack p j) : ¬i < j := by
    intro less
    have above := one.above
    have below := two.below
    have fits := one.fits (j - 1) (by omega) (by omega)
    exact absurd fits (not_le.mpr (two.stops (by omega)))
  have := no_lower one two
  have := no_lower two one
  omega

theorem getFreqForSlackOptimal_spec (prevTime : Rat) (p : DvfsPlatform) (ahead : 0 ≤ slack)
    (above : ip.optDVFSState < ip.dvfsState) :
    ∃ index, ip.lowestState ≤ index ∧ index ≤ ip.dvfsState ∧
      (∀ i, index ≤ i → i < ip.dvfsState →
        ip.slackTime (getIPFreqAt i) p ≤ prevTime + slack) ∧
      (ip.lowestState < index →
        prevTime + slack < ip.slackTime (getIPFreqAt (index - 1)) p) ∧
      ip.getFreqForSlackOptimal prevTime slack p = (getIPFreqAt index,
        slack - (if ip.ipType = .ad ∨ ip.ipType = .ae then adAeRatioToVd else 1) *
          (ip.slackTime (getIPFreqAt index) p - prevTime)) := by
  have room : ip.lowestState < ip.dvfsState := by
    unfold lowestState
    split <;> omega
  obtain ⟨passed, most, ended, fitting, stops⟩ := Search.descend_spec
    (fun k => !decide (prevTime + slack < ip.slackTime (getIPFreqAt k) p))
    (ip.dvfsState - ip.lowestState).toNat (ip.dvfsState - 1)
  refine ⟨ip.dvfsState - passed, by omega, by omega, fun i from_index below => ?_,
    fun more => ?_, ?_⟩
  · have fits := fitting i (by omega) (by omega)
    simpa using fits
  · have stop := stops (by omega)
    rw [show ip.dvfsState - 1 - passed = ip.dvfsState - passed - 1 by omega] at stop
    simpa using stop
  · simp only [getFreqForSlackOptimal, if_neg (not_lt.mpr ahead), if_pos above, ended,
      if_pos (Or.inr above : slack < 0 ∨ ip.optDVFSState < ip.dvfsState),
        show ip.dvfsState - 1 - (passed : Int) + 1 = ip.dvfsState - passed by omega]
    split
    · rfl
    · rw [one_mul]

/-- An IP overspends its slack exactly when it is one for audio that cannot pay for its frames. -/
theorem keepsSlack_iff (ahead : 0 ≤ slack) (inRange : ip.InRange)
    (above : ip.optDVFSState < ip.dvfsState) :
    ip.KeepsSlack prevTime slack p ↔ ip.AudioAffords prevTime slack p := by
  obtain ⟨index, from_lowest, to_state, fits, stops, result⟩ :=
    getFreqForSlackOptimal_spec prevTime p ahead above
  obtain ⟨low, high⟩ := inRange
  have between : ∃ i, ip.lowestState ≤ i ∧ 0 ≤ i ∧ i ≤ ip.dvfsState ∧
      (ip.getFreqForSlackOptimal prevTime slack p).1 = tableFreq ipVoltageFreq i := by
    obtain ⟨low', nonneg, high'⟩ := clampIndex_between from_lowest to_state high low
    exact ⟨_, low', nonneg, high', by rw [result]; rfl⟩
  -- An index that lowers the frequency is below the current one.
  have lower_of (lowered : getIPFreqAt index < ip.getIPFreq) : index < ip.dvfsState := by
    by_contra same
    obtain rfl : index = ip.dvfsState := by omega
    refine absurd lowered (not_lt.mpr (le_of_eq ?_))
    simp [getIPFreqAt, getIPFreq, clampIndex_eq_self low high]
  rw [KeepsSlack, and_iff_right between, result, AudioAffords]
  simp only
  by_cases audio : ip.ipType = .ad ∨ ip.ipType = .ae
  · simp only [audio, if_true, true_imp_iff, sub_nonneg]
    constructor
    · intro kept other fit lowered
      have lowered_here : index < ip.dvfsState := by
        by_contra same
        obtain rfl : index = ip.dvfsState := by omega
        have from_lowest := fit.above
        have below := fit.below
        exact absurd (fit.fits (ip.dvfsState - 1) (by omega) (by omega))
          (not_le.mpr (stops (by omega)))
      obtain rfl := LowestFit.unique ⟨from_lowest, lowered_here, fits, stops⟩ fit
      exact kept lowered
    · intro affords lowered
      exact affords index ⟨from_lowest, lower_of lowered, fits, stops⟩ lowered
  · simp only [audio, if_false, false_imp_iff, iff_true, one_mul]
    intro lowered
    have fit := fits index (le_refl _) (lower_of lowered)
    linarith

end IpDvfs

/--
With slack left, a core above its optimal state keeps to the slack, and an IP does so exactly when
it is not one for audio or has slack for all the frames that audio pays for.
-/
theorem slack_kept_iff (prevTime : Rat) (p : DvfsPlatform) (ahead : 0 ≤ slack) :
    (∀ c : CoreDvfs, c.InRange → c.optDVFSState < c.dvfsState → c.KeepsSlack prevTime slack p) ∧
    ∀ ip : IpDvfs, ip.InRange → ip.optDVFSState < ip.dvfsState →
      (ip.KeepsSlack prevTime slack p ↔ ip.AudioAffords prevTime slack p) :=
  ⟨fun _ inRange above => CoreDvfs.keepsSlack ahead inRange above,
    fun _ inRange above => IpDvfs.keepsSlack_iff ahead inRange above⟩

/-- The statement for a core one state above its optimal one. -/
theorem slack_kept_one_above :
    (0 : Rat) ≤ 1 ∧ (⟨7, 0, 6, 0⟩ : CoreDvfs).KeepsSlack 4 1 (videoFrame 1 ⟨[.cpu], by simp⟩) :=
  ⟨by norm_num, (slack_kept_iff 4 _ (by norm_num)).1 ⟨7, 0, 6, 0⟩ ⟨by decide, by decide⟩
    (by decide)⟩

/-- An audio decoder that is lowered by a state spends more slack than there is. -/
theorem audio_overspends :
    ¬(⟨.ad, 2, 0, 1, 0⟩ : IpDvfs).KeepsSlack 2 3 (videoFrame 1 ⟨[.ad], by simp⟩) := by
  rintro ⟨-, kept⟩
  have lowered : ((⟨.ad, 2, 0, 1, 0⟩ : IpDvfs).getFreqForSlackOptimal 2 3
      (videoFrame 1 ⟨[.ad], by simp⟩)).1 < (⟨.ad, 2, 0, 1, 0⟩ : IpDvfs).getIPFreq := by
    decide +kernel
  revert kept
  simp only [lowered, true_imp_iff]
  decide +kernel

end GemDroid
