import GemDroid.Core.PowerSample

/-! How many cycles of a core fall into a microsecond, and by what its power divides them. -/

namespace GemDroid

namespace PowerClock

variable {coreFreq : Rat} {s : PowerClock} {a : CoreActivity} {m : MicroSec}

theorem cycles_count (a : CoreActivity) (m : MicroSec) : (m.count a).cycles = m.cycles + 1 := by
  obtain ⟨pstate, -, -⟩ := a
  cases pstate <;> simp only [MicroSec.count, MicroSec.cycles] <;> omega

/-- Since the last sample as many cycles were counted as the divided clock has ticked. -/
structure Sampled (coreFreq : Rat) (s : PowerClock) : Prop where
  window : Divider.Window (cpuFreqMultiplier coreFreq) (s.ticks - s.powerCalcLastTick)
    s.thisMicroSec.cycles (s.ticks - s.cpuLastTick)
  recent : s.ticks - s.powerCalcLastTick < microsec

theorem tickCore_eq (coreFreq : Rat) (a : CoreActivity) (s : PowerClock) :
    (s.tickCore coreFreq a).ticks = s.ticks ∧
    (s.tickCore coreFreq a).powerCalcLastTick = s.powerCalcLastTick ∧
    (s.tickCore coreFreq a).thisMicroSec.cycles =
      (if Divider.due (cpuFreqMultiplier coreFreq) (s.ticks - s.cpuLastTick)
        then s.thisMicroSec.cycles + 1 else s.thisMicroSec.cycles) ∧
    s.ticks - (s.tickCore coreFreq a).cpuLastTick =
      (if Divider.due (cpuFreqMultiplier coreFreq) (s.ticks - s.cpuLastTick)
        then 0 else s.ticks - s.cpuLastTick) := by
  rw [tickCore]
  by_cases due : Divider.due (cpuFreqMultiplier coreFreq) (s.ticks - s.cpuLastTick)
  · have passed : cpuFreqMultiplier coreFreq ≤ s.ticks - s.cpuLastTick := due
    rw [if_pos passed, if_pos due, if_pos due]
    exact ⟨rfl, rfl, cycles_count a _, Int.sub_self _⟩
  · have rests : ¬ cpuFreqMultiplier coreFreq ≤ s.ticks - s.cpuLastTick := due
    rw [if_neg rests, if_neg due, if_neg due]
    exact ⟨rfl, rfl, rfl, rfl⟩

theorem tick_samples (positive : 0 < cpuFreqMultiplier coreFreq) (phase : s.cpuLastTick ≤ s.ticks)
    (full : microsec ≤ s.ticks + 1 - s.powerCalcLastTick) :
    (s.tick coreFreq a).2 = [s.thisMicroSec] ∧ Sampled coreFreq (s.tick coreFreq a).1 := by
  have sampled : ({ s with ticks := s.ticks + 1 } : PowerClock).sample =
      ({ s with ticks := s.ticks + 1, powerCalcLastTick := s.ticks + 1, thisMicroSec := .zero },
        [s.thisMicroSec]) := if_pos full
  have started := Divider.window_start positive (show 1 ≤ s.ticks + 1 - s.cpuLastTick by omega)
  rw [tick, sampled]
  obtain ⟨ticks, last, cycles, since⟩ := tickCore_eq coreFreq a
    { s with ticks := s.ticks + 1, powerCalcLastTick := s.ticks + 1, thisMicroSec := .zero }
  refine ⟨rfl, ⟨?_, ?_⟩⟩
  · rw [ticks, last, cycles, since, Int.sub_self]
    exact started
  · rw [ticks, last, Int.sub_self]
    decide

theorem tick_waits (coreFreq : Rat) (a : CoreActivity)
    (waits : ¬ microsec ≤ s.ticks + 1 - s.powerCalcLastTick) :
    (s.tick coreFreq a).2 = [] ∧ (s.tick coreFreq a).1.ticks = s.ticks + 1 ∧
      (s.tick coreFreq a).1.powerCalcLastTick = s.powerCalcLastTick ∧
      (Sampled coreFreq s → Sampled coreFreq (s.tick coreFreq a).1) := by
  have unsampled : ({ s with ticks := s.ticks + 1 } : PowerClock).sample =
      ({ s with ticks := s.ticks + 1 }, []) := if_neg waits
  rw [tick, unsampled]
  obtain ⟨ticks, last, cycles, since⟩ := tickCore_eq coreFreq a { s with ticks := s.ticks + 1 }
  refine ⟨rfl, ticks, last, fun sampled => ⟨?_, ?_⟩⟩
  · have step := sampled.window.step
    rw [ticks, last, cycles, since]
    have age : s.ticks + 1 - s.powerCalcLastTick = s.ticks - s.powerCalcLastTick + 1 := by omega
    have rest : s.ticks + 1 - s.cpuLastTick = s.ticks - s.cpuLastTick + 1 := by omega
    simp only [age, rest]
    exact step
  · rw [ticks, last]
    exact Int.not_le.mp waits

theorem tick_phase (phase : s.cpuLastTick ≤ s.ticks) :
    (s.tick coreFreq a).1.cpuLastTick ≤ (s.tick coreFreq a).1.ticks := by
  have keeps : ({ s with ticks := s.ticks + 1 } : PowerClock).sample.1.ticks = s.ticks + 1 ∧
      ({ s with ticks := s.ticks + 1 } : PowerClock).sample.1.cpuLastTick = s.cpuLastTick := by
    rw [sample]
    split <;> exact ⟨rfl, rfl⟩
  obtain ⟨ticks, -, -, since⟩ := tickCore_eq coreFreq a
    ({ s with ticks := s.ticks + 1 } : PowerClock).sample.1
  rw [keeps.1, keeps.2] at since
  rw [keeps.1] at ticks
  have here : (s.tick coreFreq a).1 =
      ({ s with ticks := s.ticks + 1 } : PowerClock).sample.1.tickCore coreFreq a := rfl
  rw [here, ticks]
  split at since <;> omega

/-- A sample holds as many cycles as whole periods fit in a microsecond, or one more. -/
def Full (coreFreq : Rat) (m : MicroSec) : Prop :=
  microsec / cpuFreqMultiplier coreFreq ≤ m.cycles ∧
    m.cycles ≤ (microsec - 1) / cpuFreqMultiplier coreFreq + 1

theorem Sampled.samples_full (positive : 0 < cpuFreqMultiplier coreFreq) (run : List CoreActivity)
    (sampled : Sampled coreFreq s) : ∀ m ∈ samples coreFreq run s, Full coreFreq m := by
  -- A sample comes with the last tick of its microsecond, where the window is counted.
  induction run generalizing s with
  | nil => simp [samples]
  | cons a run ih =>
    intro m member
    rw [samples, List.mem_append] at member
    by_cases full : microsec ≤ s.ticks + 1 - s.powerCalcLastTick
    · have phase : s.cpuLastTick ≤ s.ticks := by
        have := sampled.window.low
        omega
      obtain ⟨taken, next⟩ := tick_samples (a := a) positive phase full
      rw [taken, List.mem_singleton] at member
      obtain rfl | later := member
      · have age : s.ticks - s.powerCalcLastTick = microsec - 1 := by
          have := sampled.recent
          omega
        have count := sampled.window.count positive
        rw [age, Int.sub_add_cancel] at count
        exact count
      · exact ih next m later
    · obtain ⟨taken, -, -, next⟩ := tick_waits coreFreq a full
      rw [taken] at member
      exact ih (next sampled) m (member.resolve_left (List.not_mem_nil))

theorem samples_tail_full (positive : 0 < cpuFreqMultiplier coreFreq) (run : List CoreActivity)
    (phase : s.cpuLastTick ≤ s.ticks) : ∀ m ∈ (samples coreFreq run s).tail, Full coreFreq m := by
  induction run generalizing s with
  | nil => simp [samples]
  | cons a run ih =>
    rw [samples]
    by_cases full : microsec ≤ s.ticks + 1 - s.powerCalcLastTick
    · obtain ⟨taken, next⟩ := tick_samples (a := a) positive phase full
      rw [taken]
      exact next.samples_full positive run
    · rw [(tick_waits coreFreq a full).1]
      exact ih (tick_phase phase)

theorem samples_ne_nil (positive : 0 < cpuFreqMultiplier coreFreq) (phase : s.cpuLastTick ≤ s.ticks)
    {run : List CoreActivity} (some_tick : run ≠ [])
    (long : microsec ≤ s.ticks + run.length - s.powerCalcLastTick) :
    samples coreFreq run s ≠ [] := by
  induction run generalizing s with
  | nil => exact absurd rfl some_tick
  | cons a run ih =>
    rw [samples]
    by_cases full : microsec ≤ s.ticks + 1 - s.powerCalcLastTick
    · rw [(tick_samples positive phase full).1]
      simp
    · obtain ⟨taken, ticks, last, -⟩ := tick_waits coreFreq a full
      rw [List.length_cons] at long
      rw [taken, List.nil_append]
      refine ih (tick_phase phase) ?_ ?_
      · rintro rfl
        simp only [List.length_nil] at long
        omega
      · rw [ticks, last]
        omega

theorem exists_later_sample {coreFreq : Rat} (positive : 0 < cpuFreqMultiplier coreFreq) :
    ∃ (s : PowerClock) (run : List CoreActivity), s.cpuLastTick ≤ s.ticks ∧
      ∃ m ∈ (samples coreFreq run s).tail, Full coreFreq m := by
  let start : PowerClock :=
    { ticks := microsec, powerCalcLastTick := 0, cpuLastTick := microsec, thisMicroSec := .zero }
  let idle : CoreActivity := { pstate := .idle, instructionsCommitted := 0, robFullStalls := 0 }
  have phase : start.cpuLastTick ≤ start.ticks := Int.le_refl _
  obtain ⟨taken, next⟩ := tick_samples (a := idle) positive phase (by decide)
  have later : samples coreFreq (List.replicate 10000 idle) (start.tick coreFreq idle).1 ≠ [] := by
    refine samples_ne_nil positive (tick_phase phase) ?_ ?_
    · rw [ne_eq, List.replicate_eq_nil_iff]
      decide
    · have := next.window.begun
      rw [List.length_replicate, microsec]
      omega
  obtain ⟨m, rest, shape⟩ := List.exists_cons_of_ne_nil later
  have tail : m ∈ (samples coreFreq (List.replicate 10001 idle) start).tail := by
    rw [List.replicate_succ, samples, taken, List.singleton_append, List.tail_cons, shape]
    exact List.mem_cons_self
  exact ⟨start, _, phase, m, tail, samples_tail_full positive _ phase m tail⟩

/-- The cycles of a sample fit the microsecond, and so do the fractions of its power states. -/
def Fits (coreFreq : Rat) (m : MicroSec) : Prop :=
  m.cycles ≤ oneMicrosec coreFreq ∧
    (m.portions coreFreq).1 + (m.portions coreFreq).2.1 + (m.portions coreFreq).2.2 ≤ 1

theorem fits_iff (positive : 0 < oneMicrosec coreFreq) :
    Fits coreFreq m ↔ m.cycles ≤ oneMicrosec coreFreq := by
  have divisor : (0 : Rat) < oneMicrosec coreFreq := by exact_mod_cast positive
  rw [Fits, and_iff_left_of_imp]
  intro few
  rw [MicroSec.portions, ← add_div, ← add_div, div_le_one divisor]
  exact_mod_cast few

/-- The platform clock is a whole multiple of a frequency. -/
def Divides (coreFreq : Rat) : Prop :=
  (gemdroidFreq / coreFreq).den = 1

instance (coreFreq : Rat) : Decidable (Divides coreFreq) := inferInstanceAs (Decidable (_ = _))

theorem divider_table : ∀ row ∈ coreVoltageFreq,
    0 < cpuFreqMultiplier row.2 ∧ 0 < oneMicrosec row.2 ∧
    (Divides row.2 → (microsec - 1) / cpuFreqMultiplier row.2 + 1 ≤ oneMicrosec row.2) ∧
    (¬ Divides row.2 → oneMicrosec row.2 < microsec / cpuFreqMultiplier row.2) := by
  decide +kernel

theorem Full.fits_iff {row : Rat × Rat} (tabulated : row ∈ coreVoltageFreq) (full : Full row.2 m) :
    Fits row.2 m ↔ Divides row.2 := by
  obtain ⟨-, positive, whole, truncated⟩ := divider_table row tabulated
  rw [PowerClock.fits_iff positive]
  obtain ⟨least, most⟩ := full
  constructor
  · intro few
    by_contra cut
    exact absurd (Int.le_trans least few) (Int.not_le.mpr (truncated cut))
  · exact fun divides => Int.le_trans most (whole divides)

/--
In a state held constant the cycles of all microseconds fit their divisor exactly if the platform
clock is a whole multiple of the frequency.
-/
theorem samples_fit_iff (row : Rat × Rat) (tabulated : row ∈ coreVoltageFreq) :
    (∀ (s : PowerClock) (run : List CoreActivity), s.cpuLastTick ≤ s.ticks →
      ∀ m ∈ (samples row.2 run s).tail, Fits row.2 m) ↔ Divides row.2 := by
  have positive := (divider_table row tabulated).1
  constructor
  · intro fit
    obtain ⟨s, run, phase, m, later, full⟩ := exists_later_sample positive
    exact (full.fits_iff tabulated).mp (fit s run phase m later)
  · intro divides s run phase m member
    exact ((samples_tail_full positive run phase m member).fits_iff tabulated).mpr divides

/-- The state of 1 GHz divides the platform clock, and the cycles of its microseconds fit. -/
theorem samples_fit_at_one_gigahertz :
    Divides 1 ∧ ∀ (s : PowerClock) (run : List CoreActivity), s.cpuLastTick ≤ s.ticks →
      ∀ m ∈ (samples 1 run s).tail, Fits 1 m := by
  have divides : Divides 1 := by decide +kernel
  exact ⟨divides, (samples_fit_iff (109 / 100, 1) (by decide +kernel)).mpr divides⟩

/-- In the highest state 2000 cycles fall into a microsecond that is divided by 1800. -/
theorem highest_state_too_many :
    ∃ (s : PowerClock) (run : List CoreActivity), s.cpuLastTick ≤ s.ticks ∧
      ∃ m ∈ (samples (18 / 10) run s).tail, m.cycles = 2000 ∧ oneMicrosec (18 / 10) = 1800 ∧
        ¬ Fits (18 / 10) m := by
  have period : cpuFreqMultiplier (18 / 10) = 5 := by decide +kernel
  have divisor : oneMicrosec (18 / 10) = 1800 := by decide +kernel
  have positive : 0 < cpuFreqMultiplier (18 / 10) := by rw [period]; decide
  obtain ⟨s, run, phase, m, later, least, most⟩ := exists_later_sample positive
  rw [period, microsec] at least most
  have count : m.cycles = 2000 := by omega
  refine ⟨s, run, phase, m, later, count, divisor, fun fits => ?_⟩
  have few := fits.1
  rw [count, divisor] at few
  exact absurd few (by decide)

end PowerClock

end GemDroid
