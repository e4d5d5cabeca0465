import GemDroid.Core.Tick

/-! When a frame is late, and how long an early one waits: display, audio and GPU. -/

namespace GemDroid

/-- Platform ticks between two frames of the GPU (`GPU_FPS_TICKS`). -/
def gpuFpsTicks : Rat := gemdroidFreq * 1000 * 1000 * 1000 / 60

/-- What a line of the GPU's trace reads and changes (`GemDroidIPGPU`). -/
structure GpuFrames where
  lastDCTick : Int
  fpsStalls : Int
  framesDropped : Int
  frameNum : Int
  writeToDCFlag : Bool
  addrToDC : Int
  deriving DecidableEq, Repr

/-- The GPU has rendered a frame (the `Rendered` line of `readLine`). -/
def GpuFrames.rendered (globalTicks : Int) (g : GpuFrames) : GpuFrames :=
  let ticksFromLastDC := toInt32 (globalTicks - g.lastDCTick)
  let g := { g with
    writeToDCFlag := true, addrToDC := dc1AddrStart, frameNum := g.frameNum + 1 }
  if ticksFromLastDC < gpuFpsTicks then
    { g with fpsStalls := Rounding.trunc (gpuFpsTicks - ticksFromLastDC) }
  else { g with lastDCTick := globalTicks, framesDropped := g.framesDropped + 1 }

/--
A frame that comes some ticks after the last one is dropped exactly when a period has passed, and
waits for what is left of the period otherwise.
-/
structure Paced (period : Rat) (elapsed : Int) (dropped : Bool) (stalls : Int) : Prop where
  late : dropped = true ↔ period ≤ elapsed
  early : dropped = false →
    stalls = Rounding.trunc (period - elapsed) ∧ 0 < stalls ∧ (stalls : Rat) ≤ period

/--
A whole tick of the period is left, or what a 32-bit integer keeps of the elapsed time still
reaches the period.
-/
def Measurable (period : Rat) (elapsed : Int) : Prop :=
  (elapsed : Rat) + 1 ≤ period ∨ period ≤ toInt32 elapsed

theorem toInt32_eq_self {value : Int} (low : 0 ≤ value) (high : value < 2 ^ 31) :
    toInt32 value = value := by
  rw [toInt32, Int.bmod_eq_of_le] <;> norm_num <;> omega

theorem toInt32_le_self {value : Int} (low : 0 ≤ value) : toInt32 value ≤ value := by
  have split := Int.emod_add_mul_ediv value (2 ^ 32)
  have positive := Int.emod_nonneg value (by norm_num : (2 ^ 32 : Int) ≠ 0)
  have quotient := Int.ediv_nonneg low (by norm_num : (0 : Int) ≤ 2 ^ 32)
  rw [toInt32, Int.bmod_def]
  norm_num at *
  split <;> omega

/-- The pacing by a 32-bit elapsed time is right exactly when that time can be measured so. -/
theorem paced_iff {period : Rat} (short : period < 2 ^ 31) {elapsed : Int} (passed : 0 ≤ elapsed)
    {dropped : Bool} {stalls : Int}
    (drops : dropped = true ↔ ¬(toInt32 elapsed : Rat) < period)
    (waits : dropped = false → stalls = Rounding.trunc (period - toInt32 elapsed)) :
    Paced period elapsed dropped stalls ↔ Measurable period elapsed := by
  have kept := toInt32_le_self passed
  have kept' : (toInt32 elapsed : Rat) ≤ elapsed := by exact_mod_cast kept
  by_cases soon : (elapsed : Rat) < period
  · -- The period fits 32 bits, and so does the elapsed time.
    have small : elapsed < 2 ^ 31 := by exact_mod_cast soon.trans short
    rw [toInt32_eq_self passed small] at drops waits
    have waiting : dropped = false := by
      by_contra not_false
      exact drops.mp (by simpa using not_false) soon
    have left : (0 : Rat) ≤ period - elapsed := by linarith
    have floor := waits waiting
    rw [Rounding.trunc_eq_floor left] at floor
    have floor_le : (stalls : Rat) ≤ period - elapsed := floor ▸ Int.floor_le _
    have nonneg : (0 : Rat) ≤ elapsed := by exact_mod_cast passed
    constructor
    · intro paced
      obtain ⟨-, some_left, -⟩ := paced.early waiting
      have one : (1 : Rat) ≤ stalls := by exact_mod_cast some_left
      exact .inl (by linarith)
    · intro measurable
      have room : (1 : Rat) ≤ period - elapsed := by
        obtain room | reached := measurable
        · linarith
        · rw [toInt32_eq_self passed small] at reached
          linarith
      refine ⟨?_, fun _ => ⟨waits waiting, ?_, by linarith⟩⟩
      · rw [waiting]
        exact iff_of_false Bool.false_ne_true (not_le.mpr soon)
      · rw [floor]
        exact Int.lt_of_lt_of_le Int.one_pos (Int.le_floor.mpr (by exact_mod_cast room))
  · have reached := not_lt.mp soon
    constructor
    · intro paced
      exact .inr (not_lt.mp (drops.mp (paced.late.mpr reached)))
    · intro measurable
      have late : period ≤ (toInt32 elapsed : Rat) := by
        obtain room | late := measurable
        · linarith
        · exact late
      have dropped_true := drops.mpr (not_lt.mpr late)
      exact ⟨iff_of_true dropped_true reached, fun early => by
        rw [dropped_true] at early; cases early⟩

namespace Core

theorem isFrameDrop_eq {cfg : CoreConfig} (c : Core) (env : TickEnv)
    (display : cfg.typeOfApplication = .displayBound ∨ cfg.typeOfApplication = .videoPlayback)
    (shown : c.lastDCTick ≠ 0) :
    ((c.isFrameDrop cfg env).2 = true ↔
        ¬(toInt32 (env.globalTicks - c.lastDCTick) : Rat) < fpsTicks) ∧
      ((c.isFrameDrop cfg env).2 = false → (c.isFrameDrop cfg env).1.fpsStalls =
        Rounding.trunc (fpsTicks - toInt32 (env.globalTicks - c.lastDCTick))) := by
  simp only [isFrameDrop, if_pos display, if_neg shown]
  split
  · rename_i early
    simp [early]
  · rename_i late
    -- Whatever the drop is put down to, the frame is dropped.
    split <;> try split
    all_goals simp [late]

theorem isAudioFrameDrop_eq {cfg : CoreConfig} (c : Core) (env : TickEnv)
    (audio : cfg.typeOfApplication = .audioPlayback) (played : c.lastSNDTick ≠ 0) :
    ((c.isAudioFrameDrop cfg env).2 = true ↔
        ¬(toInt32 (env.globalTicks - c.lastSNDTick) : Rat) < audFpsTicks) ∧
      ((c.isAudioFrameDrop cfg env).2 = false → (c.isAudioFrameDrop cfg env).1.audFpsStalls =
        Rounding.trunc (audFpsTicks - toInt32 (env.globalTicks - c.lastSNDTick))) := by
  simp only [isAudioFrameDrop, if_pos audio, if_neg played]
  split
  · rename_i early
    simp [early]
  · rename_i late
    simp [late]

end Core

theorem GpuFrames.rendered_eq (globalTicks : Int) (g : GpuFrames) :
    (decide ((g.rendered globalTicks).framesDropped ≠ g.framesDropped) = true ↔
        ¬(toInt32 (globalTicks - g.lastDCTick) : Rat) < gpuFpsTicks) ∧
      (decide ((g.rendered globalTicks).framesDropped ≠ g.framesDropped) = false →
        (g.rendered globalTicks).fpsStalls =
          Rounding.trunc (gpuFpsTicks - toInt32 (globalTicks - g.lastDCTick))) := by
  simp only [rendered]
  split
  · rename_i early
    simp [early]
  · rename_i late
    simp [late]

/--
At any tick after the last frame, the display pacing of a core, its audio pacing and that of the
GPU are right exactly when the elapsed time can be measured in 32 bits.
-/
theorem frames_paced_iff_measurable {last now : Int} (shown : 0 < last) (later : last ≤ now) :
    (∀ (cfg : CoreConfig) (env : TickEnv) (c : Core),
      cfg.typeOfApplication = .displayBound ∨ cfg.typeOfApplication = .videoPlayback →
      env.globalTicks = now → c.lastDCTick = last →
      (Paced fpsTicks (now - last) (c.isFrameDrop cfg env).2 (c.isFrameDrop cfg env).1.fpsStalls ↔
        Measurable fpsTicks (now - last))) ∧
    (∀ (cfg : CoreConfig) (env : TickEnv) (c : Core), cfg.typeOfApplication = .audioPlayback →
      env.globalTicks = now → c.lastSNDTick = last →
      (Paced audFpsTicks (now - last) (c.isAudioFrameDrop cfg env).2
          (c.isAudioFrameDrop cfg env).1.audFpsStalls ↔
        Measurable audFpsTicks (now - last))) ∧
    (∀ g : GpuFrames, g.lastDCTick = last →
      (Paced gpuFpsTicks (now - last)
          (decide ((g.rendered now).framesDropped ≠ g.framesDropped)) (g.rendered now).fpsStalls ↔
        Measurable gpuFpsTicks (now - last))) := by
  have passed : 0 ≤ now - last := by omega
  have short : fpsTicks < 2 ^ 31 := by norm_num [fpsTicks, gemdroidFreq]
  refine ⟨?_, ?_, ?_⟩
  · rintro cfg env c display rfl rfl
    obtain ⟨drops, waits⟩ := c.isFrameDrop_eq env display shown.ne'
    exact paced_iff short passed drops waits
  · rintro cfg env c audio rfl rfl
    obtain ⟨drops, waits⟩ := c.isAudioFrameDrop_eq env audio shown.ne'
    exact paced_iff short passed drops waits
  · rintro g rfl
    obtain ⟨drops, waits⟩ := g.rendered_eq now
    exact paced_iff short passed drops waits

/-- The statement at the first tick after a frame that was shown at the first tick. -/
theorem frames_paced_at_two :
    (0 : Int) < 1 ∧ (1 : Int) ≤ 2 ∧
      (Paced gpuFpsTicks (2 - 1)
          (decide ((GpuFrames.rendered 2 ⟨1, 0, 0, 0, false, 0⟩).framesDropped ≠ 0))
          (GpuFrames.rendered 2 ⟨1, 0, 0, 0, false, 0⟩).fpsStalls ↔
        Measurable gpuFpsTicks (2 - 1)) :=
  ⟨by decide, by decide,
    (frames_paced_iff_measurable (by decide) (by decide)).2.2 ⟨1, 0, 0, 0, false, 0⟩ rfl⟩

/-- A display-bound core without flows. -/
def displayBound (issueWidth : Nat) (inOrder : Bool) : CoreConfig :=
  { Core.coreBound issueWidth inOrder with typeOfApplication := .displayBound }

/--
A frame that comes more than two thousand million ticks late is not dropped, and one that comes
less than a tick early does not wait.
-/
theorem late_frame_not_dropped :
    ¬Paced fpsTicks (2147483649 - 1)
        ({ Core.started [] with lastDCTick := 1 }.isFrameDrop (displayBound 1 true)
          { Core.accepting with globalTicks := 2147483649 }).2
        ({ Core.started [] with lastDCTick := 1 }.isFrameDrop (displayBound 1 true)
          { Core.accepting with globalTicks := 2147483649 }).1.fpsStalls ∧
      ¬Paced fpsTicks (166666667 - 1)
        ({ Core.started [] with lastDCTick := 1 }.isFrameDrop (displayBound 1 true)
          { Core.accepting with globalTicks := 166666667 }).2
        ({ Core.started [] with lastDCTick := 1 }.isFrameDrop (displayBound 1 true)
          { Core.accepting with globalTicks := 166666667 }).1.fpsStalls := by
  obtain ⟨drops, -⟩ := { Core.started [] with lastDCTick := 1 : Core }.isFrameDrop_eq
    { Core.accepting with globalTicks := 2147483649 }
    (.inl rfl : (displayBound 1 true).typeOfApplication = .displayBound ∨ _) one_ne_zero
  obtain ⟨drops', waits⟩ := { Core.started [] with lastDCTick := 1 : Core }.isFrameDrop_eq
    { Core.accepting with globalTicks := 166666667 }
    (.inl rfl : (displayBound 1 true).typeOfApplication = .displayBound ∨ _) one_ne_zero
  have wrapped : toInt32 (2147483649 - 1) = -2147483648 := by decide
  have kept : toInt32 (166666667 - 1) = 166666666 := by decide
  rw [wrapped] at drops
  rw [kept] at drops' waits
  constructor
  · intro paced
    have late := drops.mp (paced.late.mpr (by norm_num [fpsTicks, gemdroidFreq]))
    norm_num [fpsTicks, gemdroidFreq] at late
  · intro paced
    have soon : ¬¬((166666666 : Int) : Rat) < fpsTicks := by norm_num [fpsTicks, gemdroidFreq]
    have early := Bool.eq_false_iff.mpr fun dropped => soon (drops'.mp dropped)
    have none_left : Rounding.trunc (fpsTicks - ((166666666 : Int) : Rat)) = 0 := by
      rw [Rounding.trunc_eq_floor] <;> norm_num [fpsTicks, gemdroidFreq, Int.floor_eq_iff]
    have some_left := (paced.early early).2.1
    rw [waits early, none_left] at some_left
    cases some_left

end GemDroid
