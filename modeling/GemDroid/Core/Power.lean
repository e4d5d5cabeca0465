import GemDroid.Core.Accounting

/-! The power state of a core when it reads its trace. -/

namespace GemDroid

namespace Core

/-- A core in low power has something to wake up for. -/
def Wakeable (c : Core) : Prop :=
  c.cpuPstate = .active ∨
    c.cpuPstate = .lowPower ∧ (0 < c.cyclesToWake ∨ 0 < c.fpsStalls ∨ 0 < c.audFpsStalls)

/-- A tick that puts a core into low power does so while the core waits for a frame. -/
def SleepsForFrame (c : Core) : CoreEvent → Prop
  | .tick _ => c.cyclesToWake ≤ 0 → c.cpuPstate = .active →
      corePstateLowpowerEnterTime ≤ c.pipe.idleCycles → 0 < c.fpsStalls ∨ 0 < c.audFpsStalls
  | .memCoreResponse _ | .setDvfs _ => True

theorem lowerPState_waits {c : Core} {env : TickEnv} (wakeable : c.Wakeable)
    (permitted : c.SleepsForFrame (.tick env)) (awake : c.cyclesToWake ≤ 0) :
    c.lowerPState.cpuPstate = .active ∨ c.lowerPState.cpuPstate = .lowPower ∧
      (0 < c.lowerPState.fpsStalls ∨ 0 < c.lowerPState.audFpsStalls) := by
  -- Either this tick puts the core into low power, or an earlier one did.
  simp only [lowerPState_eq]
  rcases wakeable with active | ⟨low, waking | frame⟩
  · by_cases long : corePstateLowpowerEnterTime ≤ c.pipe.idleCycles
    · exact .inr ⟨by simp [active, long], permitted awake active long⟩
    · exact .inl (by simp [active, long])
  · omega
  · exact .inr ⟨by simp [low], frame⟩

theorem startWake_wakeable {c : Core} (known : c.cpuPstate = .active ∨ c.cpuPstate = .lowPower) :
    c.startWake.Wakeable := by
  -- An active core stays so, and one in low power gets its exit time.
  rcases known with active | low
  · left
    simp [startWake, active]
  · right
    simp [startWake, low, corePstateLowpowerExitTime]

theorem waitFps_wakeable {c : Core} (env : TickEnv)
    (known : c.cpuPstate = .active ∨ c.cpuPstate = .lowPower) : (c.waitFps env).Wakeable := by
  -- The last cycle of the wait begins the wake-up, and any other leaves some of it.
  unfold waitFps
  simp only
  split
  · exact startWake_wakeable known
  case isFalse left =>
    rcases known with active | low
    · exact .inl active
    · exact .inr ⟨low, .inr (.inl (not_le.mp left))⟩

theorem waitAudFps_wakeable {c : Core} (env : TickEnv)
    (known : c.cpuPstate = .active ∨ c.cpuPstate = .lowPower) : (c.waitAudFps env).Wakeable := by
  -- The last cycle of the wait begins the wake-up, and any other leaves some of it.
  unfold waitAudFps
  simp only
  split
  · exact startWake_wakeable known
  case isFalse left =>
    rcases known with active | low
    · exact .inl active
    · exact .inr ⟨low, .inr (.inr (not_le.mp left))⟩

theorem wakeUp_wakeable {c : Core} (cfg : CoreConfig) (wakeable : c.Wakeable)
    (waking : 0 < c.cyclesToWake) : (c.wakeUp cfg).Wakeable := by
  -- The last waking cycle makes the core active, and any other leaves one to spend.
  unfold wakeUp
  simp only
  split
  · exact .inl rfl
  case isFalse left =>
    rcases wakeable with active | ⟨low, -⟩
    · exact .inl active
    · refine .inr ⟨low, .inl ?_⟩
      simp only at left ⊢
      omega

/-- The rest of a tick leaves a core that can be woken, and it never reads asleep. -/
theorem endTick_wakeable {c : Core} (cfg : CoreConfig) (env : TickEnv)
    (sized : c.pipe.rob.Sized) (wakeable : c.Wakeable)
    (permitted : c.SleepsForFrame (.tick env)) :
    Outcome.Ends CoreFault.FromInput (c.endTick cfg env) Wakeable := by
  unfold endTick
  simp only
  split
  case isTrue waking => exact wakeUp_wakeable cfg wakeable waking
  case isFalse awake =>
    have waits := lowerPState_waits wakeable permitted (not_lt.mp awake)
    have known := waits.imp_right And.left
    have same : c.lowerPState.pipe.rob = c.pipe.rob := by rw [lowerPState_eq]
    split
    case isTrue => exact waits.imp_right fun ⟨low, frame⟩ => ⟨low, .inr frame⟩
    case isFalse =>
      split
      case isTrue => exact waitFps_wakeable env known
      case isFalse fps =>
        split
        case isTrue => exact waitAudFps_wakeable env known
        case isFalse aud =>
          -- No frame is waited for, so the core is active when it comes to issue and read.
          have active : c.lowerPState.cpuPstate = .active := by
            rcases waits with active | ⟨-, frame | frame⟩
            · exact active
            · exact absurd frame fps
            · exact absurd frame aud
          refine ((issueAndRead_ends cfg env (same ▸ sized)).mono fun d advanced =>
            .inl (advanced.cpuPstate.trans active)).mono_fault ?_
          rintro fault (input | ⟨-, asleep⟩)
          · exact input
          · exact absurd active asleep

theorem tick_wakeable {c : Core} (cfg : CoreConfig) (env : TickEnv) (sized : c.pipe.rob.Sized)
    (wakeable : c.Wakeable) (permitted : c.SleepsForFrame (.tick env)) :
    Outcome.Ends CoreFault.FromInput (c.tick cfg env) Wakeable := by
  rw [tick, Outcome.ends_bind]
  refine (startTick_ends (!cfg.inOrder) sized).mono ?_
  rintro d ⟨rob, moves, rfl⟩
  -- The start of the tick changes nothing that the power state depends on.
  exact endTick_wakeable cfg env (moves.sized sized) wakeable permitted

theorem step_wakeable {cfg : CoreConfig} {c d : Core} {e : CoreEvent} (sized : c.pipe.rob.Sized)
    (wakeable : c.Wakeable) (permitted : c.SleepsForFrame e) (taken : step cfg c e = some d) :
    d.Wakeable := by
  -- Responses and changes of frequency leave the power state alone.
  cases e with
  | tick env => exact (tick_wakeable cfg env sized wakeable permitted).of_ok (step_tick taken)
  | memCoreResponse request =>
    obtain ⟨-, rfl⟩ := step_memCoreResponse taken
    exact wakeable
  | setDvfs dvfs =>
    obtain rfl := step_setDvfs taken
    exact wakeable

/--
The core is active whenever it reads its trace, in every run that puts it into low power only
while it waits for a frame.

The end of that wait is the only thing that wakes a core.
-/
theorem readLine_only_active (cfg : CoreConfig) (held : CoreDvfs) (trace : List Word)
    (coreFreq optDVFSState : Int) (es : List CoreEvent) (c d : Core) (env : TickEnv)
    (built : init cfg held trace coreFreq optDVFSState = .ok c)
    (meets : Machine.Meets (step cfg) SleepsForFrame c es)
    (ran : Machine.run (step cfg) c es = some d) (permitted : d.SleepsForFrame (.tick env)) :
    d.tick cfg env ≠ .error .notActive := by
  -- The invariant holds up to the last tick, which then ends without the assertion.
  have kept := Machine.run_preserves_of_meets
    (fun c e d (inv : Rob.Accounted (!cfg.inOrder) c.pipe.rob ∧ c.Wakeable) permitted taken =>
      ⟨step_accounted inv.1 taken, step_wakeable inv.1.sized inv.2 permitted taken⟩)
    ⟨(init_fresh built).1 ▸ Rob.accounted_empty _, .inl (init_fresh built).2⟩ meets ran
  intro failed
  have faults := (tick_wakeable cfg env kept.1.sized kept.2 permitted).of_error failed
  rcases faults with wrong | wrong <;> cases wrong

/-- A core that was idle for two ticks only is active when it reads. -/
theorem short_idle_reads_active :
    ∃ es d, Machine.run (step (coreBound 1 true)) (started []) es = some d ∧
      d.tick (coreBound 1 true) accepting ≠ .error .notActive := by
  let es : List CoreEvent := [.tick accepting, .tick accepting]
  have short : (Machine.run (step (coreBound 1 true)) (started []) es).any
      (fun d => d.pipe.idleCycles = 2) = true := by
    decide +kernel
  obtain ⟨d, ran, two⟩ := (Option.any_eq_true _ _).mp short
  have below : ¬ corePstateLowpowerEnterTime ≤ d.pipe.idleCycles := by
    rw [of_decide_eq_true two]
    decide
  refine ⟨es, d, ran, readLine_only_active _ _ [] 1000 7 es _ d accepting
    (init_started 1 true []) ?_ ran fun _ _ long => absurd long below⟩
  -- Neither of the two ticks finds the core idle for long.
  intro first taken
  have one : first = (step (coreBound 1 true) (started []) (.tick accepting)).get rfl :=
    (Option.get_of_eq_some _ taken).symm
  subst one
  refine ⟨fun _ _ long => absurd long (by decide), fun second taken => ⟨?_, trivial⟩⟩
  exact fun _ _ long => absurd long (by decide +kernel)

/-- The in-order core of an exhausted trace after `k` ticks. -/
def idleFor (k : Nat) : Core :=
  { started [] with ticks := k, pipe := { Pipeline.empty with idleCycles := k } }

theorem step_idleFor {k : Nat} (short : k < 200000) :
    step (coreBound 1 true) (idleFor k) (.tick accepting) = some (idleFor (k + 1)) := by
  have below : ¬ corePstateLowpowerEnterTime ≤ (k : Int) := by
    simp only [corePstateLowpowerEnterTime]
    omega
  have begun : (idleFor k).startTick = .ok { idleFor k with ticks := k + 1 } := by
    simp only [startTick]
    split <;> rfl
  have stays : { idleFor k with ticks := k + 1 }.lowerPState =
      { idleFor k with ticks := k + 1 } := by
    simp [lowerPState, idleFor, started, new, below]
  simp only [step, tick, begun]
  -- The buffer is empty and the trace has ended, so the rest of the tick is computed.
  change ({ idleFor k with ticks := k + 1 }.endTick (coreBound 1 true) accepting).toOption = _
  unfold endTick
  rw [stays]
  rfl

/--
A core-bound core whose trace has ended goes to low power and fails at its next read.

Nothing in the run makes the core wait for a frame, so nothing wakes it.
-/
theorem exhausted_trace_reads_asleep :
    ∃ es d, Machine.run (step (coreBound 1 true)) (started []) es = some d ∧
      d.tick (coreBound 1 true) accepting = .error .notActive := by
  -- The idle cycles of 200000 ticks reach the threshold, and the next tick crosses it.
  have linked : ∀ k < 200000, step (coreBound 1 true) (idleFor k) (.tick accepting) =
      some (idleFor (k + 1)) := fun k short => step_idleFor short
  have first : started [] = idleFor 0 := rfl
  refine ⟨List.replicate 200000 (.tick accepting), idleFor 200000, ?_, ?_⟩
  · rw [first]
    exact Machine.run_replicate linked
  · have begun : (idleFor 200000).startTick = .ok { idleFor 200000 with ticks := 200001 } := by
      simp only [startTick]
      split <;> rfl
    have asleep : { idleFor 200000 with ticks := 200001 }.lowerPState =
        { idleFor 0 with ticks := 200001, cpuPstate := .lowPower } := by
      simp [lowerPState, idleFor, started, new, corePstateLowpowerEnterTime, Pipeline.empty]
    simp only [tick, begun]
    change { idleFor 200000 with ticks := 200001 }.endTick (coreBound 1 true) accepting = _
    unfold endTick
    rw [asleep]
    rfl

end Core

end GemDroid
