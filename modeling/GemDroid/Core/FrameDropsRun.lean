import GemDroid.Core.FrameDrops
import GemDroid.Core.Refinement
import GemDroid.Core.Responses

/-! The drop counters of a core and the classes of stalls behind them, over whole runs. -/

namespace GemDroid

open Outcome

namespace Core

variable {cfg : CoreConfig} {env : TickEnv} {c d : Core}

theorem isFrameDrop_frameStalls (cfg : CoreConfig) (env : TickEnv) (c : Core) :
    (c.isFrameDrop cfg env).1.frameStalls = .zero := by
  simp only [isFrameDrop]
  repeat' split
  all_goals rfl

theorem isFrameDrop_late (late : c.FrameLate cfg env) :
    (c.isFrameDrop cfg env).1.drops = c.drops.dropForIP := by
  obtain ⟨display, shown, late⟩ := late
  simp only [isFrameDrop, if_pos display, if_neg shown, if_neg (not_lt.mpr late), lt_self_iff_false,
    and_self, if_false]
  rfl

theorem isFrameDrop_early (early : ¬c.FrameLate cfg env) :
    (c.isFrameDrop cfg env).1.drops = c.drops := by
  simp only [isFrameDrop]
  split
  · rename_i display
    split
    · rfl
    · rename_i shown
      split
      · rfl
      · rename_i late
        exact absurd ⟨display, shown, not_lt.mp late⟩ early
  · rfl

theorem isAudioFrameDrop_same (cfg : CoreConfig) (env : TickEnv) (c : Core) :
    (c.isAudioFrameDrop cfg env).1.drops = c.drops := by
  simp only [isAudioFrameDrop]
  repeat' split
  all_goals rfl

theorem sendCall_drops (cfg : CoreConfig) (env : TickEnv) (call : TraceCall) (c : Core) :
    Ends Any (c.sendCall cfg env call) fun d => d.drops = c.drops := by
  simp only [sendCall]
  repeat' split
  all_goals trivial

theorem setIdleRatio_drops (c : Core) : c.setIdleRatio.drops = c.drops := rfl

theorem processIPCall_drops {op : IpOp} (other : op ≠ .fbUp) :
    Ends Any (c.processIPCall cfg env op) fun d => d.drops = c.drops := by
  cases op with
  | fbUp => exact absurd rfl other
  | nw | sndOut => exact sendCall_drops ..
  | other => exact rfl
  | cam =>
    simp only [processIPCall]
    split
    · exact rfl
    · exact sendCall_drops ..
  | sndIn =>
    simp only [processIPCall, ends_bind]
    have same := isAudioFrameDrop_same cfg env c
    cases audioCall cfg with
    | error e => trivial
    | ok call =>
      cases call with
      | none => exact same
      | some call => exact (sendCall_drops ..).mono fun d kept => kept.trans same

theorem processIPCall_display (cfg : CoreConfig) (env : TickEnv) (c : Core) :
    Ends Any (c.processIPCall cfg env .fbUp) fun d =>
      d.drops = (c.isFrameDrop cfg env).1.drops := by
  simp only [processIPCall, ends_bind]
  cases displayCall cfg (c.isFrameDrop cfg env).2 with
  | error e => trivial
  | ok call =>
    cases call with
    | none => exact rfl
    | some call => exact sendCall_drops ..

theorem readIpLine_drops {op : IpOp} {ws : List Word} {drops : DropCounters}
    (called : ∀ ws, Ends Any ({ c with emTraceFile := ws }.processIPCall cfg env op) fun d =>
      d.drops = drops) :
    Ends Any (c.readIpLine cfg env op ws) fun d => d.drops = drops := by
  simp only [readIpLine, ends_bind]
  refine (called _).mono fun d same => ?_
  rw [ends_pure]
  split
  · rw [setIdleRatio_drops, same]
  · exact same

theorem readLine_drops (other : c.atDisplayLine = false) :
    Ends Any (c.readLine cfg env) fun d => d.drops = c.drops := by
  simp only [readLine]
  split
  · trivial
  · rename_i active
    -- The lines are told apart by their first word.
    split
    · exact rfl
    · simp only [readCpuLine, ends_bind]
      exact (ends_any _).mono fun _ _ => rfl
    · simp only [readMmuLine, ends_bind]
      exact (ends_any _).mono fun _ _ => rfl
    · simp only [readMmuLine, ends_bind]
      exact (ends_any _).mono fun _ _ => rfl
    · exact rfl
    · exact rfl
    · rename_i op ws line
      refine readIpLine_drops fun ws' => processIPCall_drops ?_
      rintro rfl
      simp [atDisplayLine, not_not.mp active, line] at other
    · exact readIpLine_drops fun ws' => processIPCall_drops (by simp)

theorem readLine_display {drops : DropCounters} (display : c.atDisplayLine = true)
    (counted : ∀ ws, ({ c with emTraceFile := ws }.isFrameDrop cfg env).1.drops = drops) :
    Ends Any (c.readLine cfg env) fun d => d.drops = drops := by
  simp only [atDisplayLine, Bool.and_eq_true, decide_eq_true_eq] at display
  obtain ⟨active, head⟩ := display
  obtain ⟨ws, line⟩ := List.head?_eq_some_iff.mp head
  simp only [readLine, active, line]
  exact readIpLine_drops fun ws' =>
    (processIPCall_display ..).mono fun d same => same.trans (counted ws')

theorem lowerPState_drops (c : Core) : c.lowerPState.drops = c.drops := by
  rw [lowerPState_eq]
  rfl

theorem startWake_drops (c : Core) : c.startWake.drops = c.drops := by
  simp only [startWake]
  split <;> rfl

theorem wakeUp_drops (cfg : CoreConfig) (c : Core) : (c.wakeUp cfg).drops = c.drops := by
  simp only [wakeUp]
  split <;> rfl

theorem waitFps_drops (env : TickEnv) (c : Core) : (c.waitFps env).drops = c.drops := by
  simp only [waitFps]
  split
  · rw [startWake_drops]
    rfl
  · rfl

theorem waitAudFps_drops (env : TickEnv) (c : Core) : (c.waitAudFps env).drops = c.drops := by
  simp only [waitAudFps]
  split
  · rw [startWake_drops]
    rfl
  · rfl

theorem startTick_drops (c : Core) : Ends Any c.startTick fun d => d.drops = c.drops := by
  simp only [startTick]
  split
  · rw [ends_bind]
    exact (ends_any _).mono fun _ _ => rfl
  · exact rfl

theorem issue_drops (cfg : CoreConfig) (env : TickEnv) (c : Core) :
    Ends Any (c.issue cfg env) fun d => d.drops = c.drops := by
  simp only [issue]
  split
  · rw [ends_bind]
    exact (ends_any _).mono fun _ _ => rfl
  · rw [ends_bind]
    exact (ends_any _).mono fun _ _ => rfl

/-- A tick that is not at fault reads a line or leaves the counters of dropped frames alone. -/
theorem tick_cases (ticked : c.tick cfg env = .ok d) :
    (∃ c', c.readyForLine cfg env = .ok (some c') ∧ c'.readLine cfg env = .ok d ∧
      c'.drops = c.drops) ∨
    c.readyForLine cfg env = .ok none ∧ d.drops = c.drops := by
  simp only [tick] at ticked
  have started := startTick_drops c
  cases start : c.startTick with
  | error e =>
    rw [start] at ticked
    cases ticked
  | ok s =>
    rw [start] at ticked started
    have same : s.lowerPState.drops = c.drops := (lowerPState_drops s).trans started
    simp only [readyForLine, start, bind, Except.bind] at ticked ⊢
    -- Of waking, stalls and work the tick did one.
    simp only [endTick] at ticked
    split at ticked
    · rename_i waking
      obtain rfl := Except.ok.inj ticked
      exact .inr ⟨if_pos waking, (wakeUp_drops cfg s).trans started⟩
    rename_i awake
    simp only [if_neg awake]
    split at ticked
    · rename_i idle
      obtain rfl := Except.ok.inj ticked
      exact .inr ⟨if_pos (.inl idle), same⟩
    rename_i busy
    split at ticked
    · rename_i stalled
      obtain rfl := Except.ok.inj ticked
      exact .inr ⟨if_pos (.inr (.inl stalled)), (waitFps_drops ..).trans same⟩
    rename_i shown
    split at ticked
    · rename_i stalled
      obtain rfl := Except.ok.inj ticked
      exact .inr ⟨if_pos (.inr (.inr stalled)), (waitAudFps_drops ..).trans same⟩
    rename_i played
    simp only [busy, shown, played, or_self, if_false]
    have issued := issue_drops cfg env s.lowerPState
    simp only [issueAndRead, bind, Except.bind] at ticked
    cases result : s.lowerPState.issue cfg env with
    | error e =>
      rw [result] at ticked
      cases ticked
    | ok c' =>
      rw [result] at ticked issued
      simp only at ticked ⊢
      split at ticked
      · rename_i room
        exact .inl ⟨c', if_pos room, ticked, issued.trans same⟩
      · rename_i full
        obtain rfl := Except.ok.inj ticked
        exact .inr ⟨if_neg full, issued.trans same⟩

/-- A tick that gets to the trace is the reading of a line. -/
theorem tick_of_ready {c' : Core} (ready : c.readyForLine cfg env = .ok (some c')) :
    c.tick cfg env = c'.readLine cfg env := by
  simp only [readyForLine, tick, bind, Except.bind] at ready ⊢
  cases start : c.startTick with
  | error e =>
    rw [start] at ready
    cases ready
  | ok s =>
    rw [start] at ready
    simp only [endTick] at ready ⊢
    split at ready
    · cases ready
    rename_i awake
    split at ready
    · cases ready
    rename_i busy
    simp only [not_or] at busy
    simp only [if_neg awake, if_neg busy.1, if_neg busy.2.1, if_neg busy.2.2, issueAndRead, bind,
      Except.bind]
    cases result : s.lowerPState.issue cfg env with
    | error e =>
      rw [result] at ready
      cases ready
    | ok d =>
      rw [result] at ready
      simp only at ready ⊢
      split at ready
      · rename_i room
        obtain rfl := Option.some.inj (Except.ok.inj ready)
        exact if_pos room
      · cases ready

end Core

namespace FrameWatch

variable {cfg : CoreConfig} {w w' : FrameWatch} {e : CoreEvent}

theorem step_none {d : Core} (taken : w.core.step cfg e = some d)
    (inside : w.boundary cfg e = none) : d.drops = w.core.drops := by
  cases e with
  | memCoreResponse request =>
    obtain ⟨-, rfl⟩ := Core.step_memCoreResponse taken
    rfl
  | setDvfs dvfs =>
    obtain rfl := Core.step_setDvfs taken
    rfl
  | tick env =>
    obtain ⟨c', ready, read, same⟩ | ⟨-, same⟩ := Core.tick_cases (Core.step_tick taken)
    · simp only [boundary, ready, ite_eq_right_iff, reduceCtorEq, imp_false,
        Bool.not_eq_true] at inside
      exact ((Core.readLine_drops inside).of_ok read).trans same
    · exact same

theorem step_some {d : Core} {env : TickEnv} {c : Core} (taken : w.core.step cfg e = some d)
    (ends : w.boundary cfg e = some (env, c)) :
    (c.FrameLate cfg env → d.drops = w.core.drops.dropForIP) ∧
    (¬c.FrameLate cfg env → d.drops = w.core.drops) := by
  cases e with
  | memCoreResponse request | setDvfs dvfs => cases ends
  | tick env' =>
    simp only [boundary] at ends
    obtain ⟨c', ready, read, same⟩ | ⟨ready, -⟩ := Core.tick_cases (Core.step_tick taken)
    · simp only [ready, Option.ite_none_right_eq_some, Option.some.injEq, Prod.mk.injEq] at ends
      obtain ⟨display, rfl, rfl⟩ := ends
      constructor
      · intro late
        have counted : ∀ ws, ({ c' with emTraceFile := ws }.isFrameDrop cfg env').1.drops =
            c'.drops.dropForIP := fun ws => Core.isFrameDrop_late late
        rw [(Core.readLine_display display counted).of_ok read, same]
      · intro early
        have counted : ∀ ws, ({ c' with emTraceFile := ws }.isFrameDrop cfg env').1.drops =
            c'.drops := fun ws => Core.isFrameDrop_early early
        rw [(Core.readLine_display display counted).of_ok read, same]
    · simp [ready] at ends

/-- What every event keeps as long as no frame is dropped for want of the buffer or the memory. -/
structure Inv (w : FrameWatch) : Prop where
  stalls : w.stalls = w.core.frameStalls
  right : ∀ f ∈ w.dropped, f.Right
  counted : w.Counted

theorem step_stalls (exact' : w.stalls = w.core.frameStalls) (taken : w.step cfg e = some w') :
    w'.stalls = w'.core.frameStalls := by
  obtain ⟨d, -, rfl⟩ := Option.map_eq_some_iff.mp taken
  cases ends : w.boundary cfg e with
  | none => simp [record, seen, exact']
  | some at_line =>
    simp only [record, Core.isFrameDrop_frameStalls]
    exact FrameStalls.grow_self ..

theorem Counted.same (counted : w.Counted) (core : w'.core.drops = w.core.drops)
    (dropped : w'.dropped = w.dropped) : w'.Counted := by
  obtain ⟨all, rob, mem, ip, sum⟩ := counted
  simp only [Core.drops, DropCounters.mk.injEq] at core
  obtain ⟨core_all, core_rob, core_mem, core_ip⟩ := core
  simp only [charged] at rob mem ip
  refine ⟨?_, ?_, ?_, ?_, ?_⟩ <;>
    simp only [charged, core_all, core_rob, core_mem, core_ip, dropped, all, rob, mem, ip]
  rw [← rob, ← mem, ← ip, sum, all]

theorem Counted.drop (counted : w.Counted) {stalls : FrameStalls}
    (core : w'.core.drops = w.core.drops.dropForIP)
    (dropped : w'.dropped = w.dropped ++ [⟨stalls, .ip⟩]) : w'.Counted := by
  obtain ⟨all, rob, mem, ip, sum⟩ := counted
  simp only [Core.drops, DropCounters.dropForIP, DropCounters.mk.injEq] at core
  obtain ⟨core_all, core_rob, core_mem, core_ip⟩ := core
  simp only [charged] at rob mem ip
  refine ⟨?_, ?_, ?_, ?_, ?_⟩
  · rw [core_all, all, dropped]
    simp
  · rw [core_rob, rob, charged, dropped]
    simp
  · rw [core_mem, mem, charged, dropped]
    simp
  · rw [core_ip, ip, charged, dropped]
    simp
  · omega

theorem step_cases (taken : w.step cfg e = some w') :
    (w'.core.drops = w.core.drops ∧ w'.dropped = w.dropped ∧
      ∀ env c, w.boundary cfg e = some (env, c) → ¬c.FrameLate cfg env) ∨
    ∃ env c, w.boundary cfg e = some (env, c) ∧ c.FrameLate cfg env ∧
      w'.core.drops = w.core.drops.dropForIP ∧ w'.dropped = w.dropped ++ [⟨w.seen c, .ip⟩] := by
  obtain ⟨d, stepped, rfl⟩ := Option.map_eq_some_iff.mp taken
  cases ends : w.boundary cfg e with
  | none => exact .inl ⟨step_none stepped ends, rfl, fun env c some' => by cases some'⟩
  | some at_line =>
    obtain ⟨env, c⟩ := at_line
    obtain ⟨late_drops, early_drops⟩ := step_some stepped ends
    by_cases late : c.FrameLate cfg env
    · have drops := late_drops late
      refine .inr ⟨env, c, rfl, late, drops, ?_⟩
      simp only [Core.drops, DropCounters.dropForIP, DropCounters.mk.injEq] at drops
      obtain ⟨all, rob, mem, -⟩ := drops
      simp [record, Core.chargedTo, all, rob, mem]
    · have drops := early_drops late
      refine .inl ⟨drops, ?_, ?_⟩
      · simp only [Core.drops, DropCounters.mk.injEq] at drops
        simp [record, drops.1]
      · intro env' c' same
        obtain ⟨rfl, rfl⟩ := Prod.mk.inj (Option.some.inj same)
        exact late

theorem right_of_excused {stalls : FrameStalls} (excused : ¬stalls.Most .rob ∧ ¬stalls.Most .mem) :
    (⟨stalls, .ip⟩ : DroppedFrame).Right := by
  intro cause most
  cases cause with
  | rob => exact absurd most excused.1
  | mem => exact absurd most excused.2
  | ip => rfl

theorem Inv.step (inv : w.Inv) (excused : w.Excused cfg e) (taken : w.step cfg e = some w') :
    w'.Inv := by
  refine ⟨step_stalls inv.stalls taken, ?_, ?_⟩
  · obtain ⟨-, dropped, -⟩ | ⟨env, c, ends, late, -, dropped⟩ := step_cases taken
    · exact dropped ▸ inv.right
    · intro f member
      rw [dropped] at member
      obtain member | member := List.mem_append.mp member
      · exact inv.right f member
      · obtain rfl := List.mem_singleton.mp member
        exact right_of_excused (excused env c ends late)
  · obtain ⟨core, dropped, -⟩ | ⟨env, c, -, -, core, dropped⟩ := step_cases taken
    · exact inv.counted.same core dropped
    · exact inv.counted.drop core dropped

theorem inv_start {held : CoreDvfs} {trace : List Word} {coreFreq optDVFSState : Int} {c : Core}
    (built : Core.init cfg held trace coreFreq optDVFSState = .ok c) :
    ({ core := c } : FrameWatch).Inv := by
  have fresh : c.frameStalls = .zero ∧ c.drops = ⟨0, 0, 0, 0⟩ := by
    simp only [Core.init] at built
    split at built
    · obtain rfl := Except.ok.inj built
      -- Neither the look ahead nor the wake-up counts anything.
      simp only [Core.setPStateActive]
      split <;> exact ⟨rfl, rfl⟩
    · cases built
  obtain ⟨stalls, drops⟩ := fresh
  simp only [Core.drops, DropCounters.mk.injEq] at drops
  obtain ⟨all, rob, mem, ip⟩ := drops
  refine ⟨stalls.symm, ?_, ⟨all, rob, mem, ip, ?_⟩⟩
  · intro f member
    cases member
  · simp only [all, rob, mem, ip]
    rfl

end FrameWatch

namespace Core

variable {c : Core}

/-- A platform that takes no memory request, at a time of its clock. -/
def refusingAt (globalTicks : Int) : TickEnv :=
  { globalTicks, accepts := fun _ => false, limitReached := fun _ => false }

/-- A number of lines that load the same word. -/
def loadLines : Nat → List Word
  | 0 => []
  | n + 1 => loadLine ++ loadLines n

/-- A buffer whose only entry is a load that was not sent. -/
def unsentRob : Rob :=
  { Rob.empty with
    outstandingTransactions := [⟨.mmuLd, 0, 0, 64, false, -1, false, 0⟩]
    outstandingTransactionsSize := 1
    nextTag := 1 }

/-- An active core whose load the memory has not taken yet. -/
structure Unsent (c : Core) : Prop where
  rob : c.pipe.rob = unsentRob
  robStalls : c.pipe.thisFrameRobFullStalls = 0
  ipStalls : c.thisFrameIPFullStalls = 0
  awake : c.cyclesToWake = 0
  active : c.cpuPstate = .active
  busy : c.pipe.idleCycles < corePstateLowpowerEnterTime
  idle : c.idleStalls = 0
  played : c.audFpsStalls = 0

/-- A core that waits for nothing but the memory to take its load. -/
structure Refused (c : Core) : Prop extends Unsent c where
  shown : c.fpsStalls ≤ 0

/-- The core after one more refusal. -/
def refuse (c : Core) : Core :=
  { c with
    ticks := c.ticks + 1
    pipe := { c.pipe with thisFrameMemFullStalls := c.pipe.thisFrameMemFullStalls + 1 } }

theorem Refused.refuse (waits : c.Refused) : c.refuse.Refused :=
  { waits with }

theorem Unsent.startTick (waits : c.Unsent) :
    c.startTick = .ok { c with ticks := c.ticks + 1 } := by
  simp only [Core.startTick]
  split
  · have unsent : c.pipe.rob.checkDeadlock (c.ticks + 1) = .ok c.pipe.rob := by
      rw [waits.rob]
      rfl
    rw [unsent]
    rfl
  · rfl

theorem Unsent.issue (waits : c.Unsent) (globalTicks : Int) :
    c.issue (displayBound 1 true) (refusingAt globalTicks) =
      .ok { c with pipe :=
        { c.pipe with thisFrameMemFullStalls := c.pipe.thisFrameMemFullStalls + 1 } } := by
  have rob := waits.rob
  have round : c.pipe.inOrderRound c.ticks false =
      .ok { c.pipe with thisFrameMemFullStalls := c.pipe.thisFrameMemFullStalls + 1 } := by
    simp [Pipeline.inOrderRound, rob, unsentRob, Transaction.isMemory]
  simp only [Core.issue, displayBound, coreBound, Pipeline.inOrderProcess, refusingAt]
  simp [List.range_succ, round, bind, Except.bind, pure, Except.pure]

theorem Unsent.lowerPState (waits : c.Unsent) : c.lowerPState = c := by
  simp [Core.lowerPState, waits.active, not_le.mpr waits.busy]

theorem Refused.readyForLine (waits : c.Refused) (globalTicks : Int) :
    c.readyForLine (displayBound 1 true) (refusingAt globalTicks) = .ok (some c.refuse) := by
  have counted : ({ c with ticks := c.ticks + 1 } : Core).Refused := { waits with }
  have started := waits.startTick
  have room : c.refuse.pipe.rob.numberOfInstrExecutedOoO < robSize ∧
      c.refuse.pipe.rob.outstandingTransactionsSize < maxTransactions := by
    rw [waits.refuse.rob]
    decide
  have issued : ({ c with ticks := c.ticks + 1 } : Core).issue (displayBound 1 true)
      (refusingAt globalTicks) = .ok c.refuse := counted.issue globalTicks
  -- From here on the core that has counted its tick is as good as any other.
  generalize ({ c with ticks := c.ticks + 1 } : Core) = s at counted started issued
  simp only [Core.readyForLine, started, bind, Except.bind, counted.awake, lt_irrefl, if_false,
    counted.lowerPState, counted.idle, not_lt.mpr counted.shown, counted.played, or_self, issued]
  exact if_pos room

theorem Refused.tick (waits : c.Refused) (globalTicks : Int) :
    c.tick (displayBound 1 true) (refusingAt globalTicks) =
      c.refuse.readLine (displayBound 1 true) (refusingAt globalTicks) :=
  tick_of_ready (waits.readyForLine globalTicks)

theorem Refused.readLoad {ws : List Word} (waits : c.Refused)
    (next : c.emTraceFile = loadLine ++ ws) (globalTicks : Int) :
    c.readLine (displayBound 1 true) (refusingAt globalTicks) =
      .ok { c with emTraceFile := ws } := by
  have served : c.pipe.rob.processMMURequest true (BitVec.ofInt 64 (64 + addrOffset 0)) =
      .ok c.pipe.rob := by
    rw [waits.rob]
    rfl
  simp [readLine, waits.active, next, loadLine, readMmuLine, readNum, displayBound, coreBound,
    served, bind, Except.bind, pure, Except.pure]

theorem firstFrame (first : c.lastDCTick = 0) (globalTicks : Int) :
    c.processIPCall (displayBound 1 true) (refusingAt globalTicks) .fbUp = .ok
      { c with
        pipe := { c.pipe with thisFrameRobFullStalls := 0, thisFrameMemFullStalls := 0 }
        thisFrameIPFullStalls := 0
        frameNumber := Function.update c.frameNumber .dc (c.frameNumber .dc + 1)
        fpsStalls := Rounding.trunc (fpsTicks - c.ticks)
        readFBLine := true } := by
  have none_called : displayCall (displayBound 1 true) false = .ok none := rfl
  have display : (displayBound 1 true).typeOfApplication = .displayBound := rfl
  simp [processIPCall, isFrameDrop, display, first, none_called, bind, Except.bind, pure,
    Except.pure]

/-- The core after the cycle that ends its wait for the time of a frame. -/
def endWait (globalTicks : Int) (c : Core) : Core :=
  { ({ c with fpsStalls := -9 } : Core).countIdle with
    framesDisplayed := c.framesDisplayed + 1, lastDCTick := globalTicks }

theorem Unsent.waitFps_last {globalTicks : Int} (waits : c.Unsent) (ghz : c.dvfs.dvfsState = 7)
    (last : c.fpsStalls = 1) : c.waitFps (refusingAt globalTicks) = c.endWait globalTicks := by
  have freq : c.dvfs.getCoreFreq = 1 := by
    rw [CoreDvfs.getCoreFreq, ghz]
    decide +kernel
  have left : c.stallLeft c.fpsStalls = -9 := by
    rw [stallLeft, freq, last]
    decide +kernel
  simp [waitFps, left, countIdle, startWake, waits.active, refusingAt, endWait]

theorem Unsent.tick_last (waits : c.Unsent) (ghz : c.dvfs.dvfsState = 7)
    (last : c.fpsStalls = 1) (globalTicks : Int) :
    c.tick (displayBound 1 true) (refusingAt globalTicks) =
        .ok (({ c with ticks := c.ticks + 1 } : Core).endWait globalTicks) ∧
      c.readyForLine (displayBound 1 true) (refusingAt globalTicks) = .ok none := by
  have counted : ({ c with ticks := c.ticks + 1 } : Core).Unsent := { waits with }
  have started := waits.startTick
  have waited : ({ c with ticks := c.ticks + 1 } : Core).waitFps (refusingAt globalTicks) =
      ({ c with ticks := c.ticks + 1 } : Core).endWait globalTicks :=
    counted.waitFps_last ghz last
  have pending : 0 < ({ c with ticks := c.ticks + 1 } : Core).fpsStalls := by
    simp [last]
  generalize ({ c with ticks := c.ticks + 1 } : Core) = s at counted started waited pending ⊢
  constructor
  · simp only [Core.tick, started, bind, Except.bind, endTick, counted.awake, lt_irrefl, if_false,
      counted.lowerPState, counted.idle, if_pos pending, waited]
  · simp only [Core.readyForLine, started, bind, Except.bind, counted.awake, lt_irrefl, if_false,
      counted.lowerPState, pending, true_or, or_true, if_true]
    rfl

end Core

namespace FrameWatch

/-- A core waits for the memory to take its load, with some lines that load it again to come. -/
structure Stalled (lines : Nat) (ws : List Word) (ticks lastDCTick : Int) (w : FrameWatch) :
    Prop where
  waits : w.core.Refused
  trace : w.core.emTraceFile = Core.loadLines lines ++ ws
  ticks : w.core.ticks = ticks
  shown : w.core.lastDCTick = lastDCTick
  fresh : lastDCTick = 0 → w.core.pipe.idleCycles ≤ 1
  ghz : w.core.dvfs.dvfsState = 7
  mem : 0 ≤ w.core.pipe.thisFrameMemFullStalls
  stalls : w.stalls = w.core.frameStalls

variable {lines : Nat} {ws : List Word} {ticks lastDCTick globalTicks : Int} {w : FrameWatch}

/-- A core whose first frame is a tick away has its load still unsent. -/
structure Shown (ws : List Word) (ticks : Int) (w : FrameWatch) : Prop where
  waits : w.core.Unsent
  last : w.core.fpsStalls = 1
  fresh : w.core.pipe.idleCycles ≤ 1
  trace : w.core.emTraceFile = ws
  ticks : w.core.ticks = ticks
  ghz : w.core.dvfs.dvfsState = 7
  mem : 0 ≤ w.core.pipe.thisFrameMemFullStalls
  stalls : w.stalls = w.core.frameStalls

theorem Shown.step (shown : w.Shown (Core.loadLines lines ++ ws) ticks) (later : globalTicks ≠ 0) :
    ∃ w', w.step (displayBound 1 true) (.tick (Core.refusingAt globalTicks)) = some w' ∧
      w'.Stalled lines ws (ticks + 1) globalTicks := by
  obtain ⟨waits, last, fresh, trace, at_ticks, ghz, mem, stalls⟩ := shown
  obtain ⟨ticked, ready⟩ := waits.tick_last ghz last globalTicks
  have taken : w.step (displayBound 1 true) (.tick (Core.refusingAt globalTicks)) =
      some (w.record (displayBound 1 true)
        (({ w.core with ticks := w.core.ticks + 1 } : Core).endWait globalTicks) none) := by
    simp [FrameWatch.step, Core.step, ticked, Except.toOption, boundary, ready]
  have busy : w.core.pipe.idleCycles + 1 < corePstateLowpowerEnterTime := by
    rw [corePstateLowpowerEnterTime]
    omega
  refine ⟨_, taken, ?_, trace, ?_, rfl, ?_, ghz, mem, ?_⟩
  · exact { waits with busy := busy, shown := (by decide : (-9 : Int) ≤ 0) }
  · simp [record, Core.endWait, Core.countIdle, at_ticks]
  · exact fun never => absurd never later
  · simp [record, seen, stalls]

end FrameWatch

end GemDroid
