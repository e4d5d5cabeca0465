import GemDroid.Core.Moves

/-! The ticks of a core refine the moves of its reorder buffer. -/

namespace GemDroid

open Outcome

namespace Pipeline

/-- The rounds of an issue loop move the buffer on and append nothing. -/
def Issued (ooo : Bool) (p q : Pipeline) : Prop :=
  Rob.Moves ooo p.rob q.rob ∧
    q.rob.outstandingTransactions.length ≤ p.rob.outstandingTransactions.length

theorem Issued.of_eq {ooo : Bool} {p q : Pipeline} (same : q.rob = p.rob) : Issued ooo p q := by
  rw [Issued, same]
  exact ⟨.refl, le_refl _⟩

theorem Issued.trans {ooo : Bool} {p q s : Pipeline} (first : Issued ooo p q)
    (second : Issued ooo q s) : Issued ooo p s :=
  ⟨first.1.trans second.1, second.2.trans first.2⟩

@[simp] theorem streakCalculator_rob (p : Pipeline) : p.streakCalculator.rob = p.rob := by
  unfold streakCalculator
  split <;> rfl

theorem exists_head {r : Rob} (sized : r.Sized) (occupied : 0 < r.outstandingTransactionsSize) :
    ∃ head rest, r.outstandingTransactions = head :: rest := by
  -- An empty buffer has size zero.
  cases found : r.outstandingTransactions with
  | nil =>
    rw [sized.1, found] at occupied
    simp at occupied
  | cons head rest => exact ⟨head, rest, rfl⟩

variable {ooo : Bool} {p : Pipeline}

theorem Issued.of_move {q : Pipeline} (move : Rob.Move ooo p.rob q.rob)
    (shorter : q.rob.outstandingTransactions.length ≤ p.rob.outstandingTransactions.length) :
    Issued ooo p q :=
  ⟨.single move, shorter⟩

/-- A round of in-order issue makes at most one move. -/
theorem inOrderRound_ends (sized : p.rob.Sized) (ticks : Int) (accepted : Bool) :
    Ends CoreFault.FromInput (p.inOrderRound ticks accepted) (Issued false p) := by
  -- The branches are those of the source: a load or store at the head, or instructions.
  unfold inOrderRound
  split
  case isFalse => exact .of_eq rfl
  case isTrue occupied =>
    obtain ⟨head, rest, found⟩ := exists_head sized occupied
    have first : p.rob.outstandingTransactions[0]? = some head := by rw [found]; rfl
    simp only [found]
    split
    case isTrue memory =>
      split
      case isTrue ready =>
        rw [ends_bind]
        refine (Rob.commitMemory_ends false sized found memory ready).mono
          fun rob ⟨move, left⟩ => ?_
        exact .of_move move (by simp [left, found])
      case isFalse waiting =>
        split
        case isTrue unissued =>
          split
          case isTrue =>
            rw [ends_bind]
            refine (Rob.issueToMem_ends false ticks first memory (by simpa using unissued)).mono
              fun rob ⟨move, length⟩ => ?_
            exact .of_move move length.le
          case isFalse => exact .of_eq rfl
        case isFalse => exact .of_eq rfl
    case isFalse compute =>
      have compute : head.isMemory = false := by simpa using compute
      split
      case isTrue left =>
        rw [Rob.commitInstruction_eq left]
        refine .of_move ?_ (by simp)
        simpa [found] using @Rob.Move.execute false p.rob head [] rest found compute left nofun
      case isFalse =>
        split
        case isTrue done =>
          rw [ends_bind]
          refine (Rob.commitEmpty_ends false sized found compute done nofun).mono
            fun rob ⟨move, left⟩ => ?_
          exact .of_move move (by simp [left, found])
        case isFalse => exact .of_eq rfl

theorem inOrderProcess_ends (sized : p.rob.Sized) (issueWidth : Nat) (ticks : Int)
    (accepts : Nat → Bool) :
    Ends CoreFault.FromInput (p.inOrderProcess issueWidth ticks accepts) (Issued false p) := by
  -- Every round starts from a buffer whose counter is still exact.
  refine ends_foldlM (fun q j issued => ?_) _ (.of_eq rfl)
  exact (inOrderRound_ends (issued.1.sized sized) ticks (accepts j)).mono fun _ => issued.trans

theorem drainHead_ends {head : Transaction} {rest : List Transaction} (sized : p.rob.Sized)
    (found : p.rob.outstandingTransactions = head :: rest) (compute : head.isMemory = false) :
    Ends CoreFault.FromInput (p.drainHead head) (Issued true p) := by
  let rob := { p.rob.setTransaction 0 head.resetInstrCommitted with
    numberOfInstrExecutedOoO := p.rob.numberOfInstrExecutedOoO - head.instrExecutedOoo }
  have placed : rob.outstandingTransactions = head.resetInstrCommitted :: rest := by
    simp [rob, Rob.setTransaction, found]
  have drained : Rob.Move true p.rob rob := by
    simpa [rob, Rob.setTransaction, found] using Rob.Move.drain rfl found compute
  simp only [drainHead]
  split
  case isTrue done =>
    -- The drained head is the one that is removed.
    rw [ends_bind, streakCalculator_rob]
    refine (Rob.commitEmpty_ends true (drained.sized sized) placed compute done
      fun _ => rfl).mono ?_
    rintro after ⟨move, left⟩
    exact ⟨.tail (.single drained) move, by simp [left, found]⟩
  case isFalse =>
    rw [ends_pure]
    refine ⟨?_, ?_⟩ <;> rw [streakCalculator_rob]
    · exact .single drained
    · simp [Rob.setTransaction]

theorem executeAhead_ends {i : Nat} {t : Transaction}
    (found : p.rob.outstandingTransactions[i]? = some t) (compute : t.isMemory = false)
    (left : 0 < t.numberOfInstructions) (room : p.rob.numberOfInstrExecutedOoO < robSize) :
    Ends CoreFault.FromInput (p.executeAhead i t) (Issued true p) := by
  -- The instruction may stand anywhere in the buffer, so the buffer is cut at its place.
  obtain ⟨before, after, whole, replaced⟩ := Rob.split_at found
  simp only [executeAhead, Rob.commitInstruction_eq left, ends_bind, ends_ok, ends_pure, replaced]
  refine .of_move ?_ ?_ <;> rw [streakCalculator_rob]
  · exact .execute whole compute left fun _ => room
  · simp [whole]

/--
What a round of `process` leaves behind.

A round that keeps its slot has moved on to a place that the buffer still has.
-/
def Round (p : Pipeline) (robCheckHead : Nat) (out : Pipeline × Nat × Next) : Prop :=
  Issued true p out.1 ∧ robCheckHead ≤ out.2.1 ∧
    (out.2.2 = .again → robCheckHead < out.2.1 ∧
      out.2.1 < out.1.rob.outstandingTransactions.length)

theorem Round.slot {q : Pipeline} {robCheckHead place : Nat} (issued : Issued true p q)
    (onward : robCheckHead ≤ place) : Round p robCheckHead (q, place, .slot) :=
  ⟨issued, onward, nofun⟩

/-- The work behind a head moves the buffer on. -/
theorem behindHead_ends (sized : p.rob.Sized) (ticks : Int) (accepted : Bool)
    (robCheckHead : Nat) :
    Ends CoreFault.FromInput (p.behindHead ticks accepted robCheckHead) (Round p robCheckHead) := by
  -- The head either executes, or blocks and lets the round look at the next place behind it.
  -- The place is inside the buffer unless the round stops there.
  unfold behindHead
  split
  case isFalse => exact .slot (.of_eq rfl) le_rfl
  case isTrue able =>
    obtain ⟨room, occupied⟩ := able
    obtain ⟨head, rest, found⟩ := exists_head sized occupied
    have first : p.rob.outstandingTransactions[0]? = some head := by rw [found]; rfl
    simp only [found]
    split
    case isTrue computing =>
      simp only [Bool.and_eq_true, Bool.not_eq_true', decide_eq_true_eq] at computing
      rw [ends_bind]
      exact (executeAhead_ends first computing.1 computing.2 room).mono fun q issued =>
        .slot issued le_rfl
    case isFalse =>
      split
      case isFalse => exact .slot (.of_eq rfl) le_rfl
      case isTrue blocked =>
        split
        case isTrue => exact ⟨.of_eq rfl, Nat.le_succ _, nofun⟩
        case isFalse inside =>
          have below : robCheckHead + 1 < p.rob.outstandingTransactions.length := by
            rw [sized.1] at inside
            omega
          obtain ⟨t, place⟩ : ∃ t, p.rob.outstandingTransactions[robCheckHead + 1]? = some t :=
            ⟨_, List.getElem?_eq_getElem below⟩
          simp only [← found, place]
          split
          case isTrue unissued =>
            simp only [Bool.and_eq_true, Bool.not_eq_true'] at unissued
            split
            case isTrue =>
              rw [ends_bind]
              refine (Rob.issueToMem_ends true ticks place unissued.1 unissued.2).mono
                fun rob ⟨move, length⟩ => .slot (.of_move ?_ ?_) (Nat.le_succ _)
              · rwa [streakCalculator_rob]
              · rw [streakCalculator_rob]
                exact length.le
            case isFalse => exact .slot (.of_eq rfl) (Nat.le_succ _)
          case isFalse =>
            split
            case isTrue computing =>
              simp only [Bool.and_eq_true, Bool.not_eq_true', decide_eq_true_eq] at computing
              rw [ends_bind]
              exact (executeAhead_ends place computing.1 computing.2 room).mono fun q issued =>
                .slot issued (Nat.le_succ _)
            case isFalse =>
              exact ⟨.of_eq rfl, Nat.le_succ _, fun _ => ⟨Nat.lt_succ_self _, below⟩⟩

/-- A round of out-of-order issue moves the buffer on. -/
theorem processRound_ends (sized : p.rob.Sized) (ticks : Int) (accepted : Bool)
    (robCheckHead : Nat) :
    Ends CoreFault.FromInput (p.processRound ticks accepted robCheckHead)
      (Round p robCheckHead) := by
  -- A head of instructions is drained first; what follows then starts from the drained buffer.
  unfold processRound
  split
  case isFalse => exact .slot (.of_eq rfl) le_rfl
  case isTrue occupied =>
    obtain ⟨head, rest, found⟩ := exists_head sized occupied
    have first : p.rob.outstandingTransactions[0]? = some head := by rw [found]; rfl
    simp only [found]
    split
    case isTrue memory =>
      split
      case isTrue ready =>
        rw [ends_bind, streakCalculator_rob]
        refine (Rob.commitMemory_ends true sized found memory ready).mono
          fun rob ⟨move, left⟩ => .slot (.of_move move ?_) le_rfl
        simp [left, found]
      case isFalse =>
        split
        case isTrue unissued =>
          split
          case isTrue =>
            rw [ends_bind]
            refine (Rob.issueToMem_ends true ticks first memory (by simpa using unissued)).mono
              fun rob ⟨move, length⟩ => .slot (.of_move move length.le) le_rfl
          case isFalse => exact .slot (.of_eq rfl) le_rfl
        case isFalse => exact behindHead_ends sized ticks accepted robCheckHead
    case isFalse compute =>
      rw [ends_bind]
      refine (drainHead_ends sized found (by simpa using compute)).mono fun q drained => ?_
      refine (behindHead_ends (drained.1.sized sized) ticks accepted robCheckHead).mono ?_
      exact fun out ⟨issued, onward, more⟩ => ⟨drained.trans issued, onward, more⟩

/--
The rounds of out-of-order issue move the buffer on, and their bound is never reached.

Every round uses up a slot or a place of the buffer.
-/
theorem processRounds_ends (issueWidth : Nat) (ticks : Int) (accepts : Nat → Bool) (fuel : Nat) :
    ∀ (j robCheckHead : Nat) (p : Pipeline), p.rob.Sized →
      issueWidth - j + (p.rob.outstandingTransactions.length - robCheckHead) < fuel →
      Ends CoreFault.FromInput (processRounds issueWidth ticks accepts fuel j robCheckHead p)
        (Issued true p) := by
  -- The induction is on the bound, of which each round spends one.
  induction fuel with
  | zero =>
    intro j robCheckHead p sized enough
    omega
  | succ fuel ih =>
    intro j robCheckHead p sized enough
    unfold processRounds
    split
    case isFalse => exact .of_eq rfl
    case isTrue left =>
      rw [ends_bind]
      refine (processRound_ends sized ticks (accepts j) robCheckHead).mono ?_
      rintro ⟨q, place, next⟩ ⟨issued, onward, more⟩
      have shorter := issued.2
      have kept := issued.1.sized sized
      cases next with
      | slot =>
        refine (ih (j + 1) place q kept ?_).mono fun _ => issued.trans
        simp only at onward shorter
        omega
      | again =>
        obtain ⟨further, inside⟩ := more rfl
        refine (ih j place q kept ?_).mono fun _ => issued.trans
        simp only at further inside shorter
        omega
      | stop => exact issued

theorem process_ends (sized : p.rob.Sized) (issueWidth : Nat) (ticks : Int)
    (accepts : Nat → Bool) :
    Ends CoreFault.FromInput (p.process issueWidth ticks accepts) (Issued true p) :=
  processRounds_ends issueWidth ticks accepts _ 0 0 p sized (by omega)

end Pipeline

namespace Core

/-- Issuing and reading move the buffer on and leave the power state alone. -/
structure Advanced (ooo : Bool) (c d : Core) : Prop where
  moves : Rob.Moves ooo c.pipe.rob d.pipe.rob
  cpuPstate : d.cpuPstate = c.cpuPstate
  cyclesToWake : d.cyclesToWake = c.cyclesToWake

variable {ooo : Bool} {c d : Core}

theorem Advanced.trans {e : Core} (first : Advanced ooo c d) (second : Advanced ooo d e) :
    Advanced ooo c e where
  moves := first.moves.trans second.moves
  cpuPstate := second.cpuPstate.trans first.cpuPstate
  cyclesToWake := second.cyclesToWake.trans first.cyclesToWake

theorem sendCall_ends (ooo : Bool) (cfg : CoreConfig) (env : TickEnv) (call : TraceCall)
    (c : Core) : Ends CoreFault.FromInput (c.sendCall cfg env call) (Advanced ooo c) := by
  -- The call touches its own counters and the agent, never the buffer.
  unfold sendCall
  split
  case isTrue => exact ⟨.refl, rfl, rfl⟩
  case isFalse =>
    cases cfg.flows.flowIdentification call.ipMaster.code with
    | none => exact .inr rfl
    | some flows => exact ⟨.refl, rfl, rfl⟩

theorem isFrameDrop_advanced (ooo : Bool) (cfg : CoreConfig) (env : TickEnv) (c : Core) :
    Advanced ooo c (c.isFrameDrop cfg env).1 := by
  -- All branches write stalls and counters of frames only.
  have same : (c.isFrameDrop cfg env).1.pipe.rob = c.pipe.rob ∧
      (c.isFrameDrop cfg env).1.cpuPstate = c.cpuPstate ∧
      (c.isFrameDrop cfg env).1.cyclesToWake = c.cyclesToWake := by
    unfold isFrameDrop
    simp only
    split
    · split
      · exact ⟨rfl, rfl, rfl⟩
      · split
        · exact ⟨rfl, rfl, rfl⟩
        · exact ⟨rfl, rfl, rfl⟩
    · exact ⟨rfl, rfl, rfl⟩
  exact ⟨by rw [same.1], same.2.1, same.2.2⟩

theorem isAudioFrameDrop_advanced (ooo : Bool) (cfg : CoreConfig) (env : TickEnv) (c : Core) :
    Advanced ooo c (c.isAudioFrameDrop cfg env).1 := by
  -- All branches write stalls and counters of frames only.
  unfold isAudioFrameDrop
  simp only
  split
  · split
    · exact ⟨.refl, rfl, rfl⟩
    · split
      · exact ⟨.refl, rfl, rfl⟩
      · exact ⟨.refl, rfl, rfl⟩
  · exact ⟨.refl, rfl, rfl⟩

theorem nextOfCore_ends (cfg : CoreConfig) (flowTy : IpType) :
    Ends CoreFault.FromInput (nextOfCore cfg flowTy) fun _ => True := by
  -- The lookup has no result exactly when the array is too short.
  unfold nextOfCore
  split
  · trivial
  · exact .inr rfl

theorem displayCall_ends (cfg : CoreConfig) (dropped : Bool) :
    Ends CoreFault.FromInput (displayCall cfg dropped) fun _ => True := by
  -- A dropped frame needs no lookup.
  unfold displayCall
  simp only
  split
  · trivial
  · rw [ends_bind]
    exact (nextOfCore_ends cfg .dc).mono fun _ _ => trivial

theorem audioCall_ends (cfg : CoreConfig) :
    Ends CoreFault.FromInput (audioCall cfg) fun _ => True := by
  rw [audioCall, ends_bind]
  exact (nextOfCore_ends cfg .snd).mono fun _ _ => trivial

theorem processIPCall_ends (ooo : Bool) (cfg : CoreConfig) (env : TickEnv) (op : IpOp) (c : Core) :
    Ends CoreFault.FromInput (c.processIPCall cfg env op) (Advanced ooo c) := by
  -- Each operation paces a frame, sends a call, or does both in this order.
  cases op with
  | fbUp =>
    have paced := isFrameDrop_advanced ooo cfg env c
    simp only [processIPCall, ends_bind]
    refine (displayCall_ends cfg _).mono fun call _ => ?_
    cases call with
    | none => exact ⟨paced.moves, paced.cpuPstate, paced.cyclesToWake⟩
    | some call =>
      refine (sendCall_ends ooo cfg env call _).mono fun d sent => ?_
      exact paced.trans ⟨sent.moves, sent.cpuPstate, sent.cyclesToWake⟩
  | nw | sndOut => exact sendCall_ends ooo cfg env _ c
  | sndIn =>
    have paced := isAudioFrameDrop_advanced ooo cfg env c
    simp only [processIPCall, ends_bind]
    refine (audioCall_ends cfg).mono fun call _ => ?_
    cases call with
    | none => exact paced
    | some call => exact (sendCall_ends ooo cfg env call _).mono fun d sent => paced.trans sent
  | cam =>
    simp only [processIPCall]
    split
    · exact ⟨.refl, rfl, rfl⟩
    · exact (sendCall_ends ooo cfg env _ _).mono fun d sent =>
        ⟨sent.moves, sent.cpuPstate, sent.cyclesToWake⟩
  | other => exact ⟨.refl, rfl, rfl⟩

theorem readIpLine_ends (ooo : Bool) (cfg : CoreConfig) (env : TickEnv) (op : IpOp) (ws : List Word)
    (c : Core) : Ends CoreFault.FromInput (c.readIpLine cfg env op ws) (Advanced ooo c) := by
  -- The look ahead after a display line reads the second copy of the trace.
  simp only [readIpLine, ends_bind]
  refine (processIPCall_ends ooo cfg env op _).mono fun d called => ?_
  rw [ends_pure]
  split
  · exact ⟨called.moves, called.cpuPstate, called.cyclesToWake⟩
  · exact ⟨called.moves, called.cpuPstate, called.cyclesToWake⟩

theorem readLine_ends (ooo : Bool) (cfg : CoreConfig) (env : TickEnv) (sized : c.pipe.rob.Sized)
    (room : c.pipe.rob.outstandingTransactionsSize < maxTransactions)
    (active : c.cpuPstate = .active) :
    Ends CoreFault.FromInput (c.readLine cfg env) (Advanced ooo c) := by
  -- The cases follow the first word of the line; only three of them reach the buffer.
  have stays : ¬ c.cpuPstate ≠ .active := not_not.mpr active
  rw [readLine, if_neg stays]
  split
  · exact ⟨.refl, rfl, rfl⟩
  · simp only [readCpuLine, ends_bind]
    exact (Rob.addInstructions_ends ooo _ room).mono fun rob moves => ⟨moves, rfl, rfl⟩
  · simp only [readMmuLine, ends_bind]
    exact (Rob.processMMURequest_ends ooo sized _ _ room).mono fun rob moves => ⟨moves, rfl, rfl⟩
  · simp only [readMmuLine, ends_bind]
    exact (Rob.processMMURequest_ends ooo sized _ _ room).mono fun rob moves => ⟨moves, rfl, rfl⟩
  · exact ⟨.refl, rfl, rfl⟩
  · exact ⟨.refl, rfl, rfl⟩
  · exact readIpLine_ends ooo cfg env _ _ c
  · exact readIpLine_ends ooo cfg env _ _ c

theorem issue_ends (cfg : CoreConfig) (env : TickEnv) (sized : c.pipe.rob.Sized) :
    Ends CoreFault.FromInput (c.issue cfg env) (Advanced (!cfg.inOrder) c) := by
  -- The mode of the core picks one of the two loops.
  simp only [issue]
  cases mode : cfg.inOrder with
  | true =>
    rw [if_pos rfl, ends_bind]
    exact (Pipeline.inOrderProcess_ends sized _ _ _).mono fun pipe issued => ⟨issued.1, rfl, rfl⟩
  | false =>
    rw [if_neg Bool.false_ne_true, ends_bind]
    exact (Pipeline.process_ends sized _ _ _).mono fun pipe issued => ⟨issued.1, rfl, rfl⟩

theorem issueAndRead_ends (cfg : CoreConfig) (env : TickEnv) (sized : c.pipe.rob.Sized) :
    Ends (fun fault => fault.FromInput ∨ fault = .notActive ∧ c.cpuPstate ≠ .active)
      (c.issueAndRead cfg env) (Advanced (!cfg.inOrder) c) := by
  -- Issue leaves the power state alone, so the assertion of `readLine` sees the one of before.
  simp only [issueAndRead, ends_bind]
  refine ((issue_ends cfg env sized).mono fun d issued => ?_).mono_fault fun _ => .inl
  split
  case isFalse => exact issued
  case isTrue able =>
    by_cases active : d.cpuPstate = .active
    · refine ((readLine_ends _ cfg env (issued.moves.sized sized) able.2 active).mono
        fun _ => issued.trans).mono_fault fun _ => .inl
    · rw [readLine, if_pos active]
      exact .inr ⟨rfl, issued.cpuPstate ▸ active⟩

theorem startTick_ends (ooo : Bool) (sized : c.pipe.rob.Sized) :
    Ends CoreFault.FromInput c.startTick fun d => ∃ rob, Rob.Moves ooo c.pipe.rob rob ∧
      d = { c with ticks := c.ticks + 1, pipe := { c.pipe with rob } } := by
  -- The check for a blocked head is skipped at multiples of the period.
  simp only [startTick]
  split
  · rw [ends_bind]
    exact (Rob.checkDeadlock_ends ooo sized _).mono fun rob moves => ⟨rob, moves, rfl⟩
  · exact ⟨c.pipe.rob, .refl, rfl⟩

/-- Nothing keeps the core from reading, but it is not active or is about to leave that state. -/
def Dozing (c : Core) : Prop :=
  c.cyclesToWake ≤ 0 ∧ c.idleStalls ≤ 0 ∧ c.fpsStalls ≤ 0 ∧ c.audFpsStalls ≤ 0 ∧
    (c.cpuPstate = .active → corePstateLowpowerEnterTime ≤ c.pipe.idleCycles)

theorem lowerPState_eq (c : Core) :
    c.lowerPState = { c with
      cpuPstate :=
        if c.cpuPstate = .active ∧ corePstateLowpowerEnterTime ≤ c.pipe.idleCycles then .lowPower
        else c.cpuPstate
      pipe := { c.pipe with
        idleCycles :=
          if c.cpuPstate = .active ∧ corePstateLowpowerEnterTime ≤ c.pipe.idleCycles then 0
          else c.pipe.idleCycles } } := by
  -- The idle state is disabled, so the middle branch never changes anything.
  cases c with
  | mk pipe dvfs ticks cyclesToWake cpuPstate =>
    cases cpuPstate with
    | active => by_cases long : corePstateLowpowerEnterTime ≤ pipe.idleCycles <;>
        simp [lowerPState, long]
    | lowPower => simp [lowerPState, enableCoreIdle]
    | idle => simp [lowerPState]

@[simp] theorem startWake_pipe (c : Core) : c.startWake.pipe = c.pipe := by
  unfold startWake
  split <;> rfl

theorem waitFps_rob (env : TickEnv) (c : Core) : (c.waitFps env).pipe.rob = c.pipe.rob := by
  -- The stall and the idle counters change, and perhaps the power state.
  unfold waitFps
  simp only
  split
  · rw [startWake_pipe]
    rfl
  · rfl

theorem waitAudFps_rob (env : TickEnv) (c : Core) : (c.waitAudFps env).pipe.rob = c.pipe.rob := by
  -- The stall and the idle counters change, and perhaps the power state.
  unfold waitAudFps
  simp only
  split
  · rw [startWake_pipe]
    rfl
  · rfl

/-- The rest of a tick moves the buffer on; only a dozing core fails to read. -/
theorem endTick_ends (cfg : CoreConfig) (env : TickEnv) (sized : c.pipe.rob.Sized) :
    Ends (fun fault => fault.FromInput ∨ fault = .notActive ∧ c.Dozing) (c.endTick cfg env)
      fun d => Rob.Moves (!cfg.inOrder) c.pipe.rob d.pipe.rob := by
  -- The early returns of the source come first, in its order.
  -- What is left is a core that stalls for nothing, and it reads unless it is not active.
  unfold endTick
  simp only
  split
  case isTrue =>
    unfold wakeUp
    simp only
    split <;> exact .refl
  case isFalse awake =>
    have same : c.lowerPState.pipe.rob = c.pipe.rob := by rw [lowerPState_eq]
    split
    case isTrue => exact same ▸ .refl
    case isFalse idle =>
      split
      case isTrue => exact (waitFps_rob env c.lowerPState).trans same ▸ .refl
      case isFalse fps =>
        split
        case isTrue => exact (waitAudFps_rob env c.lowerPState).trans same ▸ .refl
        case isFalse aud =>
          refine ((issueAndRead_ends cfg env (same ▸ sized)).mono ?_).mono_fault ?_
          · exact fun d advanced => same ▸ advanced.moves
          · rintro fault (input | ⟨reading, asleep⟩)
            · exact .inl input
            · rw [lowerPState_eq] at idle fps aud asleep
              simp only [not_lt] at awake idle fps aud
              refine .inr ⟨reading, awake, idle, fps, aud, fun active => ?_⟩
              by_contra short
              exact asleep (by simp [active, short])

theorem tick_ends (cfg : CoreConfig) (env : TickEnv) (sized : c.pipe.rob.Sized) :
    Ends (fun fault => fault.FromInput ∨ fault = .notActive ∧ c.Dozing) (c.tick cfg env)
      fun d => Rob.Moves (!cfg.inOrder) c.pipe.rob d.pipe.rob := by
  rw [tick, ends_bind]
  refine ((startTick_ends (!cfg.inOrder) sized).mono ?_).mono_fault fun _ => .inl
  rintro d ⟨rob, moves, rfl⟩
  -- The fields that make a core doze are not touched before they are tested.
  exact (endTick_ends cfg env (moves.sized sized)).mono fun e more => moves.trans more

end Core

end GemDroid
