import GemDroid.Ip.Coder
import GemDroid.Lib.Outcome
import GemDroid.Lib.Run

/-! The power states of the IPs over whole runs, with the assertions that guard them. -/

namespace GemDroid

open Outcome

/-- The assertions about power states, and the one about the requests of a reported frame. -/
inductive PowerFault
  /-- `updatePower` wakes an IP that is active. -/
  | wakingActive
  /-- `setPStateLowPower` is called outside the active state. -/
  | lowerNotActive
  /-- `setPStateIdle` is called outside the low-power state. -/
  | idleNotLowPower
  /-- `tick` works outside the active state. -/
  | workNotActive
  /-- `tick` reports a frame with requests left to send. -/
  | requestsLeft
  deriving DecidableEq, Repr

namespace IpState

/-- The height of a power state above the idle one. -/
def rank : IpState → Nat
  | .idle => 0
  | .lowpower => 1
  | .active => 2

end IpState

namespace IpPower

/-- Lower an active IP (`setPStateLowPower`). -/
def setPStateLowPower (p : IpPower) : Except PowerFault IpPower :=
  if p.powerState = .active then .ok { p with powerState := .lowpower }
  else .error .lowerNotActive

/-- Lower an IP in the low-power state (`setPStateIdle`). -/
def setPStateIdle (p : IpPower) : Except PowerFault IpPower :=
  if p.powerState = .lowpower then .ok { p with powerState := .idle }
  else .error .idleNotLowPower

/-- One cycle of power management with its assertions (`updatePower`). -/
def updatePowerAsserted (governor : Governor) (p : IpPower) :
    Except PowerFault (IpPower × Bool) :=
  let p := if p.powerState = .lowpower then { p with idleCycles := p.idleCycles + 1 } else p
  if 0 < p.cyclesToWake then
    let p := { p with cyclesToWake := p.cyclesToWake - 1 }
    if p.cyclesToWake ≤ 0 then
      -- The IP is about to become active, so it must not be active yet.
      if p.powerState = .active then .error .wakingActive
      else .ok ({ p.setPStateActive governor with idleCycles := 0 }, false)
    else .ok (p, false)
  else if ipPStateEnterTime p.isDevice ≤ p.idleCycles then do
    let p ←
      match p.powerState with
      | .active => p.setPStateLowPower
      | .lowpower => p.setPStateIdle
      | .idle => .ok p
    return ({ p with idleCycles := 0 }, false)
  else .ok (p, p.powerState == .active)

theorem updatePowerAsserted_eq {governor : Governor} {p : IpPower}
    (asleep : 0 < p.cyclesToWake → p.powerState ≠ .active) :
    p.updatePowerAsserted governor = .ok (p.updatePower governor) := by
  -- The calls that lower the state stand under the test for the state they need.
  cases state : p.powerState with
  | active =>
    have awake : ¬ 0 < p.cyclesToWake := fun waking => asleep waking state
    simp only [updatePowerAsserted, updatePower, state, reduceCtorEq, if_false, awake]
    split
    · simp [setPStateLowPower, state]
    · rfl
  | lowpower =>
    simp only [updatePowerAsserted, updatePower, state, if_true, reduceCtorEq, if_false]
    split
    · split <;> rfl
    · split
      · simp [setPStateIdle]
      · rfl
  | idle =>
    simp only [updatePowerAsserted, updatePower, state, reduceCtorEq, if_false]
    split
    · split <;> rfl
    · split
      · rw [← state]
        rfl
      · rfl

theorem setPStateActive_fields (governor : Governor) (p : IpPower) :
    (p.setPStateActive governor).powerState = .active ∧
      (p.setPStateActive governor).cyclesToWake = p.cyclesToWake ∧
      (p.setPStateActive governor).isDevice = p.isDevice := by
  unfold setPStateActive
  split
  · exact ⟨rfl, rfl, rfl⟩
  · split <;> exact ⟨rfl, rfl, rfl⟩

/--
What an IP with work in progress needs of its power management.

It is active and has not idled, or it is on its way there.
-/
def Serving (p : IpPower) : Prop :=
  (p.powerState = .active ∧ p.idleCycles = 0) ∨ 0 < p.cyclesToWake

/-- An IP that wakes up is not active. -/
def Sane (p : IpPower) : Prop :=
  0 < p.cyclesToWake → p.powerState ≠ .active

theorem Sane.updatePower {p : IpPower} (sane : p.Sane) (governor : Governor) :
    (p.updatePower governor).1.Sane := by
  -- The count reaches zero in the cycle that makes the IP active.
  cases state : p.powerState with
  | active =>
    have awake : ¬ 0 < p.cyclesToWake := fun waking => sane waking state
    simp only [IpPower.updatePower, state, reduceCtorEq, if_false, awake]
    split
    · exact fun waking => absurd waking awake
    · exact sane
  | lowpower | idle =>
    simp only [IpPower.updatePower, state, reduceCtorEq, if_true, if_false]
    split
    · split
      · intro waking
        simp only [setPStateActive_fields] at waking
        omega
      · simp [Sane]
    · split <;> simp [Sane, state]

theorem Serving.updatePower {p : IpPower} (serving : p.Serving) (sane : p.Sane)
    (governor : Governor) :
    (p.updatePower governor).1.Serving ∧
      p.powerState.rank ≤ (p.updatePower governor).1.powerState.rank := by
  -- An active IP has not idled long enough, and one that wakes up is not tested for it.
  rcases serving with ⟨active, fresh⟩ | waking
  · have awake : ¬ 0 < p.cyclesToWake := fun waking => sane waking active
    have short : ¬ ipPStateEnterTime p.isDevice ≤ (0 : Int) := by
      unfold ipPStateEnterTime
      split <;> decide
    simp only [IpPower.updatePower, active, reduceCtorEq, if_false, awake, fresh, short]
    exact ⟨.inl ⟨active, fresh⟩, by simp⟩
  · have asleep := sane waking
    have entered := setPStateActive_fields governor
    cases state : p.powerState with
    | active => exact absurd state asleep
    | lowpower | idle =>
      simp only [IpPower.updatePower, state, reduceCtorEq, if_true, if_false, waking]
      split
      · refine ⟨.inl ⟨(entered _).1, rfl⟩, ?_⟩
        simp [entered, IpState.rank]
      case isFalse more =>
        refine ⟨.inr ?_, by simp⟩
        simp only [not_le] at more
        exact more

theorem updatePower_working {governor : Governor} {p q : IpPower}
    (working : p.updatePower governor = (q, true)) : q.powerState = .active := by
  -- Every branch but the last says that the IP may not work.
  cases state : p.powerState with
  | active =>
    simp only [IpPower.updatePower, state, reduceCtorEq, if_false] at working
    split at working
    · split at working <;> simp at working
    · split at working
      · simp at working
      · simp only [Prod.mk.injEq] at working
        exact working.1 ▸ state
  | lowpower | idle =>
    simp only [IpPower.updatePower, state, reduceCtorEq, if_true, if_false] at working
    split at working
    · split at working <;> simp at working
    · split at working <;> simp at working

theorem Sane.wakeUp {p : IpPower} (sane : p.Sane) : p.wakeUp.Sane := by
  -- The count changes only in the states below the active one.
  intro waking
  cases state : p.powerState with
  | active =>
    simp only [IpPower.wakeUp, exitTime, state] at waking
    exact absurd state (sane waking)
  | lowpower | idle => simp [IpPower.wakeUp, state]

theorem wakeUp_serving (p : IpPower) : Serving { p.wakeUp with idleCycles := 0 } := by
  -- The exit times are positive, so every state but the active one starts to count down.
  cases state : p.powerState with
  | active => exact .inl ⟨state, rfl⟩
  | lowpower =>
    refine .inr ?_
    simp only [IpPower.wakeUp, exitTime, state, ipPStateLowpowerExitTime]
    split <;> decide
  | idle =>
    refine .inr ?_
    simp only [IpPower.wakeUp, exitTime, state, ipPStateIdleExitTime]
    split <;> decide

theorem Serving.wakeUp {p : IpPower} (serving : p.Serving) : p.wakeUp.Serving := by
  -- An active IP is left alone, and any other starts to count down.
  rcases wakeUp_serving p with ⟨active, -⟩ | waking
  · have still : p.exitTime = p.cyclesToWake := by
      have state : p.powerState = .active := active
      simp [exitTime, state]
    have same : p.wakeUp = p := by rw [IpPower.wakeUp, still]
    rw [same]
    exact serving
  · exact .inr waking

end IpPower

namespace Ip

/-- The completion test with its assertion. -/
def completeAsserted (ip : Ip) : Except PowerFault (Ip × List IpCall) :=
  if ip.respCount = ip.dataSize.tdiv cacheLineSize then
    let ip := { ip with isBusy := false, respCount := 0, reqCount := 0 }
    if ip.reqCount ≤ 0 then
      .ok (ip, [.ipResponse ip.coreId ip.frameNum ip.flowType ip.flowId])
    else .error .requestsLeft
  else .ok (ip, [])

/-- The rest of `tick` with the assertion at the last request of a frame. -/
def advanceAsserted (accepted : Bool) (ip : Ip) : Except PowerFault (Ip × List IpCall) :=
  if ip.reqCount ≤ 0 ∧ ip.isBusy = false then
    .ok ({ ip with power := { ip.power with idleCycles := ip.power.idleCycles + 1 } }, [])
  else if 0 < ip.reqCount then
    let (ip, calls) := ip.sendMemoryReq accepted
    if ip.reqCount = 0 then
      let ip := { ip with reqCount := ip.reqCount - 1 }
      if ip.power.powerState = .active then .ok (ip, calls) else .error .workNotActive
    else .ok (ip, calls)
  else .ok (ip, [])

/-- One clock cycle of a device with its assertions (`tick`). -/
def tickAsserted (governor : Governor) (accepted : Bool) (ip : Ip) :
    Except PowerFault (Ip × List IpCall) := do
  let (power, working) ← ip.power.updatePowerAsserted governor
  let ip := { ip with power := power }
  if working then
    if ip.power.powerState ≠ .active then .error .workNotActive
    else
      let (ip, waiting) := ip.process
      if waiting then return (ip, [])
      else
        let (ip, reported) ← ip.completeAsserted
        let (ip, sent) ← ip.advanceAsserted accepted
        return (ip, reported ++ sent)
  else return (ip, [])

theorem process_frame (ip : Ip) :
    ip.process.1.power = ip.power ∧ ip.process.1.isBusy = ip.isBusy := by
  unfold process
  dsimp only
  split <;> exact ⟨rfl, rfl⟩

theorem complete_frame (ip : Ip) :
    ip.complete.1.power = ip.power ∧ (ip.complete.1.isBusy = true → ip.isBusy = true) := by
  unfold complete
  split
  · exact ⟨rfl, fun busy => absurd busy Bool.false_ne_true⟩
  · exact ⟨rfl, id⟩

theorem sendMemoryReq_frame (accepted : Bool) (ip : Ip) :
    (ip.sendMemoryReq accepted).1.power = ip.power ∧
      (ip.sendMemoryReq accepted).1.isBusy = ip.isBusy := by
  unfold sendMemoryReq
  split <;> exact ⟨rfl, rfl⟩

theorem completeAsserted_eq (ip : Ip) : ip.completeAsserted = .ok ip.complete := by
  unfold completeAsserted complete
  split <;> simp

theorem advanceAsserted_eq {accepted : Bool} {ip : Ip} (active : ip.power.powerState = .active) :
    ip.advanceAsserted accepted = .ok (ip.advance accepted) := by
  -- Sending a request leaves the power management alone.
  unfold advanceAsserted advance
  split
  · rfl
  · split
    · simp only [(sendMemoryReq_frame accepted ip).1, active, if_true]
      split <;> rfl
    · rfl

theorem tickAsserted_eq {governor : Governor} {accepted : Bool} {ip : Ip}
    (sane : ip.power.Sane) :
    ip.tickAsserted governor accepted = .ok (ip.tick governor accepted) := by
  simp only [tickAsserted, tick, IpPower.updatePowerAsserted_eq sane]
  cases updated : ip.power.updatePower governor with
  | mk power working =>
    cases working with
    | false => rfl
    | true =>
      have active := IpPower.updatePower_working updated
      -- The power state is read where the device works, and no step on the way there changes it.
      simp only [bind, Except.bind, if_true, active, ne_eq, not_true_eq_false, if_false]
      split
      · rfl
      · have still : (process { ip with power := power }).1.complete.1.power.powerState =
            .active := by
          rw [(complete_frame _).1, (process_frame _).1]
          exact active
        simp only [completeAsserted_eq, advanceAsserted_eq still]
        rfl

/--
What a cycle of any IP does to its power management and its busy flag.

An idle cycle is counted only when the IP is free at the end of it.
-/
structure Cycle (governor : Governor) (before after : Ip) : Prop where
  busy : after.isBusy = true → before.isBusy = true
  power : after.power = (before.power.updatePower governor).1 ∨
    after.isBusy = false ∧ after.power =
      { (before.power.updatePower governor).1 with
        idleCycles := (before.power.updatePower governor).1.idleCycles + 1 }

theorem Cycle.sane {governor : Governor} {before after : Ip} (cycle : Cycle governor before after)
    (sane : before.power.Sane) : after.power.Sane := by
  have updated := sane.updatePower governor
  rcases cycle.power with same | ⟨-, counted⟩
  · rw [same]
    exact updated
  · rw [counted]
    exact updated

theorem Cycle.serving {governor : Governor} {before after : Ip}
    (cycle : Cycle governor before after) (sane : before.power.Sane)
    (serving : before.power.Serving) (busy : after.isBusy = true) : after.power.Serving := by
  rcases cycle.power with same | ⟨free, -⟩
  · rw [same]
    exact (serving.updatePower sane governor).1
  · simp [busy] at free

theorem Cycle.rank {governor : Governor} {before after : Ip}
    (cycle : Cycle governor before after) (sane : before.power.Sane)
    (serving : before.power.Serving) :
    before.power.powerState.rank ≤ after.power.powerState.rank := by
  have kept := (serving.updatePower sane governor).2
  rcases cycle.power with same | ⟨-, counted⟩
  · rw [same]
    exact kept
  · rw [counted]
    exact kept

theorem advance_frame (accepted : Bool) (ip : Ip) :
    (ip.advance accepted).1.isBusy = ip.isBusy ∧
      ((ip.advance accepted).1.power = ip.power ∨
        ip.isBusy = false ∧ (ip.advance accepted).1.power =
          { ip.power with idleCycles := ip.power.idleCycles + 1 }) := by
  have sent := sendMemoryReq_frame accepted ip
  unfold advance
  split
  case isTrue free => exact ⟨rfl, .inr ⟨free.2, rfl⟩⟩
  case isFalse =>
    split
    · simp only
      split
      · exact ⟨sent.2, .inl sent.1⟩
      · exact ⟨sent.2, .inl sent.1⟩
    · exact ⟨rfl, .inl rfl⟩

theorem tick_cycle (governor : Governor) (accepted : Bool) (ip : Ip) :
    Cycle governor ip (ip.tick governor accepted).1 := by
  -- A busy device counts no idle cycle, and only the completion test clears the busy flag.
  unfold tick
  cases updated : ip.power.updatePower governor with
  | mk power working =>
    cases working with
    | false => exact ⟨id, .inl (by rw [updated]; rfl)⟩
    | true =>
      simp only [if_true]
      have spent := process_frame { ip with power := power }
      split
      · refine ⟨fun busy => spent.2 ▸ busy, .inl ?_⟩
        rw [updated]
        exact spent.1
      · have reported := complete_frame (process { ip with power := power }).1
        have sent := advance_frame accepted (process { ip with power := power }).1.complete.1
        have kept := reported.1.trans spent.1
        refine ⟨fun busy => spent.2 ▸ reported.2 (sent.1 ▸ busy), ?_⟩
        rw [updated]
        rcases sent.2 with same | ⟨free, counted⟩
        · exact .inl (same.trans kept)
        · refine .inr ⟨sent.1.trans free, ?_⟩
          rw [kept] at counted
          exact counted

end Ip

namespace Coder

/-- One clock cycle of an accelerator with its assertions (`tick`). -/
def tickAsserted (governor : Governor) (write read : Bool) (c : Coder) :
    Except PowerFault (Coder × List IpCall) := do
  let (power, working) ← c.ip.power.updatePowerAsserted governor
  let c := { c with ip := { c.ip with power := power } }
  if working then
    if c.ip.power.powerState ≠ .active then .error .workNotActive
    else if c.ip.isBusy then return c.work write read
    else
      return ({ c with ip := { c.ip with power :=
        { c.ip.power with idleCycles := c.ip.power.idleCycles + 1 } } }, [])
  else return (c, [])

theorem tickAsserted_eq {governor : Governor} {write read : Bool} {c : Coder}
    (sane : c.ip.power.Sane) :
    c.tickAsserted governor write read = .ok (c.tick governor write read) := by
  -- The only assertion of the three classes is the one before the work.
  simp only [tickAsserted, tick, IpPower.updatePowerAsserted_eq sane]
  cases updated : c.ip.power.updatePower governor with
  | mk power working =>
    cases working with
    | false => rfl
    | true =>
      have active := IpPower.updatePower_working updated
      simp only [bind, Except.bind, if_true, active, ne_eq, not_true_eq_false, if_false]
      split <;> rfl

/-- The power management and the busy flag of an accelerator are those of another. -/
def SameFrame (c d : Coder) : Prop :=
  d.ip.power = c.ip.power ∧ d.ip.isBusy = c.ip.isBusy

theorem sendDataOut_sameFrame (accepted : Bool) (c : Coder) :
    c.SameFrame (c.sendDataOut accepted).1 := by
  unfold sendDataOut
  split <;> exact ⟨rfl, rfl⟩

theorem request_sameFrame (accepted : Bool) (c : Coder) : c.SameFrame (c.request accepted).1 := by
  have data : c.SameFrame (c.requestData accepted).1 := by
    unfold requestData
    split
    · exact Ip.sendMemoryReq_frame accepted c.ip
    · exact ⟨rfl, rfl⟩
  have dependent : c.SameFrame (c.requestDependentData accepted).1 := by
    unfold requestDependentData
    split
    · exact ⟨rfl, rfl⟩
    · split <;> exact ⟨rfl, rfl⟩
  unfold request
  split
  · split
    · exact dependent
    · exact data
  · exact data
  · exact data

theorem compute_sameFrame (c : Coder) : c.SameFrame c.compute := by
  have shape : ∀ room latency produced, c.SameFrame (c.processWith room latency produced).1 := by
    intro room latency produced
    unfold processWith
    split
    · exact ⟨rfl, rfl⟩
    · split
      · dsimp only
        split <;> exact ⟨rfl, rfl⟩
      · split <;> exact ⟨rfl, rfl⟩
  unfold compute
  split
  · unfold process
    split
    · exact shape _ _ _
    · exact shape _ _ _
    · exact shape _ _ _
  · exact ⟨rfl, rfl⟩

theorem work_frame (write read : Bool) (c : Coder) :
    (c.work write read).1.ip.power = c.ip.power ∧
      ((c.work write read).1.ip.isBusy = true → c.ip.isBusy = true) := by
  have written := sendDataOut_sameFrame write c
  have requested := request_sameFrame read (c.sendDataOut write).1
  have computed := compute_sameFrame ((c.sendDataOut write).1.request read).1
  have power := computed.1.trans (requested.1.trans written.1)
  have busy := computed.2.trans (requested.2.trans written.2)
  unfold work complete
  dsimp only
  split
  · exact ⟨power, fun busy => absurd busy Bool.false_ne_true⟩
  · exact ⟨power, fun still => busy ▸ still⟩

theorem tick_cycle (governor : Governor) (write read : Bool) (c : Coder) :
    Ip.Cycle governor c.ip (c.tick governor write read).1.ip := by
  -- A busy accelerator works, and a free one counts an idle cycle.
  unfold tick
  cases updated : c.ip.power.updatePower governor with
  | mk power working =>
    cases working with
    | false => exact ⟨id, .inl (by rw [updated]; rfl)⟩
    | true =>
      simp only [if_true]
      split
      case isTrue =>
        have worked := work_frame write read { c with ip := { c.ip with power := power } }
        refine ⟨worked.2, .inl ?_⟩
        rw [updated]
        exact worked.1
      case isFalse free =>
        refine ⟨id, .inr ⟨by simpa using free, ?_⟩⟩
        rw [updated]

end Coder

/-- An IP of any of the modelled classes. -/
inductive PoweredIp
  | device (ip : Ip)
  | coder (c : Coder)
  deriving DecidableEq, Repr

namespace PoweredIp

/-- The part that all classes share. -/
def ip : PoweredIp → Ip
  | .device ip => ip
  | .coder c => c.ip

/-- Take a request; an assertion about leftover data ends the run (`enqueueIPReq`). -/
def enqueueIPReq (req : IpRequest) : PoweredIp → Option (PoweredIp × Bool)
  | .device ip => some (.device (ip.enqueueIPReq req).1, (ip.enqueueIPReq req).2)
  | .coder c => (c.enqueueIPReq req).toOption.map fun (c, accepted) => (.coder c, accepted)

/-- Wake the IP up (`wakeUp`). -/
def wakeUp : PoweredIp → PoweredIp
  | .device ip => .device { ip with power := ip.power.wakeUp }
  | .coder c => .coder { c with ip := { c.ip with power := c.ip.power.wakeUp } }

/-- A memory response arrives (`memResponse`). -/
def memResponse (isRead : Bool) : PoweredIp → PoweredIp
  | .device ip => .device ip.memResponse
  | .coder c => .coder (c.memResponse isRead)

/-- One clock cycle with the agent's answers to a write and a read (`tick`). -/
def tick (governor : Governor) (write read : Bool) : PoweredIp → Except PowerFault PoweredIp
  | .device ip => do
    -- A device sends one request of either kind.
    let (ip, _) ← ip.tickAsserted governor read
    return .device ip
  | .coder c => do
    let (c, _) ← c.tickAsserted governor write read
    return .coder c

/-- A device or an accelerator after `init`, over any memory it was allocated in. -/
inductive Boot : PoweredIp → Prop
  | device (raw : Ip) (ipType : IpType) (ioLatency : Int) (dvfs : IpDvfs) :
    Boot (.device (raw.init ipType true ioLatency dvfs))
  | coder (raw : Coder) (config : CoderConfig) (ipType : IpType) (dvfs : IpDvfs) :
    Boot (.coder (raw.init config ipType dvfs))

end PoweredIp

/-- An IP, with a record that says whether it accepted a request since `init`. -/
structure PowerSystem where
  unit : PoweredIp
  called : Bool
  deriving DecidableEq, Repr

/-- What can happen to an IP, in any order. -/
inductive PowerEvent
  | enqueueIPReq (req : IpRequest)
  | wakeUp
  | memResponse (isRead : Bool)
  | tick (write read : Bool)
  deriving DecidableEq, Repr

namespace PowerSystem

/-- One event; a failed assertion ends the run. -/
def step (governor : Governor) (s : PowerSystem) : PowerEvent → Option PowerSystem
  | .enqueueIPReq req =>
    (s.unit.enqueueIPReq req).map fun (unit, accepted) => ⟨unit, s.called || accepted⟩
  | .wakeUp => some { s with unit := s.unit.wakeUp }
  | .memResponse isRead => some { s with unit := s.unit.memResponse isRead }
  | .tick write read => (s.unit.tick governor write read).toOption.map fun unit => ⟨unit, s.called⟩

/-- An accepted request is unfinished: the busy flag is set for it. -/
def Unfinished (s : PowerSystem) : Prop :=
  s.called = true ∧ s.unit.ip.isBusy = true

/-- An IP that wakes up is not active, and one with an unfinished request works or wakes up. -/
structure Inv (s : PowerSystem) : Prop where
  sane : s.unit.ip.power.Sane
  serving : s.Unfinished → s.unit.ip.power.Serving

variable {governor : Governor} {s t : PowerSystem}

theorem tick_ok (governor : Governor) (sane : s.unit.ip.power.Sane) (write read : Bool) :
    ∃ unit, s.unit.tick governor write read = .ok unit ∧
      Ip.Cycle governor s.unit.ip unit.ip := by
  cases shape : s.unit with
  | device ip =>
    have asleep : ip.power.Sane := by
      rw [shape] at sane
      exact sane
    refine ⟨.device (ip.tick governor read).1, ?_, Ip.tick_cycle governor read ip⟩
    simp only [PoweredIp.tick, Ip.tickAsserted_eq asleep]
    rfl
  | coder c =>
    have asleep : c.ip.power.Sane := by
      rw [shape] at sane
      exact sane
    refine ⟨.coder (c.tick governor write read).1, ?_, Coder.tick_cycle governor write read c⟩
    simp only [PoweredIp.tick, Coder.tickAsserted_eq asleep]
    rfl

/-- A call is refused and changes nothing, or it wakes the IP up and clears its idle count. -/
theorem enqueueIPReq_cases {u v : PoweredIp} {req : IpRequest} {accepted : Bool}
    (answered : u.enqueueIPReq req = some (v, accepted)) :
    (accepted = false ∧ v = u) ∨
      (accepted = true ∧ u.ip.isBusy = false ∧
        v.ip.power = { u.ip.power.wakeUp with idleCycles := 0 }) := by
  -- An accelerator splits its reads after the base class accepted, which leaves the power alone.
  cases u with
  | device ip =>
    simp only [PoweredIp.enqueueIPReq, Ip.enqueueIPReq, Option.some.injEq, Prod.mk.injEq]
      at answered
    obtain ⟨rfl, rfl⟩ := answered
    by_cases busy : ip.isBusy = true
    · simp [busy]
    · simp [busy, PoweredIp.ip]
  | coder c =>
    by_cases busy : c.ip.isBusy = true
    · simp only [PoweredIp.enqueueIPReq, Coder.enqueueIPReq, Ip.enqueueIPReq, busy, if_true,
        Bool.false_eq_true, if_false, Except.toOption, Option.map_some, Option.some.injEq,
        Prod.mk.injEq] at answered
      exact .inl ⟨answered.2.symm, answered.1.symm⟩
    · simp only [PoweredIp.enqueueIPReq, Coder.enqueueIPReq, Ip.enqueueIPReq, busy, if_true,
        Bool.false_eq_true, if_false] at answered
      split at answered
      · simp [Except.toOption] at answered
      · split at answered
        · simp [Except.toOption] at answered
        · simp only [Except.toOption, Option.map_some, Option.some.injEq, Prod.mk.injEq]
            at answered
          obtain ⟨rfl, rfl⟩ := answered
          refine .inr ⟨rfl, by simpa [PoweredIp.ip] using busy, ?_⟩
          exact Coder.splitReads_power req _

/-- Every event keeps the invariant, and none lowers an IP with an unfinished request. -/
theorem step_inv {e : PowerEvent} (inv : s.Inv) (taken : s.step governor e = some t) :
    t.Inv ∧ (s.Unfinished → s.unit.ip.power.powerState.rank ≤ t.unit.ip.power.powerState.rank) := by
  cases e with
  | enqueueIPReq req =>
    simp only [step, Option.map_eq_some_iff, Prod.exists] at taken
    obtain ⟨unit, accepted, answered, rfl⟩ := taken
    rcases enqueueIPReq_cases answered with ⟨rfl, rfl⟩ | ⟨rfl, free, power⟩
    · simp only [Bool.or_false]
      exact ⟨inv, fun _ => le_refl _⟩
    · have woken : ({ s.unit.ip.power.wakeUp with idleCycles := 0 } : IpPower).Sane :=
        inv.sane.wakeUp
      refine ⟨⟨?_, fun _ => ?_⟩, fun unfinished => ?_⟩
      · rw [power]
        exact woken
      · rw [power]
        exact IpPower.wakeUp_serving _
      · simp [unfinished.2] at free
  | wakeUp =>
    simp only [step, Option.some.injEq] at taken
    subst taken
    have power : s.unit.wakeUp.ip.power = s.unit.ip.power.wakeUp := by
      cases s.unit <;> rfl
    have busy : s.unit.wakeUp.ip.isBusy = s.unit.ip.isBusy := by
      cases s.unit <;> rfl
    refine ⟨⟨?_, fun unfinished => ?_⟩, fun _ => ?_⟩
    · rw [power]
      exact inv.sane.wakeUp
    · rw [power]
      exact (inv.serving ⟨unfinished.1, busy ▸ unfinished.2⟩).wakeUp
    · rw [power]
      exact le_refl _
  | memResponse isRead =>
    simp only [step, Option.some.injEq] at taken
    subst taken
    have power : (s.unit.memResponse isRead).ip.power = s.unit.ip.power := by
      cases s.unit <;> rfl
    have busy : (s.unit.memResponse isRead).ip.isBusy = s.unit.ip.isBusy := by
      cases s.unit <;> rfl
    refine ⟨⟨?_, fun unfinished => ?_⟩, fun _ => ?_⟩
    · rw [power]
      exact inv.sane
    · rw [power]
      exact inv.serving ⟨unfinished.1, busy ▸ unfinished.2⟩
    · rw [power]
  | tick write read =>
    obtain ⟨unit, ended, cycle⟩ := tick_ok governor inv.sane write read
    simp only [step, ended, Except.toOption, Option.map_some, Option.some.injEq] at taken
    subst taken
    refine ⟨⟨cycle.sane inv.sane, fun unfinished => ?_⟩, fun unfinished => ?_⟩
    · have before : s.Unfinished := ⟨unfinished.1, cycle.busy unfinished.2⟩
      exact cycle.serving inv.sane (inv.serving before) unfinished.2
    · exact cycle.rank inv.sane (inv.serving unfinished)

theorem boot_inv {unit : PoweredIp} (boot : unit.Boot) : Inv ⟨unit, false⟩ := by
  have still : unit.ip.power.cyclesToWake = 0 := by
    cases boot <;> rfl
  refine ⟨fun waking => ?_, fun unfinished => ?_⟩
  · rw [still] at waking
    exact absurd waking (lt_irrefl 0)
  · exact absurd unfinished.1 Bool.false_ne_true

/--
An IP with an unfinished request works or wakes up, and is not lowered before it is done.

No assertion about the power states fails in any tick.
-/
theorem unfinished_request_powered {unit : PoweredIp} (boot : unit.Boot)
    {events : List PowerEvent} (ran : Machine.run (step governor) ⟨unit, false⟩ events = some s) :
    (s.Unfinished → s.unit.ip.power.powerState = .active ∨ 0 < s.unit.ip.power.cyclesToWake) ∧
      (0 < s.unit.ip.power.cyclesToWake → s.unit.ip.power.powerState ≠ .active) ∧
      (∀ write read, ∃ unit, s.unit.tick governor write read = .ok unit) ∧
      (∀ e t, s.Unfinished → s.step governor e = some t →
        s.unit.ip.power.powerState.rank ≤ t.unit.ip.power.powerState.rank) := by
  have inv : s.Inv := Machine.run_preserves (fun _ _ _ inv taken => (step_inv inv taken).1)
    (boot_inv boot) ran
  refine ⟨fun unfinished => ?_, inv.sane, fun write read => ?_, fun e t unfinished taken => ?_⟩
  · rcases inv.serving unfinished with ⟨active, -⟩ | waking
    · exact .inl active
    · exact .inr waking
  · obtain ⟨unit, ended, -⟩ := tick_ok governor inv.sane write read
    exact ⟨unit, ended⟩
  · exact (step_inv inv taken).2 unfinished

/-- A display controller in memory that happened to be zero. -/
def displayController : Ip :=
  Ip.init
    { power := {
        ipType := .dc, isDevice := true, powerState := .idle, idleCycles := 0,
        cyclesToWake := 0, dvfs := ⟨.dc, 2, 0, 1, 0⟩ }
      ioLatency := 0, coreId := 0, flowType := 0, flowId := 0, reqCount := 0, respCount := 0,
      dataSize := 0, isBusy := false, reqAddr := 0, isRead := false, frameNum := 0,
      cyclesToSkip := 0 }
    .dc true 0 ⟨.dc, 2, 0, 1, 0⟩

/-- A display controller that was called out of its idle state is on its way to the active one. -/
theorem called_display_controller_wakes :
    ∃ s, Machine.run (step .disabled) ⟨.device displayController, false⟩
        [.enqueueIPReq ⟨0, 0, 256, true, 0, 0, 0⟩, .tick true true, .wakeUp, .tick true true] =
          some s ∧
      s.Unfinished ∧
      (s.unit.ip.power.powerState = .active ∨ 0 < s.unit.ip.power.cyclesToWake) := by
  have called : (Machine.run (step .disabled) ⟨.device displayController, false⟩
      [.enqueueIPReq ⟨0, 0, 256, true, 0, 0, 0⟩, .tick true true, .wakeUp, .tick true true]).any
        (fun s => s.called ∧ s.unit.ip.isBusy) = true := by
    decide +kernel
  obtain ⟨s, ran, checked⟩ := (Option.any_eq_true _ _).mp called
  have busy : s.called = true ∧ s.unit.ip.isBusy = true := of_decide_eq_true checked
  exact ⟨s, ran, busy, (unfinished_request_powered (.device _ _ _ _) ran).1 busy⟩

end PowerSystem

end GemDroid
