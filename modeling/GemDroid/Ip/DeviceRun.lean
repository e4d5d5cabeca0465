import GemDroid.Ip.Base
import GemDroid.Lib.Run

/-! Runs of a device between the agent and the memory, and what it does for each request. -/

namespace GemDroid

namespace Ip

theorem tick_asleep {governor : Governor} {accepted : Bool} {ip : Ip}
    (asleep : ip.power.powerState = .idle) (still : ip.power.cyclesToWake = 0)
    (fresh : ip.power.idleCycles = 0) : ip.tick governor accepted = (ip, []) := by
  simp [tick, IpPower.updatePower, asleep, still, fresh, ipPStateEnterTime]

/-- The state of a device that changed nothing of its request. -/
def withTiming (ip : Ip) (power : IpPower) (cyclesToSkip : Int) : Ip :=
  { ip with power := power, cyclesToSkip := cyclesToSkip }

/-- The state of a device that has just reported its request. -/
def afterReport (ip : Ip) : Ip :=
  { ip with isBusy := false, respCount := 0, reqCount := 0 }

/-- The state of a device whose next memory request was accepted. -/
def afterSend (ip : Ip) : Ip :=
  { ip with
    reqCount := if ip.reqCount = 1 then -1 else ip.reqCount - 1
    reqAddr := ip.reqAddr + 64#64 }

/-- Everything one device tick can do: pass time, report the request, or send one line. -/
theorem tick_cases (governor : Governor) (accepted : Bool) (ip : Ip) :
    ∃ power skip,
      (ip.tick governor accepted = (ip.withTiming power skip, [])) ∨
      (ip.respCount = ip.dataSize.tdiv cacheLineSize ∧
        ip.tick governor accepted = (ip.afterReport.withTiming power skip,
          [.ipResponse ip.coreId ip.frameNum ip.flowType ip.flowId])) ∨
      (0 < ip.reqCount ∧
        ip.tick governor accepted = (ip.afterSend.withTiming power skip,
          [.memRequest ip.reqAddr ip.isRead])) := by
  unfold tick
  cases updated : ip.power.updatePower governor with
  | mk power working =>
  cases working with
  | false => exact ⟨power, ip.cyclesToSkip, .inl rfl⟩
  | true =>
    -- Spending latency touches only the skip counter, so it is named once for all cases.
    have spent : ∃ skip waiting, process { ip with power := power } =
        (ip.withTiming power skip, waiting) := by
      unfold process withTiming
      dsimp only
      split <;> exact ⟨_, _, rfl⟩
    obtain ⟨skip, waiting, processed⟩ := spent
    simp only [processed, if_true]
    cases waiting with
    | true => exact ⟨power, skip, .inl rfl⟩
    | false =>
      by_cases counted : ip.respCount = ip.dataSize.tdiv cacheLineSize
      · -- After the report nothing is left to send, so the tick ends as an idle cycle.
        refine ⟨{ power with idleCycles := power.idleCycles + 1 }, skip, .inr (.inl ⟨counted, ?_⟩)⟩
        simp [complete, advance, withTiming, afterReport, counted]
      · by_cases positive : 0 < ip.reqCount
        · cases accepted with
          | true =>
            refine ⟨power, skip, .inr (.inr ⟨positive, ?_⟩)⟩
            by_cases last : ip.reqCount = 1
            · simp [complete, advance, sendMemoryReq, withTiming, afterSend, counted, last]
            · have more : ip.reqCount - 1 ≠ 0 := by omega
              simp [complete, advance, sendMemoryReq, withTiming, afterSend, counted, positive,
                last, more, Int.not_le.mpr positive]
          | false =>
            refine ⟨power, skip, .inl ?_⟩
            have nonzero : ip.reqCount ≠ 0 := by omega
            simp [complete, advance, sendMemoryReq, withTiming, counted, positive, nonzero,
              Int.not_le.mpr positive]
        · -- Nothing to send: either an idle cycle, or a cycle spent waiting for responses.
          have none : ip.reqCount ≤ 0 := by omega
          cases busy : ip.isBusy with
          | true =>
            refine ⟨power, skip, .inl ?_⟩
            simp [complete, advance, withTiming, counted, positive, busy]
          | false =>
            refine ⟨{ power with idleCycles := power.idleCycles + 1 }, skip, .inl ?_⟩
            simp [complete, advance, withTiming, counted, none, busy]

end Ip

/-- What is seen of a device while it serves one request. -/
inductive Observation
  | requested (tag : Nat) (addr : Addr)
  | answered (tag : Nat)
  | reported
  deriving DecidableEq, Repr

/-- A request the device accepted, with everything seen until it accepted the next one. -/
structure DeviceFrame where
  req : IpRequest
  seen : List Observation
  deriving DecidableEq, Repr

namespace DeviceFrame

/-- The addresses of the memory requests sent for the frame, in order. -/
def addrs (f : DeviceFrame) : List Addr :=
  f.seen.filterMap fun
    | .requested _ addr => some addr
    | _ => none

/-- The frame with one more observation. -/
def observe (f : DeviceFrame) (o : Observation) : DeviceFrame :=
  { f with seen := f.seen ++ [o] }

/--
What a device owes for a request.

It reads or writes every line of the request once and in order.
It reports the request once, and not before each of these memory requests was answered.
-/
structure Complete (f : DeviceFrame) : Prop where
  lines : f.addrs = lineAddrs f.req.addr (Rounding.ceilDiv f.req.size cacheLineSize).toNat
  once : f.seen.count .reported = 1
  answeredFirst : ∀ before after, f.seen = before ++ .reported :: after →
    ∀ tag addr, .requested tag addr ∈ f.seen → .answered tag ∈ before

@[simp] theorem addrs_requested (f : DeviceFrame) (tag : Nat) (addr : Addr) :
    (f.observe (.requested tag addr)).addrs = f.addrs ++ [addr] := by
  simp [addrs, observe]

@[simp] theorem addrs_answered (f : DeviceFrame) (tag : Nat) :
    (f.observe (.answered tag)).addrs = f.addrs := by
  simp [addrs, observe]

@[simp] theorem addrs_reported (f : DeviceFrame) : (f.observe .reported).addrs = f.addrs := by
  simp [addrs, observe]

@[simp] theorem observe_req (f : DeviceFrame) (o : Observation) : (f.observe o).req = f.req := rfl

end DeviceFrame

/-- A device with the memory requests that still wait for their response, and its frames. -/
structure DeviceSystem where
  ip : Ip
  nextTag : Nat
  pending : List Nat
  closed : List DeviceFrame
  current : Option DeviceFrame
  deriving DecidableEq, Repr

/-- What can happen to a device, in any order. -/
inductive DeviceEvent
  | enqueueIPReq (req : IpRequest)
  | tick (accepted : Bool)
  | memResponse (tag : Nat)
  deriving DecidableEq, Repr

namespace DeviceSystem

/-- A device before its first request. -/
def start (ip : Ip) : DeviceSystem :=
  { ip := ip, nextTag := 0, pending := [], closed := [], current := none }

/-- Add one observation to the frame in progress. -/
def observe (s : DeviceSystem) (o : Observation) : DeviceSystem :=
  { s with current := s.current.map fun f => f.observe o }

/-- Record a call the device made. -/
def record (s : DeviceSystem) : IpCall → DeviceSystem
  | .memRequest addr _ =>
    { s.observe (.requested s.nextTag addr) with
      nextTag := s.nextTag + 1, pending := s.pending ++ [s.nextTag] }
  | .ipResponse _ _ _ _ => s.observe .reported

/-- One clock cycle, in which the agent accepts or refuses a memory request. -/
def tick (governor : Governor) (accepted : Bool) (s : DeviceSystem) : DeviceSystem :=
  let (ip, calls) := s.ip.tick governor accepted
  calls.foldl record { s with ip := ip }

/-- One event; a response is possible only for a memory request that is still waiting for it. -/
def step (governor : Governor) (s : DeviceSystem) : DeviceEvent → Option DeviceSystem
  | .enqueueIPReq req =>
    let (ip, accepted) := s.ip.enqueueIPReq req
    if accepted then
      some { s with
        ip := ip, closed := s.closed ++ s.current.toList, current := some ⟨req, []⟩ }
    else some { s with ip := ip }
  | .tick accepted => some (s.tick governor accepted)
  | .memResponse tag =>
    if tag ∈ s.pending then
      some { s.observe (.answered tag) with
        ip := s.ip.memResponse, pending := s.pending.erase tag }
    else none

/-- Requests with data ask for whole cache lines. -/
def WholeLines (s : DeviceSystem) : DeviceEvent → Prop
  | .enqueueIPReq req => s.ip.isBusy = true ∨ req.size ≤ 0 ∨ cacheLineSize ∣ req.size
  | .tick _ | .memResponse _ => True

/-- Nothing is owed: no response is awaited and nothing is left to send. -/
structure Quiet (s : DeviceSystem) : Prop where
  settled : s.pending = []
  counted : s.ip.respCount = 0
  spent : s.ip.reqCount ≤ 0

/-- The device has sent a first part of its `n` lines and awaits some of the responses. -/
structure Serving (s : DeviceSystem) (f : DeviceFrame) (n : Nat) : Prop where
  size : f.req.size = cacheLineSize * n
  positive : 0 < n
  data : s.ip.dataSize = f.req.size
  sent : f.addrs = lineAddrs f.req.addr f.addrs.length
  bounded : f.addrs.length ≤ n
  next : s.ip.reqAddr = lineAddr f.req.addr f.addrs.length
  left : s.ip.reqCount = if f.addrs.length = n then (-1 : Int) else n - f.addrs.length
  unreported : .reported ∉ f.seen
  counted : s.ip.respCount + s.pending.length = f.addrs.length
  owed : ∀ tag addr, .requested tag addr ∈ f.seen → tag ∈ s.pending ∨ .answered tag ∈ f.seen

/-- The device has reported its request and is free again. -/
structure Served (s : DeviceSystem) (f : DeviceFrame) : Prop extends Quiet s where
  complete : f.Complete
  data : s.ip.dataSize = f.req.size
  nonempty : cacheLineSize ≤ f.req.size

/-- Where the device stands with the request it accepted last. -/
def Phase (s : DeviceSystem) (f : DeviceFrame) : Prop :=
  (f.req.size ≤ 0 ∧ s.Quiet) ∨ (s.ip.isBusy = true ∧ ∃ n, s.Serving f n) ∨
    (s.ip.isBusy = false ∧ s.Served f)

/-- Before the first request the device sleeps and no response is awaited. -/
structure Untouched (s : DeviceSystem) : Prop where
  settled : s.pending = []
  asleep : s.ip.power.powerState = .idle
  still : s.ip.power.cyclesToWake = 0
  fresh : s.ip.power.idleCycles = 0

/-- All earlier requests with data were served, and the present one is on its way. -/
structure Inv (s : DeviceSystem) : Prop where
  finished : ∀ f ∈ s.closed, 0 < f.req.size → f.Complete
  present : match s.current with
    | none => s.Untouched
    | some f => s.Phase f

variable {s : DeviceSystem} {f : DeviceFrame} {n : Nat}

theorem Quiet.withTiming (quiet : s.Quiet) (power : IpPower) (skip : Int) :
    Quiet { s with ip := s.ip.withTiming power skip } :=
  ⟨quiet.settled, quiet.counted, quiet.spent⟩

theorem Serving.withTiming (serving : s.Serving f n) (power : IpPower) (skip : Int) :
    Serving { s with ip := s.ip.withTiming power skip } f n :=
  ⟨serving.size, serving.positive, serving.data, serving.sent, serving.bounded, serving.next,
    serving.left, serving.unreported, serving.counted, serving.owed⟩

theorem Serving.congr {t : DeviceSystem} (serving : s.Serving f n) (ip : t.ip = s.ip)
    (pending : t.pending = s.pending) :
    t.Serving f n := by
  -- The clauses read the device and the awaited responses and nothing else.
  refine ⟨serving.size, serving.positive, ?_, serving.sent, serving.bounded, ?_, ?_,
    serving.unreported, ?_, ?_⟩
  · rw [ip, serving.data]
  · rw [ip, serving.next]
  · rw [ip, serving.left]
  · rw [ip, pending, serving.counted]
  · rw [pending]
    exact serving.owed

theorem Serving.report (serving : s.Serving f n)
    (all : s.ip.respCount = s.ip.dataSize.tdiv cacheLineSize) :
    f.addrs.length = n ∧ s.pending = [] ∧ (f.observe .reported).Complete := by
  have size := serving.size
  have count : s.ip.respCount = n := by
    rw [all, serving.data, size, cacheLineSize, Int.mul_tdiv_cancel_left _ (by decide)]
  -- The responses counted cannot exceed the requests sent, so all lines were sent and answered.
  have counted := serving.counted
  have bounded := serving.bounded
  have whole : f.addrs.length = n := by omega
  have none : s.pending = [] := List.eq_nil_of_length_eq_zero (by omega)
  refine ⟨whole, none, ⟨?_, ?_, ?_⟩⟩
  · rw [DeviceFrame.addrs_reported, serving.sent, whole, DeviceFrame.observe_req, size,
      Rounding.ceilDiv_mul_left _ (by decide)]
    rfl
  · simp [DeviceFrame.observe, List.count_eq_zero.mpr serving.unreported]
  · intro before after split tag addr asked
    -- The only report is the one just appended, so everything before it is the old trace.
    have first : before = f.seen := by
      have cut : f.seen ++ .reported :: [] = before ++ .reported :: after := split
      exact ((List.append_cons_inj_of_notMem serving.unreported (by simp)).mp cut).1.symm
    have member : .requested tag addr ∈ f.seen := by
      simpa [DeviceFrame.observe] using asked
    subst first
    rcases serving.owed tag addr member with waiting | answered
    · simp [none] at waiting
    · exact answered

/-- An accepted line moves the device on to the next one. -/
theorem Serving.send (serving : s.Serving f n) (more : 0 < s.ip.reqCount) (power : IpPower)
    (skip : Int) :
    Serving { s with
      ip := s.ip.afterSend.withTiming power skip
      nextTag := s.nextTag + 1
      pending := s.pending ++ [s.nextTag] } (f.observe (.requested s.nextTag s.ip.reqAddr)) n := by
  have left := serving.left
  -- A positive count excludes the case that all lines are out.
  have room : f.addrs.length ≠ n := by
    intro full
    rw [if_pos full] at left
    omega
  rw [if_neg room] at left
  have bounded := serving.bounded
  have length : (f.observe (.requested s.nextTag s.ip.reqAddr)).addrs.length =
      f.addrs.length + 1 := by simp
  refine ⟨serving.size, serving.positive, serving.data, ?_, ?_, ?_, ?_, ?_, ?_, ?_⟩
  · rw [length, lineAddrs_succ, DeviceFrame.addrs_requested, DeviceFrame.observe_req,
      ← serving.next, ← serving.sent]
  · omega
  · rw [length, DeviceFrame.observe_req, ← lineAddr_succ, ← serving.next]
    rfl
  · -- The count reaches one exactly at the last line, and is then moved past zero.
    simp only [Ip.withTiming, Ip.afterSend, length, left]
    split <;> split <;> omega
  · simpa [DeviceFrame.observe] using serving.unreported
  · have counted := serving.counted
    simp only [Ip.withTiming, Ip.afterSend, length, List.length_append, List.length_singleton]
    omega
  · intro tag addr asked
    simp only [DeviceFrame.observe, List.mem_append, List.mem_singleton,
      Observation.requested.injEq] at asked
    rcases asked with earlier | ⟨rfl, rfl⟩
    · rcases serving.owed tag addr earlier with waiting | answered
      · exact .inl (List.mem_append_left _ waiting)
      · exact .inr (List.mem_append_left _ answered)
    · exact .inl (by simp)

theorem Serving.answer (serving : s.Serving f n) {tag : Nat} (waiting : tag ∈ s.pending) :
    Serving { s with ip := s.ip.memResponse, pending := s.pending.erase tag }
      (f.observe (.answered tag)) n := by
  -- One response more is counted and one fewer awaited.
  have counted := serving.counted
  have shorter := List.length_erase_of_mem waiting
  have nonempty := List.length_pos_of_mem waiting
  refine ⟨serving.size, serving.positive, serving.data, ?_, ?_, ?_, ?_, ?_, ?_, ?_⟩
  · simpa using serving.sent
  · simpa using serving.bounded
  · simpa [Ip.memResponse] using serving.next
  · simpa [Ip.memResponse] using serving.left
  · simpa [DeviceFrame.observe] using serving.unreported
  · simp only [Ip.memResponse, DeviceFrame.addrs_answered, shorter]
    omega
  · intro other addr asked
    have earlier : .requested other addr ∈ f.seen := by
      simpa [DeviceFrame.observe] using asked
    by_cases same : other = tag
    · exact .inr (by simp [DeviceFrame.observe, same])
    · rcases serving.owed other addr earlier with still | answered
      · exact .inl ((List.mem_erase_of_ne same).mpr still)
      · exact .inr (List.mem_append_left _ answered)

theorem phase_of_accept {req : IpRequest} (free : s.ip.isBusy = false) (settled : s.pending = [])
    (whole : req.size ≤ 0 ∨ cacheLineSize ∣ req.size) (closed : List DeviceFrame) :
    Phase { s with
      ip := (s.ip.enqueueIPReq req).1, closed := closed, current := some ⟨req, []⟩ }
      ⟨req, []⟩ := by
  -- The request count is the number of lines, and nothing was sent or answered yet.
  by_cases empty : req.size ≤ 0
  · -- A request without data has nothing to send.
    refine .inl ⟨empty, settled, ?_, ?_⟩
    · simp [Ip.enqueueIPReq, free]
    · simpa [Ip.enqueueIPReq, free] using
        Rounding.ceilDiv_le (n := 0) (by decide : 0 < cacheLineSize) (by omega)
  · obtain ⟨n, size⟩ := whole.resolve_left empty
    have positive : 0 < n := by
      simp only [cacheLineSize] at size
      omega
    obtain ⟨n, rfl⟩ := Int.eq_ofNat_of_zero_le (by omega : 0 ≤ n)
    have lines := Rounding.ceilDiv_mul_left (n : Int) (by decide : 0 < cacheLineSize)
    refine .inr (.inl ⟨by simp [Ip.enqueueIPReq, free], n, ?_⟩)
    have nonzero : ¬ 0 = n := by omega
    refine ⟨size, by omega, ?_, rfl, by simp [DeviceFrame.addrs], ?_, ?_, by simp, ?_, by simp⟩
    · simp [Ip.enqueueIPReq, free]
    · simp [Ip.enqueueIPReq, free, DeviceFrame.addrs]
    · simp [Ip.enqueueIPReq, free, DeviceFrame.addrs, size, lines, nonzero]
    · simp [Ip.enqueueIPReq, free, DeviceFrame.addrs, settled]

theorem Phase.complete (phase : s.Phase f) (free : s.ip.isBusy = false)
    (nonempty : 0 < f.req.size) : f.Complete := by
  -- A request without data owes nothing, and a device at work is busy.
  rcases phase with ⟨empty, -⟩ | ⟨busy, -⟩ | ⟨-, served⟩
  · omega
  · simp [free] at busy
  · exact served.complete

theorem Phase.settled (phase : s.Phase f) (free : s.ip.isBusy = false) : s.pending = [] := by
  -- Only a device at work awaits responses, and it is busy.
  rcases phase with ⟨-, quiet⟩ | ⟨busy, -⟩ | ⟨-, served⟩
  · exact quiet.settled
  · simp [free] at busy
  · exact served.settled

/-- A tick keeps the device on the way through its request. -/
theorem Phase.tick (governor : Governor) (accepted : Bool) (phase : s.Phase f)
    (present : s.current = some f) :
    ∃ f', (s.tick governor accepted).current = some f' ∧
      (s.tick governor accepted).closed = s.closed ∧ (s.tick governor accepted).Phase f' := by
  -- The three things a tick can do meet the three phases of a request.
  obtain ⟨power, skip, pass | ⟨all, report⟩ | ⟨more, send⟩⟩ :=
    Ip.tick_cases governor accepted s.ip
  · -- Time passes and the phase stays.
    refine ⟨f, ?_⟩
    rw [DeviceSystem.tick, pass]
    refine ⟨present, rfl, ?_⟩
    rcases phase with ⟨empty, quiet⟩ | ⟨busy, n, serving⟩ | ⟨free, served⟩
    · exact .inl ⟨empty, quiet.withTiming power skip⟩
    · exact .inr (.inl ⟨busy, n, serving.withTiming power skip⟩)
    · exact .inr (.inr ⟨free, served.withTiming power skip, served.complete, served.data,
        served.nonempty⟩)
  · -- A report ends the request; a finished one is never reported again.
    refine ⟨f.observe .reported, ?_⟩
    rw [DeviceSystem.tick, report]
    refine ⟨by simp [record, observe, present], rfl, ?_⟩
    rcases phase with ⟨empty, quiet⟩ | ⟨busy, n, serving⟩ | ⟨free, served⟩
    · exact .inl ⟨empty, quiet.settled, rfl, Int.le_refl 0⟩
    · obtain ⟨-, none, complete⟩ := serving.report all
      have positive := serving.positive
      have size := serving.size
      refine .inr (.inr ⟨rfl, ⟨none, rfl, Int.le_refl 0⟩, complete, serving.data, ?_⟩)
      simp only [DeviceFrame.observe_req, size, cacheLineSize]
      omega
    · have again := all
      rw [served.counted, served.data] at again
      have nonempty := served.nonempty
      simp only [cacheLineSize] at again nonempty
      rw [Int.tdiv_eq_ediv_of_nonneg (by omega)] at again
      omega
  · -- Only a device at work has a line to send.
    refine ⟨f.observe (.requested s.nextTag s.ip.reqAddr), ?_⟩
    rw [DeviceSystem.tick, send]
    refine ⟨by simp [record, observe, present], rfl, ?_⟩
    rcases phase with ⟨empty, quiet⟩ | ⟨busy, n, serving⟩ | ⟨free, served⟩
    · exact absurd more (Int.not_lt.mpr quiet.spent)
    · exact .inr (.inl ⟨busy, n, (serving.send more power skip).congr rfl rfl⟩)
    · exact absurd more (Int.not_lt.mpr served.spent)

/-- Every event in a run of whole-line requests keeps the invariant. -/
theorem Inv.step {governor : Governor} {t : DeviceSystem} {e : DeviceEvent} (inv : s.Inv)
    (whole : s.WholeLines e) (taken : s.step governor e = some t) : t.Inv := by
  obtain ⟨finished, present⟩ := inv
  cases e with
  | enqueueIPReq req =>
    cases busy : s.ip.isBusy with
    | true =>
      -- A busy device refuses and stays as it is.
      simp only [DeviceSystem.step, Ip.enqueueIPReq, busy, if_true, Bool.false_eq_true, if_false,
        Option.some.injEq] at taken
      exact taken ▸ ⟨finished, present⟩
    | false =>
      have accepted : (s.ip.enqueueIPReq req).2 = true := by simp [Ip.enqueueIPReq, busy]
      simp only [DeviceSystem.step, accepted, if_true, Option.some.injEq] at taken
      subst taken
      have size := whole.resolve_left (by simp [busy])
      cases current : s.current with
      | none =>
        rw [current] at present
        exact ⟨by simpa [current] using finished, phase_of_accept busy present.settled size _⟩
      | some f =>
        rw [current] at present
        refine ⟨?_, phase_of_accept busy (present.settled busy) size _⟩
        intro g member nonempty
        simp only [Option.toList_some, List.mem_append, List.mem_singleton] at member
        rcases member with earlier | rfl
        · exact finished g earlier nonempty
        · exact present.complete busy nonempty
  | tick accepted =>
    simp only [DeviceSystem.step, Option.some.injEq] at taken
    subst taken
    cases current : s.current with
    | none =>
      rw [current] at present
      have same : s.tick governor accepted = s := by
        rw [tick, Ip.tick_asleep present.asleep present.still present.fresh]
        rfl
      rw [same]
      exact ⟨finished, by rw [current]; exact present⟩
    | some f =>
      rw [current] at present
      obtain ⟨f', now, before, phase⟩ := present.tick governor accepted current
      exact ⟨by rw [before]; exact finished, by rw [now]; exact phase⟩
  | memResponse tag =>
    simp only [DeviceSystem.step] at taken
    split at taken
    case isFalse => simp at taken
    case isTrue waiting =>
      simp only [Option.some.injEq] at taken
      subst taken
      cases current : s.current with
      | none =>
        rw [current] at present
        simp [present.settled] at waiting
      | some f =>
        rw [current] at present
        refine ⟨finished, ?_⟩
        simp only [observe, current, Option.map_some]
        rcases present with ⟨-, quiet⟩ | ⟨busy, n, serving⟩ | ⟨-, served⟩
        · simp [quiet.settled] at waiting
        · exact .inr (.inl ⟨busy, n, (serving.answer waiting).congr rfl rfl⟩)
        · simp [served.settled] at waiting

theorem inv_start (raw : Ip) (ipType : IpType) (ioLatency : Int) (dvfs : IpDvfs) :
    (start (raw.init ipType true ioLatency dvfs)).Inv :=
  ⟨by simp [start], ⟨rfl, rfl, rfl, rfl⟩⟩

/--
In every run whose requests ask for whole cache lines, a device serves each request completely
before it accepts the next one.
-/
theorem requests_served (governor : Governor) (raw : Ip) (ipType : IpType) (ioLatency : Int)
    (dvfs : IpDvfs) (es : List DeviceEvent) (s : DeviceSystem)
    (whole : Machine.Meets (step governor) WholeLines
      (start (raw.init ipType true ioLatency dvfs)) es)
    (ran : Machine.run (step governor) (start (raw.init ipType true ioLatency dvfs)) es = some s) :
    ∀ f ∈ s.closed, 0 < f.req.size → f.Complete :=
  (Machine.run_preserves_of_meets (fun _ _ _ inv allowed taken => inv.step allowed taken)
    (inv_start raw ipType ioLatency dvfs) whole ran).finished

/-- The call for the network device that a core makes for each `NW` trace line. -/
def nwCall : IpRequest :=
  { coreId := 0, addr := BitVec.ofInt 64 IpType.nw.addrStart, size := 1562, isRead := false,
    frameNum := 0, flowType := ipTypeEnd, flowId := -1 }

/-- A network device as it is after `init`, in memory that held zeros. -/
def nwDevice : Ip :=
  Ip.init
    { power := {
        ipType := .nw, isDevice := true, powerState := .idle, idleCycles := 0, cyclesToWake := 0,
        dvfs := ⟨.nw, 2, 0, 1, 0⟩ }
      ioLatency := 0, coreId := 0, flowType := 0, flowId := 0, reqCount := 0, respCount := 0,
      dataSize := 0, isBusy := false, reqAddr := 0, isRead := false, frameNum := 0,
      cyclesToSkip := 0 }
    .nw true 1 ⟨.nw, 2, 0, 1, 0⟩

/-- The device once it is active with its request. -/
def awake (s : DeviceSystem) : DeviceSystem :=
  { s with ip := { s.ip with power := { s.ip.power with
      powerState := .active, cyclesToWake := 0, idleCycles := 0 } } }

theorem run_wake (s : DeviceSystem) (n : Nat) (asleep : s.ip.power.powerState = .idle)
    (left : s.ip.power.cyclesToWake = n + 1) :
    Machine.run (step .disabled) s (List.replicate (n + 1) (.tick true)) = some s.awake := by
  -- Each tick spends one waking cycle, and the last one makes the device active.
  let waking (k : Nat) : DeviceSystem :=
    { s with ip := { s.ip with power := { s.ip.power with cyclesToWake := n + 1 - k } } }
  have begun : s = waking 0 := by
    simp only [waking, Int.sub_zero, Nat.cast_zero, ← left]
  have linked : ∀ k < n, step .disabled (waking k) (.tick true) = some (waking (k + 1)) := by
    intro k below
    have more : 1 < (waking k).ip.power.cyclesToWake := by
      simp only [waking]
      omega
    have next : (n : Int) + 1 - k - 1 = n + 1 - (k + 1 : Nat) := by omega
    simp only [step, tick, Ip.tick, IpPower.updatePower_waking (p := (waking k).ip.power) asleep
      more, Bool.false_eq_true, if_false, List.foldl_nil, waking, next]
  have last : (waking n).ip.power.cyclesToWake = 1 := by
    simp only [waking]
    omega
  rw [List.replicate_succ', Machine.run_concat, begun, Machine.run_replicate linked,
    Option.bind_some]
  simp only [step, tick, Ip.tick, IpPower.updatePower_woken (p := (waking n).ip.power) asleep last,
    Bool.false_eq_true, if_false, List.foldl_nil]
  rfl

/-- The network device right after it accepted its first request. -/
def called (req : IpRequest) : DeviceSystem :=
  { start nwDevice with ip := (nwDevice.enqueueIPReq req).1, current := some ⟨req, []⟩ }

/-- The events of a first request: the call, the wake-up and then `rest`. -/
def firstRequest (req : IpRequest) (rest : List DeviceEvent) : List DeviceEvent :=
  .enqueueIPReq req :: (List.replicate 109200 (.tick true) ++ rest)

theorem run_firstRequest (req : IpRequest) (rest : List DeviceEvent) :
    Machine.run (step .disabled) (start nwDevice) (firstRequest req rest) =
      Machine.run (step .disabled) (called req).awake rest := by
  -- The call only starts the wake-up.
  have accepted : step .disabled (start nwDevice) (.enqueueIPReq req) = some (called req) := rfl
  rw [firstRequest, Machine.run_cons, accepted, Option.bind_some, Machine.run_append,
    run_wake (called req) 109199 rfl rfl, Option.bind_some]

/-- A call of one line is sent, answered and reported before the next call is accepted. -/
theorem one_line_call_served :
    ∃ es s, Machine.run (step .disabled) (start nwDevice) es = some s ∧
      ∃ f ∈ s.closed, f.req.size = 64 ∧ f.Complete := by
  let lineCall : IpRequest := { nwCall with size := 64 }
  let rest : List DeviceEvent :=
    [.tick true, .memResponse 0, .tick true, .enqueueIPReq lineCall]
  have short : (Machine.run (step .disabled) (called lineCall).awake rest).any (fun s =>
      s.closed.any fun f => f.req.size = 64) = true := by
    decide +kernel
  obtain ⟨last, answered, found⟩ := (Option.any_eq_true _ _).mp short
  obtain ⟨f, member, checked⟩ := List.any_eq_true.mp found
  have size : f.req.size = 64 := of_decide_eq_true checked
  have ran := (run_firstRequest lineCall rest).trans answered
  have whole : Machine.Meets (step .disabled) WholeLines (start nwDevice)
      (firstRequest lineCall rest) := by
    -- Ticks and responses need nothing, and the only calls are for one line.
    apply Machine.meets_of_forall
    intro e among s
    cases e with
    | enqueueIPReq req =>
      have line : req = lineCall := by
        simpa only [firstRequest, rest, List.mem_cons, List.mem_append, List.mem_replicate,
          DeviceEvent.enqueueIPReq.injEq, reduceCtorEq, and_false, false_or, List.not_mem_nil,
          or_false, or_self] using among
      exact .inr (.inr (by rw [line]; decide))
    | tick accepted => trivial
    | memResponse tag => trivial
  exact ⟨_, last, ran, f, member, size,
    requests_served .disabled _ .nw 1 _ _ last whole ran f member (by omega)⟩

/-- The events after the wake-up: the latency, then lines that are answered at once. -/
def promptAnswers : List DeviceEvent :=
  List.replicate 24 (.tick true) ++
    (List.range 24).flatMap (fun tag => [.tick true, .memResponse tag]) ++
    [.tick true, .enqueueIPReq nwCall]

/--
The network call asks for 25 lines, but its completion test stops at 24.

When each line is answered before the next tick, the last line is never sent.
-/
theorem nw_call_unserved :
    ∃ es s, Machine.run (step .disabled) (start nwDevice) es = some s ∧
      ∃ f ∈ s.closed, f.req = nwCall ∧ 0 < f.req.size ∧ ¬ f.Complete := by
  -- 1562 bytes are 25 lines, but the completion test divides without rounding up.
  have short : (Machine.run (step .disabled) (called nwCall).awake promptAnswers).any (fun s =>
      s.closed.any fun f => f.req = nwCall ∧ f.addrs.length = 24) = true := by
    decide +kernel
  obtain ⟨last, answered, found⟩ := (Option.any_eq_true _ _).mp short
  obtain ⟨f, member, checked⟩ := List.any_eq_true.mp found
  obtain ⟨call, length⟩ := of_decide_eq_true checked
  refine ⟨firstRequest nwCall promptAnswers, last,
    (run_firstRequest nwCall promptAnswers).trans answered,
    f, member, call, by rw [call]; decide, ?_⟩
  intro complete
  have lines := congrArg List.length complete.lines
  rw [length, call, lineAddrs_length] at lines
  revert lines
  decide

end DeviceSystem

end GemDroid
