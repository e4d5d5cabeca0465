import GemDroid.Lib.Outcome
import GemDroid.Lib.Run
import GemDroid.Mem.SimpleMem

/-! Over every run the memory answers its requests in order and forgets no retry. -/

namespace GemDroid

namespace SimpleMemoryRun

open SimpleMemory Outcome

/-- A request that the memory owes an answer, and when it was accepted. -/
structure Owed where
  number : Nat
  tick : Nat

/-- An answer that the peer accepted, and when. -/
structure Answered where
  number : Nat
  tick : Nat

/-- The memory, the clock, and what its peer knows. -/
structure State where
  mem : SimpleMemory
  now : Nat := 0
  given : Nat := 0
  owed : List Owed := []
  answered : List Answered := []
  /-- The peer refused a response, and has not yet retried. -/
  owesRetry : Bool := false
  /-- A request was refused, and no retry was sent since. -/
  awaits : Bool := false
  /-- The memory was released without a retry after a refusal. -/
  missed : Bool := false

/-- A request of the peer, and the random part of its latency. -/
structure Call where
  pkt : Packet
  random : Nat

/-- The memory is to answer the request, which is accepted. -/
def answers (pkt : Packet) : Bool :=
  !pkt.memInhibit && pkt.cmd.needsResponse

/-- The peer sends a request. -/
def call (params : SimpleMemoryParams) (s : State) (c : Call) : Except SimpleMemoryFault State :=
  do
  let (mem, accepted) ← s.mem.recvTimingReq params s.now c.random { number := s.given, pkt :=
    c.pkt }
  let owed := if accepted && answers c.pkt then s.owed ++ [{ number := s.given, tick := s.now }]
    else s.owed
  return { s with mem, owed, given := s.given + 1, awaits := s.awaits || !accepted }

/-- The peer sends several requests, one after the other. -/
def calls (params : SimpleMemoryParams) (s : State) (during : List Call) :
    Except SimpleMemoryFault State :=
  during.foldlM (call params) s

/-- The release event takes place, and the peer sends requests from inside the retry. -/
def release (params : SimpleMemoryParams) (s : State) (during : List Call) :
    Except SimpleMemoryFault State := do
  let (mem, retries) ← { s.mem with releaseEvent := none }.release
  if retries then calls params { s with mem, awaits := false } during
  else return { s with mem, missed := s.missed || s.awaits }

/-- A response is sent, and the peer refuses it, or accepts it and sends requests before. -/
def send (params : SimpleMemoryParams) (s : State) (response : DeferredResponse)
    (accepts : Option (List Call)) : Except SimpleMemoryFault State :=
  match accepts with
  | none => do return { s with mem := ← s.mem.sent s.now false, owesRetry := true }
  | some during => do
    let s ← calls params { s with owesRetry := false } during
    let answered := s.answered ++ [{ number := response.pkt.number, tick := s.now }]
    return { s with mem := ← s.mem.sent s.now true, answered }

/-- The dequeue event is taken off the event queue. -/
def dequeueFired (s : State) : State :=
  { s with mem := { s.mem with dequeueEvent := none } }

/-- What happens to the memory. -/
inductive Op where
  | advance (tick : Nat)
  | request (c : Call)
  | release (during : List Call)
  /-- The dequeue event takes place, and the peer refuses the response or accepts it. -/
  | dequeue (accepts : Option (List Call))
  /-- The peer retries, and refuses the response or accepts it. -/
  | retry (accepts : Option (List Call))
  | drain

/--
One operation: the clock does not pass an event, an event takes place at its tick, and the peer
retries once for each response that it refused.
-/
def step (params : SimpleMemoryParams) :
    Except SimpleMemoryFault State → Op → Option (Except SimpleMemoryFault State)
  | .error _, _ => none
  | .ok s, .advance tick =>
    if s.now ≤ tick ∧ (s.mem.releaseEvent.all fun when => decide (tick ≤ when)) ∧
        s.mem.dequeueEvent.all fun when => decide (tick ≤ when) then
      some (.ok { s with now := tick })
    else none
  | .ok s, .request c => some (call params s c)
  | .ok s, .release during =>
    if s.mem.releaseEvent = some s.now then some (release params s during) else none
  | .ok s, .dequeue accepts =>
    if s.mem.dequeueEvent = some s.now then
      some (do send params (dequeueFired s) (← (dequeueFired s).mem.front) accepts)
    else none
  | .ok s, .retry accepts =>
    if s.owesRetry then some (do send params s (← s.mem.recvRetry) accepts) else none
  | .ok s, .drain => some (.ok { s with mem := s.mem.drain })

/--
Every request that is owed an answer has had it or has it queued, in the order of acceptance and
after the latency; a queue with answers has its event scheduled or waits for a retry; and after a
refusal the next release sends a retry.
-/
structure Served (params : SimpleMemoryParams) (s : State) : Prop where
  inOrder : s.owed.map (·.number) =
    s.answered.map (·.number) ++ s.mem.packetQueue.map (·.pkt.number)
  once : (s.owed.map (·.number)).Nodup
  notEarly : ∀ a ∈ s.answered, ∀ o ∈ s.owed, o.number = a.number →
    o.tick + params.latency ≤ a.tick
  woken : s.mem.packetQueue ≠ [] → s.mem.dequeueEvent.isSome ∨ s.mem.retryResp = true
  notBoth : ¬(s.mem.dequeueEvent.isSome ∧ s.mem.retryResp = true)
  busy : s.mem.isBusy = s.mem.releaseEvent.isSome
  remembers : s.awaits = true → s.mem.retryReq = true ∧ s.mem.releaseEvent.isSome
  noneMissed : s.missed = false

/-- No assertion failed but those of the access, and the requests are served as they should be. -/
def Good (params : SimpleMemoryParams) : Except SimpleMemoryFault State → Prop
  | .error fault => ∃ cause, fault = .access cause
  | .ok s => Served params s

/-- What the memory is up to with its responses. -/
inductive Phase (m : SimpleMemory) (now : Nat) : Prop
  | idle (empty : m.packetQueue = []) (unscheduled : m.dequeueEvent = none)
      (free : m.retryResp = false)
  | armed {front : DeferredResponse} {rest : List DeferredResponse} {when : Nat}
      (queue : m.packetQueue = front :: rest) (event : m.dequeueEvent = some when)
      (ahead : now ≤ when) (ready : front.tick ≤ when) (free : m.retryResp = false)
  | waiting {front : DeferredResponse} {rest : List DeferredResponse}
      (queue : m.packetQueue = front :: rest) (unscheduled : m.dequeueEvent = none)
      (ready : front.tick ≤ now) (waits : m.retryResp = true)

/-- The memory sends its first response, behind which others may have joined the queue. -/
structure Sending (m : SimpleMemory) (now : Nat) (response : DeferredResponse) : Prop where
  first : m.packetQueue.head? = some response
  ready : response.tick ≤ now
  alone : m.packetQueue.tail = [] → m.dequeueEvent = none

/-- What holds of requests, whatever the memory is up to with its responses. -/
structure Inv (params : SimpleMemoryParams) (s : State) : Prop where
  busy : s.mem.isBusy = s.mem.releaseEvent.isSome
  ahead : ∀ when ∈ s.mem.releaseEvent, s.now ≤ when
  waits : s.mem.retryReq = true → s.mem.isBusy = true
  awaits : s.awaits = s.mem.retryReq
  noneMissed : s.missed = false
  inOrder : s.owed.map (·.number) =
    s.answered.map (·.number) ++ s.mem.packetQueue.map (·.pkt.number)
  once : (s.owed.map (·.number)).Nodup
  fresh : ∀ o ∈ s.owed, o.number < s.given
  due : ∀ q ∈ s.mem.packetQueue, ∀ o ∈ s.owed, o.number = q.pkt.number →
    o.tick + params.latency ≤ q.tick
  notEarly : ∀ a ∈ s.answered, ∀ o ∈ s.owed, o.number = a.number →
    o.tick + params.latency ≤ a.tick

/-- What holds between any two operations. -/
structure Between (params : SimpleMemoryParams) (s : State) : Prop extends Inv params s where
  phase : Phase s.mem s.now
  owes : s.owesRetry = s.mem.retryResp

/-- The access may fail, but nothing else. -/
def InAccess (fault : SimpleMemoryFault) : Prop :=
  ∃ cause, fault = .access cause

variable {params : SimpleMemoryParams} {s t : State} {m m' : SimpleMemory} {now : Nat}

theorem schedule_none {curTick when : Nat} (future : curTick ≤ when) :
    schedule none curTick when = .ok (some when) := by
  rw [schedule, if_neg (by omega)]
  rfl

variable {response : DeferredResponse}

theorem front_ok {rest : List DeferredResponse}
    (queue : m.packetQueue = response :: rest) : m.front = .ok response := by
  rw [front, queue]

theorem writeOK_cmd (pkt : Packet) (mem : Memory) : (mem.writeOK pkt).1.cmd = pkt.cmd := by
  unfold Memory.writeOK
  dsimp only
  split <;> rfl

/-- A request that needs a response is turned into one. -/
theorem access_isResponse {mem mem' : Memory} {pkt result : Packet}
    (needs : pkt.cmd.needsResponse = true) (supplied : pkt.memInhibit = false)
    (accessed : mem.access pkt = .ok (result, mem')) : result.cmd.isResponse = true := by
  -- The command stays the same until the packet is turned around.
  have table : ∀ cmd : MemCmd, cmd.needsResponse = true →
    cmd.responseCommand.isResponse = true := by
    intro cmd
    cases cmd <;> decide
  have turned : ∀ q : Packet, q.cmd = pkt.cmd →
      (if q.cmd.needsResponse then q.makeResponse else q).cmd.isResponse = true := by
    intro q same
    rw [same, needs, if_pos rfl]
    show q.cmd.responseCommand.isResponse = true
    rw [same]
    exact table _ needs
  suffices ends : Ends Any (mem.access pkt) fun r => r.1.cmd.isResponse = true by
    exact ends.of_ok accessed
  rw [Memory.access, if_neg (by simp [supplied])]
  dsimp only
  split
  · have swapped : Ends Any (mem.swap pkt) fun r => r.1.cmd = pkt.cmd := by
      rw [Memory.swap]
      split
      · trivial
      · split
        · trivial
        · split
          · trivial
          · rfl
    rw [ends_bind]
    apply swapped.mono
    rintro ⟨q, mem'⟩ same
    exact turned q same
  · split
    · split
      · trivial
      · exact turned _ rfl
    · split
      · split
        · exact turned _ (writeOK_cmd pkt mem)
        · split
          · trivial
          · exact turned _ (writeOK_cmd pkt mem)
      · split
        · exact turned _ rfl
        · trivial

/-- What a request may change of the memory's responses: one more of them may wait. -/
inductive Joined (m m' : SimpleMemory) (now : Nat) : Prop
  | same (queue : m'.packetQueue = m.packetQueue) (event : m'.dequeueEvent = m.dequeueEvent)
      (retryResp : m'.retryResp = m.retryResp)
  | more {response : DeferredResponse} (queue : m'.packetQueue = m.packetQueue ++ [response])
      (event : m'.dequeueEvent =
        if !m.retryResp && m.dequeueEvent.isNone then some response.tick else m.dequeueEvent)
      (retryResp : m'.retryResp = m.retryResp) (ready : now ≤ response.tick)

theorem Phase.joined (phase : Phase m now) (joined : Joined m m' now) : Phase m' now := by
  cases joined with
  | same queue event retryResp =>
    cases phase with
    | idle empty unscheduled free =>
      exact .idle (queue.trans empty) (event.trans unscheduled) (retryResp.trans free)
    | armed queue' event' ahead ready free =>
      exact .armed (queue.trans queue') (event.trans event') ahead ready (retryResp.trans free)
    | waiting queue' unscheduled ready waits =>
      exact .waiting (queue.trans queue') (event.trans unscheduled) ready (retryResp.trans waits)
  | more queue event retryResp later =>
    cases phase with
    | idle empty unscheduled free =>
      rw [free, unscheduled] at event
      rw [empty] at queue
      exact .armed queue event later (Nat.le_refl _) (retryResp.trans free)
    | armed queue' event' ahead ready free =>
      rw [event'] at event
      rw [queue'] at queue
      exact .armed queue (by simpa using event) ahead ready (retryResp.trans free)
    | waiting queue' unscheduled ready waits =>
      rw [waits, unscheduled] at event
      rw [queue'] at queue
      exact .waiting queue (by simpa using event) ready (retryResp.trans waits)

theorem Sending.joined (sending : Sending m now response)
    (joined : Joined m m' now) : Sending m' now response := by
  obtain ⟨first, ready, alone⟩ := sending
  cases joined with
  | same queue event retryResp => exact ⟨queue ▸ first, ready, queue ▸ event ▸ alone⟩
  | more queue event retryResp later =>
    cases waiting : m.packetQueue with
    | nil =>
      rw [waiting] at first
      cases first
    | cons front rest =>
      rw [waiting] at first queue
      exact ⟨queue ▸ first, ready, by simp [queue]⟩

theorem defer_ok (m : SimpleMemory) (later : now ≤ response.tick) :
    ∃ m', m.defer now response = .ok m' ∧ Joined m m' now ∧
      m'.packetQueue = m.packetQueue ++ [response] ∧ m'.retryReq = m.retryReq ∧
      m'.isBusy = m.isBusy ∧ m'.releaseEvent = m.releaseEvent := by
  rw [defer]
  dsimp only
  by_cases idle : (!m.retryResp && m.dequeueEvent.isNone) = true
  · have unscheduled : m.dequeueEvent = none := by
      rw [Bool.and_eq_true, Option.isNone_iff_eq_none] at idle
      exact idle.2
    rw [if_pos idle, unscheduled, schedule_none later]
    refine ⟨_, rfl, .more rfl ?_ rfl later, rfl, rfl, rfl, rfl⟩
    rw [if_pos idle]
  · rw [if_neg idle]
    refine ⟨_, rfl, .more rfl ?_ rfl later, rfl, rfl, rfl, rfl⟩
    rw [if_neg idle]

/-- A request that finds the memory free makes it busy for a while, and may be answered later. -/
structure Performed (params : SimpleMemoryParams) (m m' : SimpleMemory) (now : Nat)
    (pkt : PacketPtr) : Prop where
  retryReq : m'.retryReq = m.retryReq
  busy : m'.isBusy = m'.releaseEvent.isSome
  ahead : ∀ when ∈ m'.releaseEvent, now ≤ when
  joined : Joined m m' now
  queue : m'.packetQueue.map (·.pkt.number) = m.packetQueue.map (·.pkt.number) ++
    if pkt.pkt.cmd.needsResponse then [pkt.number] else []
  due : ∀ q ∈ m'.packetQueue, q ∈ m.packetQueue ∨
    q.pkt.number = pkt.number ∧ now + params.latency ≤ q.tick

theorem perform_ends (free : m.isBusy = false) (unscheduled : m.releaseEvent = none)
    {pkt : PacketPtr} (random : Nat) (supplied : pkt.pkt.memInhibit = false) :
    Ends InAccess (m.perform params now random pkt) fun m' => Performed params m m' now pkt := by
  -- The flags of the bandwidth come first, and the response then joins the queue.
  have occupied : Ends InAccess (m.occupy params now pkt.pkt) fun m' =>
      m'.isBusy = m'.releaseEvent.isSome ∧ (∀ when ∈ m'.releaseEvent, now ≤ when) ∧
        ∃ releaseEvent isBusy, m' = { m with releaseEvent, isBusy } := by
    rw [occupy]
    split
    · rw [unscheduled, schedule_none (by omega)]
      refine ⟨rfl, ?_, _, _, rfl⟩
      rintro when ⟨⟩
      omega
    · refine ⟨by rw [free, unscheduled]; rfl, ?_, _, _, rfl⟩
      rw [unscheduled]
      rintro when ⟨⟩
  rw [perform, ends_bind]
  apply occupied.mono
  rintro _ ⟨busy, ahead, releaseEvent, isBusy, rfl⟩
  rw [ends_bind, recvAtomic]
  dsimp only
  cases accessed : m.memory.access pkt.pkt with
  | error fault => exact ⟨fault, rfl⟩
  | ok r =>
    obtain ⟨result, memory⟩ := r
    rw [ends_ok]
    dsimp only
    by_cases needs : pkt.pkt.cmd.needsResponse = true
    · have latency : params.latency ≤ getLatency params random := by
        rw [getLatency]
        omega
      rw [if_pos needs, if_pos (access_isResponse needs supplied accessed)]
      have later : now ≤ DeferredResponse.tick
          { tick := now + getLatency params random, pkt := { pkt with pkt := result } } :=
        Nat.le_add_right _ _
      obtain ⟨m', deferred, joined, queue, retryReq, busy', releaseEvent'⟩ :=
        defer_ok { m with releaseEvent, isBusy, memory } later
      rw [deferred]
      refine ⟨retryReq, ?_, ?_, ?_, ?_, ?_⟩
      · rw [busy', releaseEvent']
        exact busy
      · rw [releaseEvent']
        exact ahead
      · cases joined with
        | same queue event retryResp => exact .same queue event retryResp
        | more queue event retryResp later => exact .more queue event retryResp later
      · rw [queue, if_pos needs, List.map_append]
        rfl
      · intro q member
        rw [queue, List.mem_append, List.mem_singleton] at member
        cases member with
        | inl before => exact .inl before
        | inr here =>
          subst here
          exact .inr ⟨rfl, Nat.add_le_add_left latency now⟩
    · rw [if_neg needs]
      exact ⟨rfl, busy, ahead, .same rfl rfl rfl, by simp [needs], fun q member => .inl member⟩

/-- What a request leaves as it was. -/
structure Called (s t : State) : Prop where
  now : t.now = s.now
  owesRetry : t.owesRetry = s.owesRetry
  joined : Joined s.mem t.mem s.now

theorem Inv.number_lt (inv : Inv params s) {number : Nat}
    (member : number ∈ s.answered.map (·.number) ∨
      number ∈ s.mem.packetQueue.map (·.pkt.number)) : number < s.given := by
  have known : number ∈ s.owed.map (·.number) := by
    rw [inv.inOrder, List.mem_append]
    exact member
  obtain ⟨o, owed, rfl⟩ := List.mem_map.mp known
  exact inv.fresh o owed

/-- A request that is performed is owed its answer when it needs one. -/
theorem Inv.performed (inv : Inv params s) (idle : s.mem.isBusy = false) {c : Call}
    (performed : Performed params s.mem m' s.now { number := s.given, pkt := c.pkt }) :
    Inv params { s with
      mem := m'
      owed := if c.pkt.cmd.needsResponse then
        s.owed ++ [{ number := s.given, tick := s.now }] else s.owed
      given := s.given + 1
      awaits := s.awaits || !true } := by
  -- A memory that takes a request owes no retry.
  have free : s.mem.retryReq = false := by
    rw [Bool.eq_false_iff]
    intro waits
    rw [inv.waits waits] at idle
    cases idle
  have queue := performed.queue
  -- The request has a number that nothing had before.
  have next : ∀ o ∈ s.owed, o.number < s.given + 1 :=
    fun o member => Nat.lt_succ_of_lt (inv.fresh o member)
  have old : ∀ q ∈ s.mem.packetQueue, q.pkt.number < s.given :=
    fun q member => inv.number_lt (.inr (List.mem_map_of_mem member))
  refine { inv with
    busy := performed.busy, ahead := performed.ahead, waits := ?_, awaits := ?_, inOrder := ?_,
    once := ?_, fresh := ?_, due := ?_, notEarly := ?_ }
  · intro waits
    rw [performed.retryReq, free] at waits
    cases waits
  · show (s.awaits || !true) = m'.retryReq
    rw [performed.retryReq, inv.awaits]
    simp
  · dsimp only
    rw [queue]
    split
    · rw [List.map_append, inv.inOrder, List.append_assoc]
      rfl
    · rw [List.append_nil]
      exact inv.inOrder
  · dsimp only
    split
    · rw [List.map_append, List.nodup_append]
      refine ⟨inv.once, by simp, ?_⟩
      intro number member other here same
      obtain ⟨o, owed, rfl⟩ := List.mem_map.mp member
      have small := inv.fresh o owed
      simp only [List.map_cons, List.map_nil, List.mem_singleton] at here
      omega
    · exact inv.once
  · dsimp only
    split
    · intro o member
      rw [List.mem_append, List.mem_singleton] at member
      cases member with
      | inl before => exact next o before
      | inr here => rw [here]; exact Nat.lt_succ_self _
    · exact next
  · -- Numbers tell old requests from the new one.
    intro q queued o member same
    have cases' : o ∈ s.owed ∨ o.number = s.given ∧ o.tick = s.now := by
      dsimp only at member
      split at member
      · rw [List.mem_append, List.mem_singleton] at member
        exact member.imp id fun here => by rw [here]; exact ⟨rfl, rfl⟩
      · exact .inl member
    cases performed.due q queued with
    | inl before =>
      cases cases' with
      | inl owed => exact inv.due q before o owed same
      | inr here =>
        have small := old q before
        omega
    | inr new =>
      cases cases' with
      | inl owed =>
        have small := inv.fresh o owed
        have number : q.pkt.number = s.given := new.1
        omega
      | inr here =>
        rw [here.2]
        exact new.2
  · intro a answered o member same
    have small : a.number < s.given := inv.number_lt (.inl (List.mem_map_of_mem answered))
    dsimp only at member
    split at member
    · rw [List.mem_append, List.mem_singleton] at member
      cases member with
      | inl owed => exact inv.notEarly a answered o owed same
      | inr here =>
        rw [here] at same
        dsimp only at same
        omega
    · exact inv.notEarly a answered o member same

/-- A request is refused and remembered, or accepted and counted if it is to be answered. -/
theorem call_ends (inv : Inv params s) (c : Call) :
    Ends InAccess (call params s c) fun t => Inv params t ∧ Called s t := by
  have next : ∀ o ∈ s.owed, o.number < s.given + 1 :=
    fun o member => Nat.lt_succ_of_lt (inv.fresh o member)
  rw [call, ends_bind, recvTimingReq]
  by_cases supplied : c.pkt.memInhibit = true
  · have nothing : answers c.pkt = false := by
      rw [answers, supplied]
      rfl
    rw [if_pos supplied, ends_ok]
    dsimp only
    rw [nothing]
    refine ⟨{ inv with fresh := next, awaits := ?_ }, rfl, rfl, .same rfl rfl rfl⟩
    simpa using inv.awaits
  · rw [Bool.not_eq_true] at supplied
    rw [if_neg (by simp [supplied])]
    by_cases refused : s.mem.retryReq = true
    · rw [if_pos refused, ends_ok]
      refine ⟨{ inv with fresh := next, awaits := ?_ }, rfl, rfl, .same rfl rfl rfl⟩
      simpa using refused.symm
    · rw [if_neg refused]
      by_cases busy : s.mem.isBusy = true
      · rw [if_pos busy, ends_ok]
        refine ⟨{ inv with fresh := next, waits := fun _ => busy, awaits := ?_ }, rfl, rfl,
          .same rfl rfl rfl⟩
        simp
      · rw [Bool.not_eq_true] at busy
        have unscheduled : s.mem.releaseEvent = none := by
          have agrees := inv.busy
          rw [busy] at agrees
          simpa using agrees.symm
        have counts : (true && answers c.pkt) = c.pkt.cmd.needsResponse := by
          rw [answers, supplied]
          rfl
        rw [if_neg (by simp [busy]), ends_bind]
        apply (perform_ends busy unscheduled c.random supplied).mono
        intro m' performed
        rw [ends_pure]
        dsimp only
        rw [counts]
        exact ⟨inv.performed busy performed, rfl, rfl, performed.joined⟩

theorem Between.calls (between : Between params s) (during : List Call) :
    Ends InAccess (calls params s during) (Between params) := by
  apply ends_foldlM _ during between
  intro s c between
  apply (call_ends between.toInv c).mono
  intro t ⟨inv, called⟩
  refine ⟨inv, ?_, ?_⟩
  · rw [called.now]
    exact between.phase.joined called.joined
  · rw [called.owesRetry, between.owes]
    cases called.joined with
    | same queue event retryResp => exact retryResp.symm
    | more queue event retryResp later => exact retryResp.symm

theorem Sending.calls (inv : Inv params s) (sending : Sending s.mem s.now response)
    (owes : s.owesRetry = false) (during : List Call) :
    Ends InAccess (calls params s during) fun t =>
      Inv params t ∧ Sending t.mem t.now response ∧ t.owesRetry = false := by
  apply ends_foldlM _ during ⟨inv, sending, owes⟩
  intro s c ⟨inv, sending, owes⟩
  apply (call_ends inv c).mono
  intro t ⟨inv', called⟩
  refine ⟨inv', ?_, called.owesRetry.trans owes⟩
  rw [called.now]
  exact sending.joined called.joined

/-- A release sends the retry that a refused request waits for. -/
theorem Between.release (between : Between params s) (due : s.mem.releaseEvent = some s.now)
    (during : List Call) : Ends InAccess (release params s during) (Between params) := by
  have busy : s.mem.isBusy = true := by
    rw [between.busy, due]
    rfl
  have awaits := between.awaits
  rw [SimpleMemoryRun.release, SimpleMemory.release, if_pos busy, ends_bind, ends_ok]
  dsimp only
  split
  · apply Between.calls
    refine { between with busy := rfl, ahead := ?_, waits := ?_, awaits := rfl, phase := ?_ }
    · rintro when ⟨⟩
    · intro waits
      cases waits
    · cases between.phase with
      | idle empty unscheduled free => exact .idle empty unscheduled free
      | armed queue event ahead ready free => exact .armed queue event ahead ready free
      | waiting queue unscheduled ready waits => exact .waiting queue unscheduled ready waits
  · rename_i unasked
    rw [Bool.not_eq_true] at unasked
    rw [ends_pure]
    refine { between with
      busy := rfl, ahead := ?_, waits := ?_, awaits := ?_, noneMissed := ?_, phase := ?_ }
    · rintro when ⟨⟩
    · intro waits
      cases waits
    · exact awaits.trans unasked
    · show (s.missed || s.awaits) = false
      rw [between.noneMissed, awaits, unasked]
      rfl
    · cases between.phase with
      | idle empty unscheduled free => exact .idle empty unscheduled free
      | armed queue event ahead ready free => exact .armed queue event ahead ready free
      | waiting queue unscheduled ready waits => exact .waiting queue unscheduled ready waits

/-- The first response is sent, and stays at the front until the peer accepts it. -/
theorem send_ends (inv : Inv params s) (sending : Sending s.mem s.now response)
    (unscheduled : s.mem.dequeueEvent = none) (accepts : Option (List Call)) :
    Ends InAccess (send params s response accepts) (Between params) := by
  cases accepts with
  | none =>
    cases waiting : s.mem.packetQueue with
    | nil =>
      have first := sending.first
      rw [waiting] at first
      cases first
    | cons front rest =>
      have first := sending.first
      rw [waiting] at first
      cases first
      exact ⟨{ inv with }, .waiting waiting unscheduled sending.ready rfl, rfl⟩
  | some during =>
    rw [send, ends_bind]
    apply (Sending.calls (s := { s with owesRetry := false }) { inv with } sending rfl
      during).mono
    intro t ⟨inv, sending, owes⟩
    obtain ⟨first, ready, alone⟩ := sending
    cases queue : t.mem.packetQueue with
    | nil =>
      rw [queue] at first
      cases first
    | cons front rest =>
      rw [queue] at first alone
      cases first
      have inOrder := inv.inOrder
      have due := inv.due
      rw [queue] at inOrder due
      -- The answer moves from the queue to those that the peer has.
      have notEarly : ∀ a ∈ t.answered ++ [Answered.mk response.pkt.number t.now],
          ∀ o ∈ t.owed, o.number = a.number → o.tick + params.latency ≤ a.tick := by
        intro a answered o owed same
        rw [List.mem_append, List.mem_singleton] at answered
        cases answered with
        | inl before => exact inv.notEarly a before o owed same
        | inr here =>
          rw [here] at same ⊢
          exact Nat.le_trans (due response (by simp) o owed same) ready
      have inOrder' : t.owed.map (·.number) =
          (t.answered ++ [Answered.mk response.pkt.number t.now]).map (·.number) ++
            rest.map (·.pkt.number) := by
        rw [inOrder]
        simp
      rw [SimpleMemory.sent, if_pos rfl, queue]
      cases rest with
      | nil =>
        exact ⟨{ inv with inOrder := inOrder', due := by simp, notEarly := notEarly },
          .idle rfl (alone rfl) rfl, owes⟩
      | cons next more =>
        have future : ¬max next.tick t.now < t.now := by omega
        simp only [List.tail_cons, reschedule, if_neg future]
        exact ⟨{ inv with
            inOrder := inOrder', notEarly := notEarly
            due := fun q member => due q (List.mem_cons_of_mem _ member) },
          .armed rfl rfl (Nat.le_max_right _ _) (Nat.le_max_left _ _) rfl, owes⟩

theorem Between.advance (between : Between params s) {tick : Nat} (forward : s.now ≤ tick)
    (release : s.mem.releaseEvent.all fun when => decide (tick ≤ when))
    (dequeue : s.mem.dequeueEvent.all fun when => decide (tick ≤ when)) :
    Between params { s with now := tick } := by
  refine { between with ahead := ?_, phase := ?_ }
  · intro when scheduled
    rw [Option.mem_def] at scheduled
    rw [scheduled] at release
    simpa using release
  · cases between.phase with
    | idle empty unscheduled free => exact .idle empty unscheduled free
    | armed queue event ahead ready free =>
      rw [event] at dequeue
      exact .armed queue event (by simpa using dequeue) ready free
    | waiting queue unscheduled ready waits =>
      exact .waiting queue unscheduled (Nat.le_trans ready forward) waits

/-- An operation keeps what holds between operations, unless an access fails. -/
theorem Between.step (between : Between params s) {op : Op}
    {r : Except SimpleMemoryFault State} (stepped : step params (.ok s) op = some r) :
    Ends InAccess r (Between params) := by
  cases op with
  | advance tick =>
    rw [SimpleMemoryRun.step] at stepped
    split at stepped
    case isFalse => cases stepped
    case isTrue allowed =>
      cases stepped
      exact between.advance allowed.1 allowed.2.1 allowed.2.2
  | request c =>
    cases stepped
    have called := between.calls [c]
    rw [SimpleMemoryRun.calls, List.foldlM_cons, ends_bind] at called
    exact called.mono fun t between => between
  | release during =>
    rw [SimpleMemoryRun.step] at stepped
    split at stepped
    case isFalse => cases stepped
    case isTrue due =>
      cases stepped
      exact between.release due during
  | dequeue accepts =>
    rw [SimpleMemoryRun.step] at stepped
    split at stepped
    case isFalse => cases stepped
    case isTrue due =>
      cases stepped
      cases between.phase with
      | idle empty unscheduled free =>
        rw [unscheduled] at due
        cases due
      | waiting queue unscheduled ready waits =>
        rw [unscheduled] at due
        cases due
      | armed queue event ahead ready free =>
        rw [event] at due
        cases due
        rw [ends_bind, front_ok (m := (dequeueFired s).mem) queue, ends_ok]
        apply send_ends (s := dequeueFired s) { between with } _ rfl
        exact ⟨congrArg List.head? queue, ready, fun _ => rfl⟩
  | retry accepts =>
    rw [SimpleMemoryRun.step] at stepped
    split at stepped
    case isFalse => cases stepped
    case isTrue owes =>
      cases stepped
      rw [between.owes] at owes
      rw [ends_bind, recvRetry, if_pos owes]
      cases between.phase with
      | idle empty unscheduled free =>
        rw [free] at owes
        cases owes
      | armed queue event ahead ready free =>
        rw [free] at owes
        cases owes
      | waiting queue unscheduled ready waits =>
        rw [front_ok queue, ends_ok]
        apply send_ends between.toInv _ unscheduled
        exact ⟨congrArg List.head? queue, ready, fun _ => unscheduled⟩
  | drain =>
    cases stepped
    rw [ends_ok, SimpleMemory.drain]
    split
    · exact between
    · refine { between with phase := ?_ }
      cases between.phase with
      | idle empty unscheduled free => exact .idle empty unscheduled free
      | armed queue event ahead ready free => exact .armed queue event ahead ready free
      | waiting queue unscheduled ready waits => exact .waiting queue unscheduled ready waits

theorem Between.served (between : Between params s) : Served params s := by
  refine ⟨between.inOrder, between.once, between.notEarly, ?_, ?_, between.busy, ?_,
    between.noneMissed⟩
  · intro filled
    cases between.phase with
    | idle empty => exact absurd empty filled
    | armed queue event => exact .inl (by rw [event]; rfl)
    | waiting queue unscheduled ready waits => exact .inr waits
  · intro ⟨event, waits⟩
    cases between.phase with
    | idle empty unscheduled =>
      rw [unscheduled] at event
      cases event
    | armed queue event' ahead ready free =>
      rw [free] at waits
      cases waits
    | waiting queue unscheduled =>
      rw [unscheduled] at event
      cases event
  · intro awaits
    rw [between.awaits] at awaits
    rw [← between.busy]
    exact ⟨awaits, between.waits awaits⟩

/-- A memory that has had no request yet. -/
def start (memory : Memory) (now : Nat) : State where
  mem := { memory }
  now

/--
Whatever the requests, the latencies, the refusals and the retries, the memory answers in order
and after its latency, is never left with an answer that nothing will send, and sends a retry at
the first release after a refusal; no assertion fails but those of the access to its bytes.
-/
theorem memory_answers (params : SimpleMemoryParams) (memory : Memory) (now : Nat)
    (ops : List Op) :
    Machine.Always (step params) (Good params) (.ok (start memory now)) ops := by
  apply Machine.always_of_invariant (I := fun r => Ends InAccess r (Between params))
  · intro r ends
    cases r with
    | error fault => exact ends
    | ok s => exact ends.served
  · intro r op t ends stepped
    cases r with
    | error fault => cases stepped
    | ok s => exact Between.step ends stepped
  · refine ⟨⟨rfl, ?_, ?_, rfl, rfl, rfl, List.nodup_nil, ?_, ?_, ?_⟩, .idle rfl rfl rfl, rfl⟩
    all_goals simp [start]

end SimpleMemoryRun

end GemDroid
