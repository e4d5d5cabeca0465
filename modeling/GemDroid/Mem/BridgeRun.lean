import Mathlib.Data.List.Perm.Basic
import GemDroid.Lib.Fifo
import GemDroid.Lib.Outcome
import GemDroid.Lib.Run
import GemDroid.Mem.Bridge

/-! The bridge relays requests and responses in order and never forgets a stalled request. -/

namespace GemDroid

open Outcome Fifo

namespace BridgePacket

variable {Body : Type}

/-- A request as it leaves the bridge. -/
def forwarded (pkt : BridgePacket Body) : BridgePacket Body :=
  { pkt with
    busFirstWordDelay := 0
    busLastWordDelay := 0
    senderState :=
      if pkt.expectsResponse then .requestState pkt.src :: pkt.senderState else pkt.senderState }

/-- A response as it leaves the bridge, for the port that its request came from. -/
def returned (request response : BridgePacket Body) : BridgePacket Body :=
  { response with
    busFirstWordDelay := 0
    busLastWordDelay := 0
    senderState := response.senderState.tail
    dest := some request.src }

end BridgePacket

namespace BridgeRun

variable {Body : Type}

/-- A packet that left: did a requester wait, was there room for it, and was it told to retry? -/
structure Leaving where
  waiting : Bool
  space : Bool
  retried : Bool

/-- The bridge, the clock, who waits for a retry, and what came and left. -/
structure State (Body : Type) where
  bridge : Bridge Body
  now : Nat := 0
  /-- The requester was refused and not yet told to retry. -/
  refused : Bool := false
  /-- The peers that refused a packet owe a retry for it. -/
  reqRetryOwed : Bool := false
  respRetryOwed : Bool := false
  accepted : List (BridgePacket Body) := []
  sentReqs : List (BridgePacket Body) := []
  /-- The requests that left and are owed a response. -/
  owed : List (BridgePacket Body) := []
  /-- The responses that came, each with its request. -/
  received : List (BridgePacket Body × BridgePacket Body) := []
  sentResps : List (BridgePacket Body) := []
  leavings : List Leaving := []

/-- What the world asks of the bridge, at any time or while the bridge calls a peer. -/
inductive Call (Body : Type) where
  | request (pkt : BridgePacket Body)
  /-- One of the requests that are owed a response gets it, with whatever source and destination. -/
  | response (i src : Nat) (dest : Option Nat)

namespace State

/-- A refused requester asks for nothing until it is told to retry, and no response is made up. -/
def call (s : State Body) : Call Body → Except BridgeFault (State Body)
  | .request pkt =>
    if s.refused then .error .notPossible
    else do
      let (bridge, accepts) ← s.bridge.recvTimingReq s.now pkt
      if accepts then .ok { s with bridge, accepted := s.accepted ++ [pkt] }
      else .ok { s with bridge, refused := true }
  | .response i src dest =>
    match s.owed[i]? with
    | none => .error .notPossible
    | some request => do
      let response := { request with src, dest }
      let bridge ← s.bridge.recvTimingResp s.now response
      .ok { s with
        bridge, owed := s.owed.eraseIdx i, received := s.received ++ [(request, response)] }

/-- Several calls, one after the other. -/
def calls (s : State Body) (cs : List (Call Body)) : Except BridgeFault (State Body) :=
  cs.foldlM call s

/-- The requester is told to retry, and may call at once. -/
def sendRetry (s : State Body) (retries : Bool) (after : List (Call Body)) :
    Except BridgeFault (State Body) :=
  if retries then { s with refused := false }.calls after else .ok s

/-- A request is sent, calls come in meanwhile, and the peer accepts or refuses it. -/
def sendReq (s : State Body) (accepts : Bool) (during after : List (Call Body)) :
    Except BridgeFault (State Body) := do
  let pkt ← s.bridge.masterPort.reqToSend s.now
  let s ← s.calls during
  if accepts then
    let (bridge, retries) ← s.bridge.reqSent s.now
    let leaving : Leaving := { waiting := s.refused, space := true, retried := retries }
    let owed := if pkt.expectsResponse then s.owed ++ [pkt] else s.owed
    { s with
      bridge, owed, sentReqs := s.sentReqs ++ [pkt]
      leavings := s.leavings ++ [leaving] }.sendRetry retries after
  else .ok { s with reqRetryOwed := true }

/-- A response is sent, calls come in meanwhile, and the peer accepts or refuses it. -/
def sendResp (s : State Body) (accepts : Bool) (during after : List (Call Body)) :
    Except BridgeFault (State Body) := do
  let pkt ← s.bridge.slavePort.respToSend s.now
  let s ← s.calls during
  if accepts then
    let space := !s.bridge.masterPort.reqQueueFull
    let (bridge, retries) ← s.bridge.respSent s.now
    let leaving : Leaving := { waiting := s.refused, space, retried := retries }
    { s with
      bridge, sentResps := s.sentResps ++ [pkt]
      leavings := s.leavings ++ [leaving] }.sendRetry retries after
  else .ok { s with respRetryOwed := true }

/-- The send event of the request queue is taken off the event queue. -/
def reqEventFired (s : State Body) : State Body :=
  { s with bridge := { s.bridge with masterPort :=
    { s.bridge.masterPort with sendEvent := none } } }

/-- The send event of the response queue is taken off the event queue. -/
def respEventFired (s : State Body) : State Body :=
  { s with bridge := { s.bridge with slavePort := { s.bridge.slavePort with sendEvent := none } } }

end State

/-- What happens to the bridge. -/
inductive Op (Body : Type) where
  | advance (tick : Nat)
  | call (c : Call Body)
  | reqEvent (accepts : Bool) (during after : List (Call Body))
  | reqRetry (accepts : Bool) (during after : List (Call Body))
  | respEvent (accepts : Bool) (during after : List (Call Body))
  | respRetry (accepts : Bool) (during after : List (Call Body))

/-- One operation: an event takes place at its tick, and a peer retries once for each refusal. -/
def perform (s : State Body) : Op Body → Except BridgeFault (State Body)
  | .advance tick =>
    if s.now ≤ tick ∧ (s.bridge.masterPort.sendEvent.all fun when => decide (tick ≤ when)) ∧
        (s.bridge.slavePort.sendEvent.all fun when => decide (tick ≤ when)) then
      .ok { s with now := tick }
    else .error .notPossible
  | .call c => s.call c
  | .reqEvent accepts during after =>
    if s.bridge.masterPort.sendEvent = some s.now then s.reqEventFired.sendReq accepts during after
    else .error .notPossible
  | .reqRetry accepts during after =>
    if s.reqRetryOwed then { s with reqRetryOwed := false }.sendReq accepts during after
    else .error .notPossible
  | .respEvent accepts during after =>
    if s.bridge.slavePort.sendEvent = some s.now then
      s.respEventFired.sendResp accepts during after
    else .error .notPossible
  | .respRetry accepts during after =>
    if s.respRetryOwed then { s with respRetryOwed := false }.sendResp accepts during after
    else .error .notPossible

/-- An operation that the world cannot do is not taken. -/
def step : Except BridgeFault (State Body) → Op Body →
    Option (Except BridgeFault (State Body))
  | .error _, _ => none
  | .ok s, op =>
    match perform s op with
    | .error .notPossible => none
    | result => some result

/--
Requests leave as they were accepted and responses as they came, each once; a response goes to
where its request came from; the reservations are those of the requests that are owed a response;
and what waits is sent or retried in time.
-/
structure Relayed (s : State Body) : Prop where
  requests : Conserves (s.accepted.map (·.forwarded)) s.sentReqs
    (s.bridge.masterPort.transmitList.map (·.pkt))
  responses : Conserves (s.received.map fun r => r.1.returned r.2) s.sentResps
    (s.bridge.slavePort.transmitList.map (·.pkt))
  answered : (s.owed ++ s.received.map (·.1)).Perm (s.sentReqs.filter (·.expectsResponse))
  reserved : s.bridge.slavePort.outstandingResponses + s.sentResps.length =
    s.accepted.countP (·.expectsResponse)
  limit : s.bridge.slavePort.outstandingResponses ≤ s.bridge.slavePort.respQueueLimit
  reqAwake : s.bridge.masterPort.transmitList ≠ [] →
    s.bridge.masterPort.sendEvent.isSome ∨ s.reqRetryOwed
  respAwake : s.bridge.slavePort.transmitList ≠ [] →
    s.bridge.slavePort.sendEvent.isSome ∨ s.respRetryOwed
  retried : ∀ l ∈ s.leavings, l.waiting → l.space → l.retried
  stalled : s.refused →
    s.bridge.masterPort.reqQueueFull ∨ s.bridge.slavePort.respQueueFull

/-- No assertion failed, and the bridge relays as it should. -/
def Good : Except BridgeFault (State Body) → Prop
  | .error _ => False
  | .ok s => Relayed s

/--
A queue of packets and what will send the first of them: nothing when there is none, its event,
a retry that the peer owes, or a call of the peer that is going on.
-/
inductive Awake (list : List (BridgeDeferred Body)) (event : Option Nat) (owes : Bool)
    (now : Nat) : (calling : Bool) → Prop
  | idle (empty : list = []) (unscheduled : event = none) (settled : owes = false) :
      Awake list event owes now false
  | armed {front : BridgeDeferred Body} {rest : List (BridgeDeferred Body)} {when : Nat}
      (first : list = front :: rest) (scheduled : event = some when) (ahead : now ≤ when)
      (ready : front.tick ≤ when) (settled : owes = false) : Awake list event owes now false
  | waiting {front : BridgeDeferred Body} {rest : List (BridgeDeferred Body)}
      (first : list = front :: rest) (unscheduled : event = none) (ready : front.tick ≤ now)
      (owed : owes = true) : Awake list event owes now false
  | calling {front : BridgeDeferred Body} {rest : List (BridgeDeferred Body)}
      (first : list = front :: rest) (unscheduled : event = none) (ready : front.tick ≤ now)
      (settled : owes = false) : Awake list event owes now true

namespace Awake

variable {list : List (BridgeDeferred Body)} {event : Option Nat} {owes calling : Bool}
  {now : Nat}

theorem push (awake : Awake list event owes now calling) {dp : BridgeDeferred Body}
    (future : now ≤ dp.tick) :
    Awake (list ++ [dp]) (if list.isEmpty then some dp.tick else event) owes now calling := by
  cases awake with
  | idle empty unscheduled settled =>
    subst empty
    exact .armed rfl rfl future (Nat.le_refl _) settled
  | armed first scheduled ahead ready settled =>
    subst first
    exact .armed rfl scheduled ahead ready settled
  | waiting first unscheduled ready owed =>
    subst first
    exact .waiting rfl unscheduled ready owed
  | calling first unscheduled ready settled =>
    subst first
    exact .calling rfl unscheduled ready settled

theorem schedule (awake : Awake list event owes now calling) {when : Nat} (future : now ≤ when) :
    Bridge.scheduleHead list event now when =
      .ok (if list.isEmpty then some when else event) := by
  cases awake with
  | idle empty unscheduled =>
    subst empty unscheduled
    simp [Bridge.scheduleHead, Bridge.schedule, Nat.not_lt.mpr future]
  | armed first =>
    subst first
    rfl
  | waiting first =>
    subst first
    rfl
  | calling first =>
    subst first
    rfl

theorem advance (awake : Awake list event owes now false) {tick : Nat} (forward : now ≤ tick)
    (within : event.all fun when => decide (tick ≤ when)) : Awake list event owes tick false := by
  cases awake with
  | idle empty unscheduled settled => exact .idle empty unscheduled settled
  | armed first scheduled ahead ready settled =>
    rw [scheduled, Option.all_some, decide_eq_true_eq] at within
    exact .armed first scheduled within ready settled
  | waiting first unscheduled ready owed =>
    exact .waiting first unscheduled (Nat.le_trans ready forward) owed

theorem woken (awake : Awake list event owes now false) (some : list ≠ []) :
    event.isSome ∨ owes := by
  cases awake with
  | idle empty => exact absurd empty some
  | armed first scheduled => exact .inl (by simp [scheduled])
  | waiting first unscheduled ready owed => exact .inr owed

theorem fired (awake : Awake list event owes now false) (fires : event = some now) :
    Awake list none owes now true := by
  cases awake with
  | idle empty unscheduled => simp [unscheduled] at fires
  | armed first scheduled ahead ready settled =>
    rw [scheduled, Option.some.injEq] at fires
    exact .calling first rfl (fires ▸ ready) settled
  | waiting first unscheduled => simp [unscheduled] at fires

theorem retry (awake : Awake list event owes now false) (due : owes = true) :
    Awake list event false now true := by
  cases awake with
  | idle empty unscheduled settled => simp [settled] at due
  | armed first scheduled ahead ready settled => simp [settled] at due
  | waiting first unscheduled ready => exact .calling first unscheduled ready rfl

theorem refuse (awake : Awake list event owes now true) : Awake list event true now false := by
  cases awake with
  | calling first unscheduled ready => exact .waiting first unscheduled ready rfl

theorem accept (awake : Awake list event owes now true) (b : Bridge Body) :
    ∃ front next, list = front :: list.tail ∧
      b.scheduleNext now event list.tail = .ok next ∧ Awake list.tail next owes now false := by
  cases awake with
  | @calling front rest first unscheduled ready settled =>
    subst first unscheduled
    cases rest with
    | nil => exact ⟨front, none, rfl, rfl, .idle rfl rfl settled⟩
    | cons second rest =>
      have later := b.clock.not_past now 0
      have future : now ≤ max second.tick (b.clock.clockEdge now 0) :=
        Nat.le_trans later (Nat.le_max_right _ _)
      refine ⟨front, _, rfl, ?_, .armed rfl rfl future (Nat.le_max_left _ _) settled⟩
      show Bridge.schedule none now _ = _
      rw [Bridge.schedule, if_neg (Nat.not_lt.mpr future)]
      rfl

end Awake

/-- What holds of the bridge, while it calls the peers of its ports or not. -/
structure Inv (req resp : Bool) (s : State Body) : Prop where
  requests : Conserves (s.accepted.map (·.forwarded)) s.sentReqs
    (s.bridge.masterPort.transmitList.map (·.pkt))
  responses : Conserves (s.received.map fun r => r.1.returned r.2) s.sentResps
    (s.bridge.slavePort.transmitList.map (·.pkt))
  answered : (s.owed ++ s.received.map (·.1)).Perm (s.sentReqs.filter (·.expectsResponse))
  reserved : s.bridge.slavePort.outstandingResponses =
    (s.bridge.masterPort.transmitList.map (·.pkt)).countP (·.expectsResponse) + s.owed.length +
      s.bridge.slavePort.transmitList.length
  limit : s.bridge.slavePort.outstandingResponses ≤ s.bridge.slavePort.respQueueLimit
  reqAwake : Awake s.bridge.masterPort.transmitList s.bridge.masterPort.sendEvent s.reqRetryOwed
    s.now req
  respAwake : Awake s.bridge.slavePort.transmitList s.bridge.slavePort.sendEvent s.respRetryOwed
    s.now resp
  refused : s.bridge.slavePort.retryReq = s.refused
  stalled : s.refused →
    s.bridge.masterPort.reqQueueFull ∨ s.bridge.slavePort.respQueueFull
  retried : ∀ l ∈ s.leavings, l.waiting → l.space → l.retried

/-- Calls leave the clock alone, and what they queue goes behind what is there. -/
structure Extends (s t : State Body) : Prop where
  now : t.now = s.now
  requests : s.bridge.masterPort.transmitList <+: t.bridge.masterPort.transmitList
  responses : s.bridge.slavePort.transmitList <+: t.bridge.slavePort.transmitList

/-- The world did something impossible, which is the only way for the bridge to stop. -/
def Impossible (fault : BridgeFault) : Prop :=
  fault = .notPossible

namespace Extends

theorem refl (s : State Body) : Extends s s :=
  ⟨rfl, List.prefix_refl _, List.prefix_refl _⟩

theorem trans {s t u : State Body} (first : Extends s t) (second : Extends t u) : Extends s u :=
  ⟨second.now.trans first.now, first.requests.trans second.requests,
    first.responses.trans second.responses⟩

end Extends

namespace Inv

variable {req resp retries : Bool} {s : State Body}

theorem relayed (inv : Inv false false s) : Relayed s := by
  refine ⟨inv.requests, inv.responses, inv.answered, ?_, inv.limit, inv.reqAwake.woken,
    inv.respAwake.woken, inv.retried, inv.stalled⟩
  -- The requests that were accepted wait, are owed a response, or had one that waits or left.
  have accepted := congrArg (List.countP (·.expectsResponse)) inv.requests
  have came := inv.responses.length
  have open' := inv.answered.length_eq
  have same : (s.accepted.map (·.forwarded)).countP (·.expectsResponse) =
      s.accepted.countP (·.expectsResponse) := by
    rw [List.countP_map]
    rfl
  rw [same, List.countP_append] at accepted
  rw [List.length_append, List.length_map, ← List.countP_eq_length_filter] at open'
  rw [List.length_map, List.length_map] at came
  rw [inv.reserved]
  omega

theorem remembers (inv : Inv req resp s) {request : BridgePacket Body}
    (owed : request ∈ s.owed) :
    ∃ rest, request.senderState = .requestState request.src :: rest := by
  have sent : request ∈ s.sentReqs.filter (·.expectsResponse) :=
    inv.answered.mem_iff.mp (List.mem_append_left _ owed)
  obtain ⟨left, expects⟩ := List.mem_filter.mp sent
  have known : request ∈ s.accepted.map (·.forwarded) := by
    rw [inv.requests]
    exact List.mem_append_left _ left
  obtain ⟨pkt, _, same⟩ := List.mem_map.mp known
  subst same
  have asked : pkt.expectsResponse = true := expects
  refine ⟨pkt.senderState, ?_⟩
  simp [BridgePacket.forwarded, asked]

theorem schedTimingReq (inv : Inv req resp s) (pkt : BridgePacket Body)
    (space : s.bridge.masterPort.reqQueueFull = false) {when : Nat} (future : s.now ≤ when) :
    s.bridge.masterPort.schedTimingReq s.now
        { pkt with busFirstWordDelay := 0, busLastWordDelay := 0 } when =
      .ok { s.bridge.masterPort with
        sendEvent :=
          if s.bridge.masterPort.transmitList.isEmpty then some when
          else s.bridge.masterPort.sendEvent
        transmitList :=
          s.bridge.masterPort.transmitList ++ [{ pkt := pkt.forwarded, tick := when }] } := by
  have room : s.bridge.masterPort.transmitList.length ≠ s.bridge.masterPort.reqQueueLimit := by
    simpa [BridgeMasterPort.reqQueueFull] using space
  unfold BridgeMasterPort.schedTimingReq
  dsimp only
  rw [inv.reqAwake.schedule future]
  simp only [Bind.bind, Except.bind, if_neg room]
  -- Both tests of whether a response is expected agree.
  have same : (!pkt.memInhibitAsserted && pkt.needsResponse) = pkt.expectsResponse :=
    Bool.and_comm _ _
  congr 4
  rw [same, BridgePacket.forwarded]
  split <;> rfl

/-- A request that comes is accepted if there is room for it and its response. -/
theorem request (inv : Inv req resp s) (pkt : BridgePacket Body) :
    Ends Impossible (s.call (.request pkt)) fun t => Inv req resp t ∧ Extends s t := by
  rw [State.call]
  split
  case isTrue waits => exact rfl
  case isFalse ready =>
    have calm : s.refused = false := by simpa using ready
    have free : s.bridge.slavePort.retryReq = false := inv.refused.trans calm
    -- A request is stalled only while one of the queues is full.
    have stall (full : s.bridge.masterPort.reqQueueFull ∨ s.bridge.slavePort.respQueueFull) :
        Inv req resp { s with
          bridge := { s.bridge with slavePort := { s.bridge.slavePort with retryReq := true } }
          refused := true } :=
      { inv with refused := rfl, stalled := fun _ => full }
    unfold Bridge.recvTimingReq
    dsimp only
    rw [if_neg (by simp [free])]
    split
    case isTrue full => exact ⟨stall (.inl full), rfl, List.prefix_refl _, List.prefix_refl _⟩
    case isFalse space =>
      split
      case isTrue full =>
        rw [Bool.and_eq_true] at full
        exact ⟨stall (.inr full.2), rfl, List.prefix_refl _, List.prefix_refl _⟩
      case isFalse reservable =>
        have future := s.bridge.clock.not_past s.now s.bridge.delay
        rw [inv.schedTimingReq pkt (Bool.eq_false_iff.mpr space) future]
        refine ⟨⟨?_, inv.responses, inv.answered, ?_, ?_, inv.reqAwake.push future, inv.respAwake,
          inv.refused, fun waits => absurd waits ready, inv.retried⟩, rfl, List.prefix_append _ _,
          List.prefix_refl _⟩
        · have more := inv.requests.push pkt.forwarded
          simpa using more
        · have before := inv.reserved
          have expects : pkt.forwarded.expectsResponse = pkt.expectsResponse := rfl
          simp only [List.map_append, List.map_cons, List.map_nil, List.countP_append,
            List.countP_singleton, expects]
          split <;> omega
        · have before := inv.limit
          dsimp only
          split
          case isTrue expects =>
            have open' : s.bridge.slavePort.outstandingResponses ≠
                s.bridge.slavePort.respQueueLimit := by
              simpa [expects, BridgeSlavePort.respQueueFull] using reservable
            omega
          case isFalse => exact before

theorem response (inv : Inv req resp s) (i src : Nat) (dest : Option Nat) :
    Ends Impossible (s.call (.response i src dest)) fun t => Inv req resp t ∧ Extends s t := by
  rw [State.call]
  cases owed : s.owed[i]? with
  | none => exact rfl
  | some request =>
    obtain ⟨below, found⟩ := List.getElem?_eq_some_iff.mp owed
    obtain ⟨rest, remembered⟩ := inv.remembers (List.mem_of_getElem? owed)
    have future := s.bridge.clock.not_past s.now s.bridge.delay
    dsimp only
    unfold Bridge.recvTimingResp BridgeSlavePort.schedTimingResp
    simp only [remembered]
    rw [inv.respAwake.schedule future]
    refine ⟨⟨inv.requests, ?_, ?_, ?_, inv.limit, inv.reqAwake, inv.respAwake.push future,
      inv.refused, inv.stalled, inv.retried⟩, rfl, List.prefix_refl _, List.prefix_append _ _⟩
    · have more := inv.responses.push (request.returned { request with src, dest })
      simpa [BridgePacket.returned, remembered] using more
    · -- The request moves from those that are owed a response to those that had one.
      have moved := List.getElem_cons_eraseIdx_perm below
      rw [found] at moved
      have before := inv.answered
      dsimp only
      rw [List.map_append, ← List.append_assoc]
      apply (List.perm_append_singleton request _).trans
      exact (moved.append_right _).trans before
    · have fewer := List.length_eraseIdx_of_lt below
      have before := inv.reserved
      dsimp only
      rw [List.length_append, List.length_singleton, fewer]
      omega

theorem calls (inv : Inv req resp s) (cs : List (Call Body)) :
    Ends Impossible (s.calls cs) fun t => Inv req resp t ∧ Extends s t := by
  apply ends_foldlM (I := fun t => Inv req resp t ∧ Extends s t)
  · rintro t c ⟨before, extended⟩
    have called : Ends Impossible (t.call c) fun u => Inv req resp u ∧ Extends t u := by
      cases c with
      | request pkt => exact before.request pkt
      | response i src dest => exact before.response i src dest
    exact called.mono fun u after => ⟨after.1, extended.trans after.2⟩
  · exact ⟨inv, .refl s⟩

theorem sendRetry (inv : Inv req resp { s with refused := s.refused && !retries })
    (after : List (Call Body)) :
    Ends Impossible (s.sendRetry retries after) (Inv req resp) := by
  unfold State.sendRetry
  cases retries with
  | false =>
    have same : (s.refused && !false) = s.refused := by simp
    rw [same] at inv
    exact inv
  | true =>
    have told : (s.refused && !true) = false := by simp
    rw [told] at inv
    exact (inv.calls after).mono fun t both => both.1

theorem reqSent_ok {b : Bridge Body} {now : Nat} {next : Option Nat}
    (scheduled : b.scheduleNext now b.masterPort.sendEvent b.masterPort.transmitList.tail =
      .ok next) :
    b.reqSent now = .ok
      ({ b with
          masterPort := { b.masterPort with
            transmitList := b.masterPort.transmitList.tail, sendEvent := next }
          slavePort := { b.slavePort with retryReq := false } }, b.slavePort.retryReq) := by
  unfold Bridge.reqSent
  dsimp only
  rw [scheduled]
  cases stalled : b.slavePort.retryReq with
  | true => simp [Bind.bind, Except.bind]
  | false =>
    have same : { b.slavePort with retryReq := false } = b.slavePort := by
      rw [← stalled]
    rw [same]
    simp [Bind.bind, Except.bind]

/-- A request that is sent leaves or is retried later. -/
theorem sendReq (inv : Inv true resp s) (accepts : Bool) (during after : List (Call Body)) :
    Ends Impossible (s.sendReq accepts during after) (Inv false resp) := by
  obtain ⟨front, rest, first, ready⟩ : ∃ front rest,
      s.bridge.masterPort.transmitList = front :: rest ∧ front.tick ≤ s.now := by
    cases inv.reqAwake with
    | calling first _ ready => exact ⟨_, _, first, ready⟩
  have sends : s.bridge.masterPort.reqToSend s.now = .ok front.pkt := by
    rw [BridgeMasterPort.reqToSend, first]
    exact if_pos ready
  unfold State.sendReq
  rw [ends_bind, sends, ends_ok, ends_bind]
  apply (inv.calls during).mono
  rintro t ⟨between, extended⟩
  split
  case isTrue accepted =>
    -- What came in meanwhile is behind the request that leaves.
    obtain ⟨head, next, split, scheduled, awake⟩ := between.reqAwake.accept t.bridge
    have same : head = front := by
      have grown := extended.requests
      rw [first, split, List.cons_prefix_cons] at grown
      exact grown.1.symm
    subst same
    rw [ends_bind, reqSent_ok scheduled, ends_ok]
    apply sendRetry
    have told : (t.refused && !t.bridge.slavePort.retryReq) = false := by
      rw [between.refused]
      exact Bool.and_not_self _
    have listed : t.bridge.masterPort.transmitList.map (·.pkt) =
        head.pkt :: t.bridge.masterPort.transmitList.tail.map (·.pkt) := by
      rw [split]
      rfl
    refine ⟨?_, between.responses, ?_, ?_, between.limit, awake, between.respAwake, told.symm,
      ?_, ?_⟩
    · have leaves := between.requests
      rw [listed] at leaves
      exact leaves.pop
    · -- A request that expects a response is owed it from now on.
      have before := between.answered
      dsimp only
      rw [List.filter_append]
      cases expects : head.pkt.expectsResponse with
      | true =>
        simp only [List.filter_cons_of_pos, expects, List.filter_nil, if_true]
        rw [List.append_assoc]
        apply List.perm_middle.trans
        exact (before.cons _).trans (List.perm_append_singleton _ _).symm
      | false => simpa [expects] using before
    · have before := between.reserved
      rw [listed, List.countP_cons] at before
      dsimp only
      cases expects : head.pkt.expectsResponse with
      | true =>
        simp only [expects, if_true] at before
        simp only [if_true, List.length_append, List.length_singleton]
        omega
      | false =>
        simp only [expects, Bool.false_eq_true, if_false] at before
        simp only [Bool.false_eq_true, if_false]
        omega
    · intro waits
      rw [told] at waits
      cases waits
    · intro l member
      rcases List.mem_append.mp member with old | new
      · exact between.retried l old
      · intro waits _
        rw [List.mem_singleton.mp new] at waits ⊢
        exact between.refused.trans waits
  case isFalse refused =>
    exact { between with reqAwake := between.reqAwake.refuse }

theorem respSent_ok {b : Bridge Body} {now : Nat} {next : Option Nat}
    (reserved : b.slavePort.outstandingResponses ≠ 0)
    (scheduled : b.scheduleNext now b.slavePort.sendEvent b.slavePort.transmitList.tail =
      .ok next) :
    b.respSent now = .ok
      ({ b with slavePort := { b.slavePort with
          transmitList := b.slavePort.transmitList.tail
          outstandingResponses := b.slavePort.outstandingResponses - 1
          sendEvent := next
          retryReq := b.slavePort.retryReq && b.masterPort.reqQueueFull } },
        !b.masterPort.reqQueueFull && b.slavePort.retryReq) := by
  unfold Bridge.respSent
  dsimp only
  rw [if_neg reserved, scheduled]
  cases stalled : b.slavePort.retryReq with
  | true => cases full : b.masterPort.reqQueueFull <;> simp [Bind.bind, Except.bind]
  | false => simp [Bind.bind, Except.bind]

/-- A response that is sent leaves or is retried later. -/
theorem sendResp (inv : Inv req true s) (accepts : Bool) (during after : List (Call Body)) :
    Ends Impossible (s.sendResp accepts during after) (Inv req false) := by
  obtain ⟨front, rest, first, ready⟩ : ∃ front rest,
      s.bridge.slavePort.transmitList = front :: rest ∧ front.tick ≤ s.now := by
    cases inv.respAwake with
    | calling first _ ready => exact ⟨_, _, first, ready⟩
  have sends : s.bridge.slavePort.respToSend s.now = .ok front.pkt := by
    rw [BridgeSlavePort.respToSend, first]
    exact if_pos ready
  unfold State.sendResp
  rw [ends_bind, sends, ends_ok, ends_bind]
  apply (inv.calls during).mono
  rintro t ⟨between, extended⟩
  split
  case isTrue accepted =>
    -- What came in meanwhile is behind the response that leaves.
    obtain ⟨head, next, split, scheduled, awake⟩ := between.respAwake.accept t.bridge
    have same : head = front := by
      have grown := extended.responses
      rw [first, split, List.cons_prefix_cons] at grown
      exact grown.1.symm
    subst same
    have before := between.reserved
    have longer := congrArg List.length split
    rw [List.length_cons] at longer
    have reserved : t.bridge.slavePort.outstandingResponses ≠ 0 := by omega
    rw [ends_bind, respSent_ok reserved scheduled, ends_ok]
    apply sendRetry
    have left : (t.bridge.slavePort.retryReq && t.bridge.masterPort.reqQueueFull) =
        (t.refused && !(!t.bridge.masterPort.reqQueueFull && t.bridge.slavePort.retryReq)) := by
      rw [between.refused]
      cases t.refused <;> cases t.bridge.masterPort.reqQueueFull <;> rfl
    have listed : t.bridge.slavePort.transmitList.map (·.pkt) =
        head.pkt :: t.bridge.slavePort.transmitList.tail.map (·.pkt) := by
      rw [split]
      rfl
    refine ⟨between.requests, ?_, between.answered, ?_, ?_, between.reqAwake, awake, left, ?_, ?_⟩
    · have leaves := between.responses
      rw [listed] at leaves
      exact leaves.pop
    · dsimp only
      omega
    · have limit := between.limit
      dsimp only
      omega
    · -- Only a full request queue keeps a request stalled.
      intro waits
      rw [← left, Bool.and_eq_true] at waits
      exact .inl waits.2
    · intro l member
      rcases List.mem_append.mp member with old | new
      · exact between.retried l old
      · intro waits space
        rw [List.mem_singleton.mp new] at waits space ⊢
        exact Bool.and_eq_true_iff.mpr ⟨space, between.refused.trans waits⟩
  case isFalse refused =>
    exact { between with respAwake := between.respAwake.refuse }

end Inv

/-- An operation keeps the invariant, and no assertion fails. -/
theorem perform_inv {s : State Body} (inv : Inv false false s) (op : Op Body) :
    Ends Impossible (perform s op) (Inv false false) := by
  cases op with
  | advance tick =>
    rw [perform]
    split
    case isTrue allowed =>
      exact { inv with
        reqAwake := inv.reqAwake.advance allowed.1 allowed.2.1
        respAwake := inv.respAwake.advance allowed.1 allowed.2.2 }
    case isFalse => exact rfl
  | call c =>
    have called : Ends Impossible (s.call c) fun t => Inv false false t ∧ Extends s t := by
      cases c with
      | request pkt => exact inv.request pkt
      | response i src dest => exact inv.response i src dest
    exact called.mono fun t both => both.1
  | reqEvent accepts during after =>
    rw [perform]
    split
    case isTrue fires =>
      have calling : Inv true false s.reqEventFired :=
        { inv with reqAwake := inv.reqAwake.fired fires }
      exact calling.sendReq accepts during after
    case isFalse => exact rfl
  | reqRetry accepts during after =>
    rw [perform]
    split
    case isTrue due =>
      have calling : Inv true false { s with reqRetryOwed := false } :=
        { inv with reqAwake := inv.reqAwake.retry due }
      exact calling.sendReq accepts during after
    case isFalse => exact rfl
  | respEvent accepts during after =>
    rw [perform]
    split
    case isTrue fires =>
      have calling : Inv false true s.respEventFired :=
        { inv with respAwake := inv.respAwake.fired fires }
      exact calling.sendResp accepts during after
    case isFalse => exact rfl
  | respRetry accepts during after =>
    rw [perform]
    split
    case isTrue due =>
      have calling : Inv false true { s with respRetryOwed := false } :=
        { inv with respAwake := inv.respAwake.retry due }
      exact calling.sendResp accepts during after
    case isFalse => exact rfl

/-- No assertion failed, and the invariant holds. -/
def Sound : Except BridgeFault (State Body) → Prop
  | .error _ => False
  | .ok s => Inv false false s

theorem step_sound {s t : Except BridgeFault (State Body)} {op : Op Body} (sound : Sound s)
    (taken : step s op = some t) : Sound t := by
  cases s with
  | error fault => cases sound
  | ok s =>
    have ends := perform_inv sound op
    rw [step] at taken
    cases performed : perform s op with
    | error fault =>
      have impossible : fault = .notPossible := ends.of_error performed
      rw [performed, impossible] at taken
      cases taken
    | ok after =>
      rw [performed] at taken
      cases taken
      exact ends.of_ok performed

/-- A bridge that relayed nothing so far. -/
def start (reqQueueLimit respQueueLimit delay : Nat) (clock : ClockEdges) : State Body where
  bridge := { slavePort := { respQueueLimit }, masterPort := { reqQueueLimit }, delay, clock }

/--
In every run requests leave as they were accepted and responses as they came, each once and to
where its request came from; reservations are right; and nothing waits without being woken.
-/
theorem bridge_relays (reqQueueLimit respQueueLimit delay : Nat) (clock : ClockEdges)
    (ops : List (Op Body)) :
    Machine.Always step Good (.ok (start reqQueueLimit respQueueLimit delay clock)) ops := by
  let s₀ : State Body := start reqQueueLimit respQueueLimit delay clock
  have first : Sound (.ok s₀) :=
    ⟨rfl, rfl, .refl _, rfl, Nat.zero_le _, .idle rfl rfl rfl, .idle rfl rfl rfl, rfl, nofun,
      nofun⟩
  apply Machine.always_of_invariant (I := Sound) _ (fun _ _ _ sound taken =>
    step_sound sound taken) first
  intro s sound
  cases s with
  | error fault => cases sound
  | ok s => exact sound.relayed

end BridgeRun

end GemDroid
