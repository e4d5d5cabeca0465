import GemDroid.Lib.Outcome
import GemDroid.Lib.Roster
import GemDroid.Lib.Run
import GemDroid.Mem.BusLayer

/-! A layer of a bus keeps every port that it refused in one place and never strands it. -/

namespace GemDroid

open Outcome Roster

namespace BusLayerRun

variable {Port : Type} [DecidableEq Port]

/-- A layer, the clock, which ports were refused, and what else its users remember. -/
structure State (Port : Type) where
  layer : Layer Port := {}
  now : Nat
  /-- The port was refused and not yet told to retry. -/
  refused : Port → Bool := fun _ => false
  /-- The port whose packet is on its way to the destination. -/
  sending : Option Port := none
  /-- The destination refused a packet and owes a retry for it. -/
  retryOwed : Bool := false

/-- What comes to a layer, each with what comes in while the layer calls others. -/
inductive Call (Port : Type) where
  /-- A port has a packet with that much data, which the destination accepts or refuses. -/
  | recvTiming (src : Port) (data : Option Nat) (accepts : Bool) (during : List (Call Port))
  /-- The destination makes up for its refusal. -/
  | recvRetry (frame : List (Call Port))

namespace State

/-- Is it for the port to call? -/
def mayCall (s : State Port) (src : Port) : Bool :=
  !s.refused src && decide (s.sending ≠ some src)

/-- May the destination make up for a refusal? A layer that tells a port to retry sees no more. -/
def mayRetry (s : State Port) : Bool :=
  s.retryOwed && decide (s.layer.state ≠ .retry)

/-- The layer is left by the packet that it sent. -/
def sent (s : State Port) (bus : BusTiming) (src : Port) (data : Option Nat) (accepts : Bool) :
    Except LayerFault (State Port) := do
  if accepts then
    let layer ← s.layer.succeededTiming s.now (bus.packetFinishTime s.now data)
    .ok { s with layer, sending := none }
  else
    let layer ← s.layer.failedTiming s.now src (bus.clock.clockEdge s.now bus.headerCycles)
    let refused := Function.update s.refused src true
    .ok { s with layer, refused, sending := none, retryOwed := true }

/-- The first port that waits is told to retry, and what it does follows. -/
def retryWaiting (s : State Port) (bus : BusTiming)
    (frame : State Port → Except LayerFault (State Port)) : Except LayerFault (State Port) := do
  let (layer, port) ← s.layer.retryFront
  let refused := Function.update s.refused port false
  let s ← frame { s with layer, refused }
  let layer ← s.layer.retryDone bus s.now
  .ok { s with layer }

mutual

/-- A call and all that comes of it. -/
def call (bus : BusTiming) (s : State Port) : Call Port → Except LayerFault (State Port)
  | .recvTiming src data accepts during =>
    if s.mayCall src then do
      let (layer, taken) ← s.layer.tryTiming src
      if taken then do
        let s ← calls bus { s with layer, sending := some src } during
        s.sent bus src data accepts
      else .ok { s with layer, refused := Function.update s.refused src true }
    else .error .notPossible
  | .recvRetry frame =>
    if s.mayRetry then do
      let (layer, retries) ← s.layer.recvRetry
      let s := { s with layer, retryOwed := false }
      if retries then s.retryWaiting bus fun s => calls bus s frame else .ok s
    else .error .notPossible

/-- Several calls, one after the other. -/
def calls (bus : BusTiming) (s : State Port) : List (Call Port) → Except LayerFault (State Port)
  | [] => .ok s
  | c :: cs => do
    let s ← call bus s c
    calls bus s cs

end

/-- The release event takes place. -/
def release (s : State Port) (bus : BusTiming) (frame : List (Call Port)) :
    Except LayerFault (State Port) := do
  let fired := { s.layer with releaseEvent := none }
  let (layer, retries) ← fired.releaseLayer
  let s := { s with layer }
  if retries then s.retryWaiting bus fun s => s.calls bus frame else .ok s

end State

/-- What happens to a layer between two events. -/
inductive Op (Port : Type) where
  | advance (tick : Nat)
  | call (c : Call Port)
  | release (frame : List (Call Port))

/-- One operation; the release event takes place at its tick. -/
def perform (bus : BusTiming) (s : State Port) : Op Port → Except LayerFault (State Port)
  | .advance tick =>
    if s.now ≤ tick ∧ (s.layer.releaseEvent.all fun when => decide (tick ≤ when)) then
      .ok { s with now := tick }
    else .error .notPossible
  | .call c => s.call bus c
  | .release frame =>
    if s.layer.releaseEvent = some s.now then s.release bus frame else .error .notPossible

/-- An operation that the world cannot do is not taken. -/
def step (bus : BusTiming) : Except LayerFault (State Port) → Op Port →
    Option (Except LayerFault (State Port))
  | .error _, _ => none
  | .ok s, op =>
    match perform bus s op with
    | .error .notPossible => none
    | result => some result

/-- Everyone who waits, for the layer or for the destination. -/
def waiting (layer : Layer Port) : List Port :=
  layer.waitingForLayer ++ layer.waitingForPeer.toList

/--
Between events every port that was refused waits in one place and no other port does, an occupied
layer will be released, and a free layer keeps ports waiting only for its destination.
-/
structure Administered (s : State Port) : Prop where
  refused : Lists s.refused (waiting s.layer)
  released : s.layer.state = .busy → ∃ when, s.layer.releaseEvent = some when ∧ s.now ≤ when
  stranded : s.layer.state = .idle → s.layer.waitingForLayer ≠ [] →
    s.layer.waitingForPeer.isSome
  settled : s.layer.state ≠ .retry

/-- No assertion failed, and the layer is in order. -/
def Good : Except LayerFault (State Port) → Prop
  | .error _ => False
  | .ok s => Administered s

/-- What a layer is doing, and for which port if it sends a packet. -/
inductive Doing (layer : Layer Port) (now : Nat) : Option Port → Prop
  | idle (free : layer.state = .idle) (nobody : layer.retryingPort = none)
      (unscheduled : layer.releaseEvent = none)
      (stranded : layer.waitingForLayer ≠ [] → layer.waitingForPeer.isSome) :
      Doing layer now none
  | retrying (telling : layer.state = .retry) (unscheduled : layer.releaseEvent = none) :
      Doing layer now none
  | occupied {when : Nat} (busy : layer.state = .busy) (nobody : layer.retryingPort = none)
      (scheduled : layer.releaseEvent = some when) (ahead : now ≤ when) : Doing layer now none
  | sending {src : Port} (busy : layer.state = .busy) (nobody : layer.retryingPort = none)
      (unscheduled : layer.releaseEvent = none) (noPeer : layer.waitingForPeer = none)
      (present : src ∉ layer.waitingForLayer) : Doing layer now (some src)

/-- What holds whenever the layer is called. -/
structure Inv (bus : BusTiming) (s : State Port) : Prop where
  refused : Lists s.refused (waiting s.layer)
  owed : s.retryOwed = s.layer.waitingForPeer.isSome
  doing : Doing s.layer s.now s.sending
  used : 0 < bus.headerCycles ∨ 0 < s.now

/-- What holds of a layer that has just become free, whoever waits for it. -/
structure Freed (bus : BusTiming) (s : State Port) : Prop where
  refused : Lists s.refused (waiting s.layer)
  owed : s.retryOwed = s.layer.waitingForPeer.isSome
  silent : s.sending = none
  free : s.layer.state = .idle
  nobody : s.layer.retryingPort = none
  unscheduled : s.layer.releaseEvent = none
  used : 0 < bus.headerCycles ∨ 0 < s.now

/-- The one outcome other than success that is admitted. -/
def Impossible (fault : LayerFault) : Prop :=
  fault = .notPossible

/-- What calls leave as it is: who sends, and what the layer does unless it gets busy. -/
structure Kept (s t : State Port) : Prop where
  sending : t.sending = s.sending
  state : t.layer.state = s.layer.state ∨ t.layer.state = .busy

namespace Kept

omit [DecidableEq Port]

variable {r s t : State Port}

theorem refl (s : State Port) : Kept s s :=
  ⟨rfl, .inl rfl⟩

theorem trans (first : Kept r s) (second : Kept s t) : Kept r t := by
  constructor
  · exact second.sending.trans first.sending
  · cases second.state with
    | inl same => exact first.state.imp same.trans same.trans
    | inr busy => exact .inr busy

end Kept

variable {bus : BusTiming} {s : State Port}

omit [DecidableEq Port] in
theorem occupyLayer_ok {layer : Layer Port} {now busyUntil : Nat} (busy : layer.state = .busy)
    (unscheduled : layer.releaseEvent = none) (ahead : now ≤ busyUntil)
    (nonzero : busyUntil ≠ 0) :
    layer.occupyLayer now busyUntil = .ok { layer with releaseEvent := some busyUntil } := by
  simp [Layer.occupyLayer, busy, unscheduled, nonzero, Nat.not_lt.mpr ahead]

omit [DecidableEq Port] in
theorem succeededTiming_ok {layer : Layer Port} {now busyTime : Nat}
    (busy : layer.state = .busy) (unscheduled : layer.releaseEvent = none)
    (ahead : now ≤ busyTime) (nonzero : busyTime ≠ 0) :
    layer.succeededTiming now busyTime = .ok { layer with releaseEvent := some busyTime } := by
  rw [Layer.succeededTiming, if_neg (not_not_intro busy)]
  exact occupyLayer_ok busy unscheduled ahead nonzero

omit [DecidableEq Port] in
theorem failedTiming_ok {layer : Layer Port} {now busyTime : Nat} (src : Port)
    (busy : layer.state = .busy) (unscheduled : layer.releaseEvent = none)
    (noPeer : layer.waitingForPeer = none) (ahead : now ≤ busyTime) (nonzero : busyTime ≠ 0) :
    layer.failedTiming now src busyTime =
      .ok { layer with waitingForPeer := some src, releaseEvent := some busyTime } := by
  have nobody : ¬layer.waitingForPeer.isSome = true := by
    rw [noPeer]
    exact Bool.false_ne_true
  rw [Layer.failedTiming, if_neg nobody]
  exact (if_neg (not_not_intro busy)).trans (occupyLayer_ok busy unscheduled ahead nonzero)

namespace Doing

omit [DecidableEq Port]

variable {layer : Layer Port} {now : Nat} {sending : Option Port} {src : Port}

theorem unscheduled (doing : Doing layer now sending) (free : layer.state ≠ .busy) :
    layer.releaseEvent = none := by
  cases doing with
  | idle _ _ unscheduled => exact unscheduled
  | retrying _ unscheduled => exact unscheduled
  | occupied busy => exact absurd busy free
  | sending busy => exact absurd busy free

theorem silent (doing : Doing layer now sending) (free : layer.state ≠ .busy) :
    sending = none := by
  cases doing with
  | idle => rfl
  | retrying => rfl
  | occupied => rfl
  | sending busy => exact absurd busy free

theorem stranded (doing : Doing layer now sending) (free : layer.state = .idle)
    (waits : layer.waitingForLayer ≠ []) : layer.waitingForPeer.isSome := by
  cases doing with
  | idle _ _ _ stranded => exact stranded waits
  | retrying telling => rw [free] at telling; cases telling
  | occupied busy => rw [free] at busy; cases busy
  | sending busy => rw [free] at busy; cases busy

theorem nobody (doing : Doing layer now sending) (free : layer.state = .idle) :
    layer.retryingPort = none := by
  cases doing with
  | idle _ nobody => exact nobody
  | retrying telling => rw [free] at telling; cases telling
  | occupied busy => rw [free] at busy; cases busy
  | sending busy => rw [free] at busy; cases busy

theorem release (doing : Doing layer now sending)
    (busy : layer.state = .busy) (settled : layer.waitingForPeer.isSome ∨ sending = none) :
    layer.retryingPort = none ∧ sending = none ∧
      ∃ when, layer.releaseEvent = some when ∧ now ≤ when := by
  cases doing with
  | idle free => rw [free] at busy; cases busy
  | retrying telling => rw [telling] at busy; cases busy
  | occupied _ nobody scheduled ahead => exact ⟨nobody, rfl, _, scheduled, ahead⟩
  | sending _ _ _ noPeer =>
    rw [noPeer] at settled
    cases settled with
    | inl peer => cases peer
    | inr silent => cases silent

theorem advance (doing : Doing layer now sending) {tick : Nat}
    (before : ∀ when, layer.releaseEvent = some when → tick ≤ when) :
    Doing layer tick sending := by
  cases doing with
  | idle free nobody unscheduled stranded => exact .idle free nobody unscheduled stranded
  | retrying telling unscheduled => exact .retrying telling unscheduled
  | occupied busy nobody scheduled => exact .occupied busy nobody scheduled (before _ scheduled)
  | sending busy nobody unscheduled noPeer present =>
    exact .sending busy nobody unscheduled noPeer present

theorem wait (doing : Doing layer now sending)
    (blocked : layer.state = .busy ∨ layer.waitingForPeer.isSome) (other : sending ≠ some src) :
    Doing { layer with waitingForLayer := layer.waitingForLayer ++ [src] } now sending := by
  cases doing with
  | idle free nobody unscheduled =>
    have peer : layer.waitingForPeer.isSome := by
      cases blocked with
      | inl busy => rw [free] at busy; cases busy
      | inr peer => exact peer
    exact .idle free nobody unscheduled fun _ => peer
  | retrying telling unscheduled => exact .retrying telling unscheduled
  | occupied busy nobody scheduled ahead => exact .occupied busy nobody scheduled ahead
  | @sending sender busy nobody unscheduled noPeer present =>
    have others : sender ∉ layer.waitingForLayer ++ [src] := by
      intro member
      rcases List.mem_append.mp member with old | new
      · exact present old
      · exact other (congrArg some (List.mem_singleton.mp new))
    exact .sending busy nobody unscheduled noPeer others

end Doing

theorem finish_ok (bus : BusTiming) (now cycles : Nat) (used : 0 < cycles ∨ 0 < now) :
    now ≤ bus.clock.clockEdge now cycles ∧ bus.clock.clockEdge now cycles ≠ 0 := by
  have ahead := bus.clock.not_past now 0
  have later := bus.edges now cycles
  have positive : 0 < cycles → 0 < bus.clockPeriod now * cycles := fun some =>
    Nat.mul_pos (bus.running now) some
  omega

theorem packetFinishTime_ok (bus : BusTiming) (now : Nat) (data : Option Nat)
    (used : 0 < bus.headerCycles ∨ 0 < now) :
    now ≤ bus.packetFinishTime now data ∧ bus.packetFinishTime now data ≠ 0 := by
  obtain ⟨dataCycles, finish⟩ : ∃ dataCycles, bus.packetFinishTime now data =
      (bus.headerCycles + dataCycles) * bus.clockPeriod now +
        (bus.clock.clockEdge now 0 - now) + now := ⟨_, rfl⟩
  have positive : 0 < bus.headerCycles →
      0 < (bus.headerCycles + dataCycles) * bus.clockPeriod now := fun header =>
    Nat.mul_pos (Nat.add_pos_left header dataCycles) (bus.running now)
  omega

namespace Inv

omit [DecidableEq Port] in
theorem tryTiming_taken {src : Port} (inv : Inv bus s) (free : s.layer.state ≠ .busy)
    (noPeer : s.layer.waitingForPeer = none) (unrefused : s.refused src = false) :
    Inv bus { s with
      layer := { s.layer with state := .busy, retryingPort := none }, sending := some src } := by
  have present : src ∉ s.layer.waitingForLayer := by
    intro member
    exact inv.refused.absent unrefused (List.mem_append_left _ member)
  exact ⟨inv.refused, inv.owed,
    .sending rfl rfl (inv.doing.unscheduled free) noPeer present, inv.used⟩

theorem tryTiming_refused {src : Port} (inv : Inv bus s)
    (blocked : s.layer.state = .busy ∨ s.layer.waitingForPeer.isSome)
    (unrefused : s.refused src = false) (other : s.sending ≠ some src) :
    Inv bus { s with
      layer := { s.layer with waitingForLayer := s.layer.waitingForLayer ++ [src] }
      refused := Function.update s.refused src true } := by
  have joined : (s.layer.waitingForLayer ++ [src] ++ s.layer.waitingForPeer.toList).Perm
      (src :: waiting s.layer) := by
    rw [List.append_assoc]
    exact List.perm_middle
  exact ⟨inv.refused.enter unrefused joined, inv.owed, inv.doing.wait blocked other, inv.used⟩

theorem sent {src : Port} (inv : Inv bus s) (calling : s.sending = some src) (data : Option Nat)
    (accepts : Bool) :
    Ends Impossible (s.sent bus src data accepts) fun t =>
      Inv bus t ∧ t.sending = none ∧ t.layer.state = .busy := by
  have doing := inv.doing
  rw [calling] at doing
  cases doing with
  | sending busy nobody unscheduled noPeer present =>
  unfold State.sent
  cases accepts with
  | true =>
    obtain ⟨ahead, nonzero⟩ := packetFinishTime_ok bus s.now data inv.used
    rw [if_pos rfl, ends_bind, succeededTiming_ok busy unscheduled ahead nonzero]
    exact ⟨⟨inv.refused, inv.owed, .occupied busy nobody rfl ahead, inv.used⟩, rfl, busy⟩
  | false =>
    obtain ⟨ahead, nonzero⟩ := finish_ok bus s.now bus.headerCycles inv.used
    have unrefused : s.refused src = false := by
      rw [Bool.eq_false_iff, Ne, inv.refused.exact', waiting, noPeer]
      simpa using present
    have joined : (s.layer.waitingForLayer ++ [src]).Perm (src :: waiting s.layer) := by
      rw [waiting, noPeer]
      simp
    rw [if_neg Bool.false_ne_true, ends_bind,
      failedTiming_ok src busy unscheduled noPeer ahead nonzero]
    exact ⟨⟨inv.refused.enter unrefused joined, rfl, .occupied busy nobody rfl ahead, inv.used⟩,
      rfl, busy⟩

end Inv

/-- The first port that waits is told to retry, and may call and be followed by others. -/
theorem Freed.retryWaiting {frame : State Port → Except LayerFault (State Port)}
    (freed : Freed bus s) (waits : s.layer.waitingForLayer ≠ [])
    (framed : ∀ t, Inv bus t → Ends Impossible (frame t) fun u => Inv bus u ∧ Kept t u) :
    Ends Impossible (s.retryWaiting bus frame) fun t =>
      Inv bus t ∧ t.sending = none ∧ t.layer.state = .busy := by
  obtain ⟨port, ports, first⟩ := List.exists_cons_of_ne_nil waits
  have told : s.layer.retryFront =
      .ok ({ s.layer with
        state := .retry, waitingForLayer := ports, retryingPort := some port }, port) := by
    simp [Layer.retryFront, first, freed.free, freed.nobody]
  have left : (waiting s.layer).Perm (port :: (ports ++ s.layer.waitingForPeer.toList)) := by
    rw [waiting, first]
    exact .refl _
  unfold State.retryWaiting
  rw [told, ends_bind, ends_ok, ends_bind]
  have begins : Inv bus { s with
      layer := { s.layer with
        state := .retry, waitingForLayer := ports, retryingPort := some port }
      refused := Function.update s.refused port false } := by
    refine ⟨freed.refused.leave left, freed.owed, ?_, freed.used⟩
    show Doing _ _ s.sending
    rw [freed.silent]
    exact .retrying rfl freed.unscheduled
  apply (framed _ begins).mono
  intro t framed
  obtain ⟨after, sending, state⟩ := framed
  rw [ends_bind]
  -- A port that did not call leaves the layer telling it, and a cycle passes.
  by_cases telling : t.layer.state = .retry
  · obtain ⟨ahead, nonzero⟩ := finish_ok bus t.now 1 (.inl Nat.one_pos)
    have unoccupied : t.layer.state ≠ .busy := by
      rw [telling]
      nofun
    let layer := { t.layer with state := .busy, retryingPort := none }
    have occupies : layer.occupyLayer _ _ = _ :=
      occupyLayer_ok rfl (after.doing.unscheduled unoccupied) ahead nonzero
    rw [Layer.retryDone, if_pos telling, occupies]
    refine ⟨⟨after.refused, after.owed, ?_, after.used⟩, sending.trans freed.silent, rfl⟩
    show Doing _ _ t.sending
    rw [after.doing.silent unoccupied]
    exact .occupied rfl rfl rfl ahead
  · have busy : t.layer.state = .busy := state.resolve_left telling
    rw [Layer.retryDone, if_neg telling]
    exact ⟨after, sending.trans freed.silent, busy⟩

mutual

/-- A call keeps what holds whenever the layer is called. -/
theorem call_ok : (c : Call Port) → (s : State Port) → Inv bus s →
    Ends Impossible (s.call bus c) fun t => Inv bus t ∧ Kept s t
  | .recvTiming src data accepts during, s, inv => by
    rw [State.call]
    split
    case isFalse => exact rfl
    case isTrue mayCall =>
    obtain ⟨unrefused, other⟩ : s.refused src = false ∧ s.sending ≠ some src := by
      simpa [State.mayCall] using mayCall
    by_cases blocked : s.layer.state = .busy ∨ s.layer.waitingForPeer.isSome
    · have absent : src ∉ s.layer.waitingForLayer := fun member =>
        inv.refused.absent unrefused (List.mem_append_left _ member)
      rw [Layer.tryTiming, if_pos blocked, if_neg absent]
      exact ⟨inv.tryTiming_refused blocked unrefused other, rfl, .inl rfl⟩
    · obtain ⟨free, noPeer⟩ : s.layer.state ≠ .busy ∧ s.layer.waitingForPeer = none := by
        simpa using blocked
      rw [Layer.tryTiming, if_neg blocked]
      -- While the packet is sent the layer is busy, so nobody else gets onto it.
      show Ends Impossible (State.calls bus _ during >>= _) _
      rw [ends_bind]
      apply (calls_ok during _ (inv.tryTiming_taken free noPeer unrefused)).mono
      intro t meanwhile
      apply (meanwhile.1.sent meanwhile.2.sending data accepts).mono
      intro u sent
      exact ⟨sent.1, sent.2.1.trans (inv.doing.silent free).symm, .inr sent.2.2⟩
  | .recvRetry frame, s, inv => by
    rw [State.call]
    split
    case isFalse => exact rfl
    case isTrue mayRetry =>
    obtain ⟨owed, unsettled⟩ : s.retryOwed = true ∧ s.layer.state ≠ .retry := by
      simpa [State.mayRetry] using mayRetry
    obtain ⟨port, peer⟩ := Option.isSome_iff_exists.mp (inv.owed.symm.trans owed)
    have listed : Lists s.refused (port :: s.layer.waitingForLayer ++ []) := by
      apply inv.refused.perm
      rw [waiting, peer, List.append_nil]
      exact (List.perm_append_singleton port s.layer.waitingForLayer).symm
    rw [Layer.recvRetry, peer]
    dsimp only
    by_cases free : s.layer.state = .idle
    · rw [if_pos free]
      have unoccupied : s.layer.state ≠ .busy := by
        rw [free]
        nofun
      have silent := inv.doing.silent unoccupied
      have freed : Freed bus { s with
          layer := { s.layer with
            waitingForLayer := port :: s.layer.waitingForLayer, waitingForPeer := none }
          retryOwed := false } :=
        ⟨listed, rfl, silent, free, inv.doing.nobody free, inv.doing.unscheduled unoccupied,
          inv.used⟩
      apply (freed.retryWaiting (List.cons_ne_nil _ _) (calls_ok frame)).mono
      intro t told
      exact ⟨told.1, told.2.1.trans silent.symm, .inr told.2.2⟩
    · have busy : s.layer.state = .busy := by
        cases state : s.layer.state with
        | idle => exact absurd state free
        | busy => rfl
        | retry => exact absurd state unsettled
      obtain ⟨nobody, silent, when, scheduled, ahead⟩ :=
        inv.doing.release busy (.inl (Option.isSome_of_mem peer))
      rw [if_neg free, if_neg (not_not_intro busy)]
      refine ⟨⟨listed, rfl, ?_, inv.used⟩, rfl, .inl rfl⟩
      show Doing _ _ s.sending
      rw [silent]
      exact .occupied busy nobody scheduled ahead

theorem calls_ok : (cs : List (Call Port)) → (s : State Port) → Inv bus s →
    Ends Impossible (s.calls bus cs) fun t => Inv bus t ∧ Kept s t
  | [], s, inv => by
    rw [State.calls]
    exact ⟨inv, .refl s⟩
  | c :: cs, s, inv => by
    rw [State.calls, ends_bind]
    apply (call_ok c s inv).mono
    intro t called
    apply (calls_ok cs t called.1).mono
    intro u rest
    exact ⟨rest.1, called.2.trans rest.2⟩

end

/-- What holds between events. -/
structure Between (bus : BusTiming) (s : State Port) : Prop where
  inv : Inv bus s
  silent : s.sending = none
  settled : s.layer.state ≠ .retry

omit [DecidableEq Port] in
theorem Between.administered (between : Between bus s) : Administered s := by
  refine ⟨between.inv.refused, fun busy => ?_, fun free waits => ?_, between.settled⟩
  · exact (between.inv.doing.release busy (.inr between.silent)).2.2
  · exact between.inv.doing.stranded free waits

theorem Between.call (between : Between bus s) (c : Call Port) :
    Ends Impossible (s.call bus c) (Between bus) := by
  apply (call_ok c s between.inv).mono
  intro t called
  refine ⟨called.1, called.2.sending.trans between.silent, ?_⟩
  intro telling
  cases called.2.state with
  | inl same => exact between.settled (same.symm.trans telling)
  | inr busy => rw [telling] at busy; cases busy

/-- A layer that is released goes on to the next port that waits. -/
theorem Between.release (between : Between bus s) (due : s.layer.releaseEvent = some s.now)
    (frame : List (Call Port)) : Ends Impossible (s.release bus frame) (Between bus) := by
  have busy : s.layer.state = .busy := by
    by_contra free
    have unscheduled := between.inv.doing.unscheduled free
    rw [due] at unscheduled
    cases unscheduled
  obtain ⟨nobody, -⟩ := between.inv.doing.release busy (.inr between.silent)
  have freed : Freed bus { s with
      layer := { s.layer with state := .idle, releaseEvent := none } } :=
    ⟨between.inv.refused, between.inv.owed, between.silent, rfl, nobody, rfl, between.inv.used⟩
  have released : Layer.releaseLayer { s.layer with releaseEvent := none } =
      .ok ({ s.layer with state := .idle, releaseEvent := none },
        !s.layer.waitingForLayer.isEmpty) := by
    simp [Layer.releaseLayer, busy]
  unfold State.release
  dsimp only
  rw [released, ends_bind, ends_ok]
  by_cases waits : s.layer.waitingForLayer = []
  · have stays : ¬(!s.layer.waitingForLayer.isEmpty) = true := by
      rw [waits]
      exact Bool.false_ne_true
    rw [if_neg stays]
    refine ⟨⟨freed.refused, freed.owed, ?_, freed.used⟩, freed.silent, nofun⟩
    show Doing _ _ s.sending
    rw [between.silent]
    exact .idle rfl nobody rfl fun waiting => absurd waits waiting
  · have goes : (!s.layer.waitingForLayer.isEmpty) = true := by
      simpa using waits
    rw [if_pos goes]
    apply (freed.retryWaiting waits (calls_ok frame)).mono
    intro t told
    refine ⟨told.1, told.2.1, ?_⟩
    intro telling
    rw [told.2.2] at telling
    cases telling

omit [DecidableEq Port] in
theorem Between.advance (between : Between bus s) {tick : Nat} (later : s.now ≤ tick)
    (before : ∀ when, s.layer.releaseEvent = some when → tick ≤ when) :
    Between bus { s with now := tick } := by
  have doing := between.inv.doing.advance before
  have used : 0 < bus.headerCycles ∨ 0 < tick := by
    have used := between.inv.used
    omega
  exact ⟨⟨between.inv.refused, between.inv.owed, doing, used⟩, between.silent, between.settled⟩

theorem perform_ok (between : Between bus s) (op : Op Port) :
    Ends Impossible (perform bus s op) (Between bus) := by
  cases op with
  | advance tick =>
    rw [perform]
    split
    case isFalse => exact rfl
    case isTrue passes =>
    apply between.advance passes.1
    intro when scheduled
    have before := passes.2
    rw [scheduled] at before
    exact of_decide_eq_true before
  | call c => exact between.call c
  | release frame =>
    rw [perform]
    split
    case isFalse => exact rfl
    case isTrue due => exact between.release due frame

/-- What holds along a run: no assertion failed, and what holds between events. -/
def Sound (bus : BusTiming) : Except LayerFault (State Port) → Prop
  | .error _ => False
  | .ok s => Between bus s

theorem step_sound {s t : Except LayerFault (State Port)} {op : Op Port} (sound : Sound bus s)
    (taken : step bus s op = some t) : Sound bus t := by
  cases s with
  | error fault => cases sound
  | ok s =>
    have ends := perform_ok sound op
    dsimp only [step] at taken
    cases performed : perform bus s op with
    | error fault =>
      have impossible : fault = .notPossible := ends.of_error performed
      rw [performed, impossible] at taken
      cases taken
    | ok after =>
      rw [performed] at taken
      cases taken
      exact ends.of_ok performed

/-- A layer that nobody used so far. -/
def start (now : Nat) : State Port where
  now := now

/--
In every run, whoever calls back whom, the layer keeps each port that it refused in one place, is
released when it is occupied, and strands nobody, if it is not occupied for no time at tick zero.
-/
theorem layer_administered (bus : BusTiming) (now : Nat) (ops : List (Op Port))
    (used : 0 < bus.headerCycles ∨ 0 < now) :
    Machine.Always (step bus) Good (.ok (start now)) ops := by
  let s₀ : State Port := start now
  have first : Sound bus (.ok s₀) :=
    ⟨⟨⟨List.nodup_nil, fun _ => by simp [s₀, start, waiting]⟩, rfl,
      .idle rfl rfl rfl fun waits => absurd rfl waits, used⟩, rfl, nofun⟩
  apply Machine.always_of_invariant (I := Sound bus) _ (fun _ _ _ sound taken =>
    step_sound sound taken) first
  intro s sound
  cases s with
  | error fault => cases sound
  | ok s => exact sound.administered

/-- A bus with one header cycle of a thousand ticks. -/
def headerBus : BusTiming :=
  .ofPeriod 1 8 1000 (by decide)

/-- The first port is refused by the destination, and the second one while that is waited for. -/
def refusedTwice : List (Op Nat) :=
  [.call (.recvTiming 0 none false []), .advance 1000, .release [],
    .call (.recvTiming 1 (some 64) true [])]

/-- The destination makes up for its refusal and the first port calls again at once. -/
def madeUp : List (Op Nat) :=
  refusedTwice ++ [.call (.recvRetry [.recvTiming 0 none true [.recvTiming 2 none true []]])]

theorem layer_administered_madeUp :
    Machine.Always (step headerBus) Good (.ok (start 0)) madeUp :=
  layer_administered headerBus 0 madeUp (by decide)

/-- A layer that waits for its destination is free while the second port waits for the layer. -/
theorem idle_while_waited :
    ¬Machine.Always (step headerBus) (fun result => ∀ s, result = .ok s →
      s.layer.state = .idle → s.layer.waitingForLayer = []) (.ok (start 0)) refusedTwice := by
  intro always
  have waits : (Machine.run (step headerBus) (.ok (start 0)) refusedTwice).any
      (fun result => result.toOption.any fun s =>
        decide (s.layer.state = .idle) && !s.layer.waitingForLayer.isEmpty) = true := by
    decide +kernel
  obtain ⟨result, ran, both⟩ := (Option.any_eq_true _ _).mp waits
  cases result with
  | error fault => cases both
  | ok s =>
    simp only [Except.toOption, Option.any_some, Bool.and_eq_true, decide_eq_true_eq] at both
    rw [always.at_end ran s rfl both.1] at both
    cases both.2

end BusLayerRun

end GemDroid
