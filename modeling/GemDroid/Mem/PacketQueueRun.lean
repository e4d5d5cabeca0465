import Mathlib.Data.List.Range
import GemDroid.Lib.Place
import GemDroid.Lib.Run
import GemDroid.Mem.PacketQueue

/-! A packet queue loses no packet and no wake-up, and sends its packets in order. -/

namespace GemDroid

open Place

namespace PacketQueue

variable {Pkt : Type} {q : PacketQueue Pkt} {curTick : Nat}

/-- The queue with a packet placed behind all that are ready no later. -/
def placed (q : PacketQueue Pkt) (dp : DeferredPacket Pkt) : PacketQueue Pkt :=
  { q with transmitList := place (·.tick) dp q.transmitList }

theorem schedSendTiming_eq {isExpressSnoop : Pkt → Bool} {pkt : Pkt} {when : Nat}
    {send_as_snoop : Bool} (sorted : q.transmitList.Pairwise fun dp dp' => dp.tick ≤ dp'.tick)
    (future : curTick ≤ when) (plain : isExpressSnoop pkt = false)
    (short : q.transmitList.length < 100) :
    q.schedSendTiming isExpressSnoop curTick pkt when send_as_snoop =
      if q.transmitList.head?.all fun front => decide (when < front.tick) then
        (q.placed ⟨when, pkt, send_as_snoop⟩).schedSendEvent curTick when
      else .ok (q.placed ⟨when, pkt, send_as_snoop⟩) := by
  unfold schedSendTiming placed
  dsimp only
  rw [if_neg (Nat.not_lt.mpr future), if_neg (by simp [plain]), if_neg (by omega)]
  cases list : q.transmitList with
  | nil => simp [place]
  | cons front rest =>
    rw [list, List.pairwise_cons] at sorted
    by_cases new : when < front.tick
    · rw [place_cons_of_lt new (List.pairwise_cons.mpr sorted)]
      simp [new]
    · dsimp only
      rw [if_neg new]
      simp only [List.head?_cons, Option.all_some, decide_eq_true_eq, if_neg new]
      unfold place
      dsimp only
      split
      · rfl
      · simp [Nat.le_of_not_lt new]

/-- A send whose packet is ready gives the packet away or keeps it, and arranges the next send. -/
theorem sendDeferredPacket_ok {dp : DeferredPacket Pkt} {rest : List (DeferredPacket Pkt)}
    (accepts : Bool) (list : q.transmitList = dp :: rest) (ready : dp.tick ≤ curTick)
    (fired : q.sendEvent = none) (clock : curTick < MaxTick)
    (below : ∀ next ∈ rest, next.tick < MaxTick) :
    ∃ q', q.sendDeferredPacket curTick accepts = .ok q' ∧ q'.waitingOnRetry = !accepts ∧
      (accepts = true → q'.transmitList = rest ∧
        q'.sendEvent = rest.head?.map fun next => max next.tick (curTick + 1)) ∧
      (accepts = false → q'.transmitList = dp :: rest ∧ q'.sendEvent = none) := by
  have deferred : q.deferredPacketReady curTick = true := by
    simp [deferredPacketReady, list, ready]
  have tried : q.trySendTiming curTick accepts = .ok { q with
      transmitList := if accepts then rest else dp :: rest, waitingOnRetry := !accepts } := by
    unfold trySendTiming
    rw [list]
    cases accepts with
    | true => simp [deferred]
    | false =>
      simp only [deferred, not_true_eq_false, if_false, Bool.false_eq_true, fired,
        Option.isSome_none, Bool.not_false]
  unfold sendDeferredPacket
  rw [tried]
  cases accepts with
  | false => exact ⟨_, rfl, rfl, nofun, fun _ => ⟨rfl, fired⟩⟩
  | true =>
    have tick : (curTick + 1) % 2 ^ 64 = curTick + 1 := by
      rw [MaxTick] at clock
      omega
    simp only [Bind.bind, Except.bind, Bool.not_true, Bool.false_eq_true, if_false, if_true]
    unfold scheduleSend deferredPacketReadyTime
    cases rest with
    | nil =>
      -- Nothing is left to send, though someone may be told so.
      simp only [List.head?_nil, Option.map_none, Option.getD_none, min_self, ne_eq,
        not_true_eq_false, if_false]
      split
      · exact ⟨_, rfl, rfl, fun _ => ⟨rfl, fired⟩, nofun⟩
      · exact ⟨_, rfl, rfl, fun _ => ⟨rfl, fired⟩, nofun⟩
    | cons next rest =>
      have soon := below next List.mem_cons_self
      have least : min next.tick MaxTick = next.tick := Nat.min_eq_left (Nat.le_of_lt soon)
      simp only [List.head?_cons, Option.map_some, Option.getD_some, least, tick, fired,
        Option.isNone_none, if_true, ne_eq, Nat.ne_of_lt soon, not_false_eq_true]
      unfold schedule
      rw [if_neg (by omega), if_neg (by simp)]
      exact ⟨_, rfl, rfl, fun _ => ⟨rfl, rfl⟩, nofun⟩

end PacketQueue

namespace PacketQueueRun

variable {Pkt : Type}

/-- A packet with its place among all packets that the queue was given. -/
structure Numbered (Pkt : Type) where
  serial : Nat
  pkt : Pkt

/-- A packet of the queue. -/
abbrev Deferred (Pkt : Type) := DeferredPacket (Numbered Pkt)

/-- The packet is to be sent before the other: it is ready earlier, or came earlier. -/
def Before (dp dp' : Deferred Pkt) : Prop :=
  dp.tick < dp'.tick ∨ dp.tick = dp'.tick ∧ dp.pkt.serial < dp'.pkt.serial

/-- A packet that was accepted, when it was, and the packets that were queued behind it. -/
structure Acceptance (Pkt : Type) where
  packet : Deferred Pkt
  tick : Nat
  behind : List (Deferred Pkt)

/-- The queue, the clock, the retry that the peer owes, and what was given and taken. -/
structure State (Pkt : Type) where
  queue : PacketQueue (Numbered Pkt) := {}
  now : Nat := 0
  owesRetry : Bool := false
  scheduled : List (Deferred Pkt) := []
  accepted : List (Acceptance Pkt) := []

/-- What happens to the queue. -/
inductive Op (Pkt : Type) where
  | advance (tick : Nat)
  | schedSendTiming (pkt : Pkt) (when : Nat) (send_as_snoop : Bool)
  /-- The send event takes place, and the peer accepts or refuses what is sent. -/
  | processSendEvent (accepts : Bool)
  /-- The peer retries, and accepts or refuses what is sent. -/
  | retry (accepts : Bool)
  | drain

/-- The queue after a send, and the packet that the peer took or the retry that it owes. -/
def State.sent (s : State Pkt) (queue : PacketQueue (Numbered Pkt)) (accepts : Bool) :
    State Pkt :=
  match accepts, s.queue.transmitList with
  | true, packet :: behind =>
    { s with
      queue, owesRetry := false
      accepted := s.accepted ++ [{ packet, tick := s.now, behind }] }
  | _, _ => { s with queue, owesRetry := !accepts }

/--
One operation in a world whose ticks are below a limit: the clock does not pass the send event,
a packet is scheduled for now or later while fewer than a hundred are queued, the send event takes
place at its tick, and the peer retries once for each refusal.
-/
def step (isExpressSnoop : Pkt → Bool) (limit : Nat) :
    Except PacketQueueFault (State Pkt) → Op Pkt → Option (Except PacketQueueFault (State Pkt))
  | .error _, _ => none
  | .ok s, .advance tick =>
    if s.now ≤ tick ∧ tick < limit ∧ s.queue.sendEvent.all fun when => decide (tick ≤ when) then
      some (.ok { s with now := tick })
    else none
  | .ok s, .schedSendTiming pkt when send_as_snoop =>
    if s.now ≤ when ∧ when < limit ∧ ¬isExpressSnoop pkt ∧ s.queue.transmitList.length < 100 then
      let numbered : Numbered Pkt := { serial := s.scheduled.length, pkt }
      some (do
        let queue ← s.queue.schedSendTiming (fun n => isExpressSnoop n.pkt) s.now numbered when
          send_as_snoop
        let packet := { tick := when, pkt := numbered, sendAsSnoop := send_as_snoop }
        .ok { s with queue, scheduled := s.scheduled ++ [packet] })
    else none
  | .ok s, .processSendEvent accepts =>
    if s.queue.sendEvent = some s.now then
      some (do
        let fired := { s.queue with sendEvent := none }
        .ok (s.sent (← fired.processSendEvent s.now accepts) accepts))
    else none
  | .ok s, .retry accepts =>
    if s.owesRetry then some (do .ok (s.sent (← s.queue.retry s.now accepts) accepts)) else none
  | .ok s, .drain => some (.ok { s with queue := s.queue.drain })

/--
Every packet was accepted once or is still queued, none was accepted before its tick or out of
order, and a queue with packets has its send event scheduled in time or waits for a retry.
-/
structure Served (s : State Pkt) : Prop where
  numbered : s.scheduled.map (·.pkt.serial) = List.range s.scheduled.length
  accounted : (s.accepted.map (·.packet) ++ s.queue.transmitList).Perm s.scheduled
  due : ∀ a ∈ s.accepted, a.packet.tick ≤ a.tick
  inOrder : ∀ a ∈ s.accepted, ∀ dp ∈ a.behind, Before a.packet dp
  woken : ∀ front ∈ s.queue.transmitList.head?,
    (∃ when ∈ s.queue.sendEvent, when ≤ max (s.now + 1) front.tick) ∨
      s.queue.waitingOnRetry = true ∧ front.tick ≤ s.now

/-- No assertion failed, and the packets are served as they should be. -/
def Good : Except PacketQueueFault (State Pkt) → Prop
  | .error _ => False
  | .ok s => Served s

/-- What the queue is up to. -/
inductive Phase (s : State Pkt) : Prop
  | idle (empty : s.queue.transmitList = []) (unscheduled : s.queue.sendEvent = none)
      (free : s.queue.waitingOnRetry = false) (settled : s.owesRetry = false)
  | armed {front : Deferred Pkt} {rest : List (Deferred Pkt)} {when : Nat}
      (list : s.queue.transmitList = front :: rest) (event : s.queue.sendEvent = some when)
      (ahead : s.now ≤ when) (ready : front.tick ≤ when) (soon : when ≤ max (s.now + 1) front.tick)
      (free : s.queue.waitingOnRetry = false) (settled : s.owesRetry = false)
  | waiting {front : Deferred Pkt} {rest : List (Deferred Pkt)}
      (list : s.queue.transmitList = front :: rest) (unscheduled : s.queue.sendEvent = none)
      (ready : front.tick ≤ s.now) (waits : s.queue.waitingOnRetry = true)
      (owes : s.owesRetry = true)

/-- What holds of the queue between any two operations. -/
structure Inv (s : State Pkt) : Prop where
  phase : Phase s
  clock : s.now < MaxTick
  below : ∀ dp ∈ s.queue.transmitList, dp.tick < MaxTick
  sorted : s.queue.transmitList.Pairwise Before
  numbered : s.scheduled.map (·.pkt.serial) = List.range s.scheduled.length
  accounted : (s.accepted.map (·.packet) ++ s.queue.transmitList).Perm s.scheduled
  due : ∀ a ∈ s.accepted, a.packet.tick ≤ a.tick
  inOrder : ∀ a ∈ s.accepted, ∀ dp ∈ a.behind, Before a.packet dp

namespace Inv

variable {s : State Pkt} {isExpressSnoop : Pkt → Bool}

theorem served (inv : Inv s) : Served s := by
  refine ⟨inv.numbered, inv.accounted, inv.due, inv.inOrder, fun front first => ?_⟩
  cases inv.phase with
  | idle empty => simp [empty] at first
  | @armed first' rest when list event ahead ready soon =>
    simp only [list, List.head?_cons, Option.mem_def, Option.some.injEq] at first
    subst first
    exact .inl ⟨when, event, soon⟩
  | @waiting first' rest list unscheduled ready waits =>
    simp only [list, List.head?_cons, Option.mem_def, Option.some.injEq] at first
    subst first
    exact .inr ⟨waits, ready⟩

theorem advance (inv : Inv s) {tick : Nat} (forward : s.now ≤ tick) (clock : tick < MaxTick)
    (event : s.queue.sendEvent.all fun when => decide (tick ≤ when)) :
    Inv { s with now := tick } := by
  refine { inv with phase := ?_, clock := clock }
  cases inv.phase with
  | idle empty unscheduled free settled => exact .idle empty unscheduled free settled
  | armed list scheduled ahead ready soon free settled =>
    rw [scheduled, Option.all_some, decide_eq_true_eq] at event
    exact .armed list scheduled event ready (by dsimp only; omega) free settled
  | waiting list unscheduled ready waits owes =>
    exact .waiting list unscheduled (Nat.le_trans ready forward) waits owes

theorem drain (inv : Inv s) : Inv { s with queue := s.queue.drain } := by
  unfold PacketQueue.drain
  split
  · exact inv
  · refine { inv with phase := ?_ }
    cases inv.phase with
    | idle empty unscheduled free settled => exact .idle empty unscheduled free settled
    | armed list event ahead ready soon free settled =>
      exact .armed list event ahead ready soon free settled
    | waiting list unscheduled ready waits owes =>
      exact .waiting list unscheduled ready waits owes

theorem serial_lt (inv : Inv s) {dp : Deferred Pkt} (member : dp ∈ s.queue.transmitList) :
    dp.pkt.serial < s.scheduled.length := by
  have given : dp ∈ s.scheduled :=
    inv.accounted.mem_iff.mp (List.mem_append_right _ member)
  have number : dp.pkt.serial ∈ s.scheduled.map (·.pkt.serial) := List.mem_map_of_mem given
  rw [inv.numbered] at number
  exact List.mem_range.mp number

/-- A packet that is scheduled takes its place and no assertion fails. -/
theorem schedSendTiming (inv : Inv s) {pkt : Pkt} {when : Nat} (send_as_snoop : Bool)
    (future : s.now ≤ when) (limit : when < MaxTick) (plain : isExpressSnoop pkt = false)
    (short : s.queue.transmitList.length < 100) :
    let numbered : Numbered Pkt := { serial := s.scheduled.length, pkt }
    ∃ queue, s.queue.schedSendTiming (fun n => isExpressSnoop n.pkt) s.now numbered when
        send_as_snoop = .ok queue ∧
      Inv { s with
        queue, scheduled := s.scheduled ++ [⟨when, numbered, send_as_snoop⟩] } := by
  intro numbered
  set dp : Deferred Pkt := ⟨when, numbered, send_as_snoop⟩ with packet
  have ticks : s.queue.transmitList.Pairwise fun dp dp' => dp.tick ≤ dp'.tick := by
    apply inv.sorted.imp
    intro dp dp' before
    rcases before with earlier | ⟨same, _⟩ <;> omega
  rw [PacketQueue.schedSendTiming_eq ticks future (by exact plain) short]
  -- Whatever becomes of the event, the packet is placed in the list.
  have placed (queue : PacketQueue (Numbered Pkt))
      (list : queue.transmitList = place (·.tick) dp s.queue.transmitList)
      (phase : Phase { s with queue, scheduled := s.scheduled ++ [dp] }) :
      Inv { s with queue, scheduled := s.scheduled ++ [dp] } := by
    have perm : queue.transmitList.Perm (dp :: s.queue.transmitList) := list ▸ place_perm
    refine ⟨phase, inv.clock, fun dp' member => ?_, ?_, ?_, ?_, inv.due, inv.inOrder⟩
    · rcases List.mem_cons.mp (perm.mem_iff.mp member) with new | old
      · rw [new]
        exact limit
      · exact inv.below dp' old
    · show queue.transmitList.Pairwise Before
      rw [list]
      apply pairwise_place inv.sorted
      · intro a b before
        rcases before with earlier | ⟨same, _⟩ <;> omega
      · intro a member early
        rcases Nat.lt_or_eq_of_le early with earlier | same
        · exact .inl earlier
        · exact .inr ⟨same, inv.serial_lt member⟩
      · intro b member later
        exact .inl later
    · simp [inv.numbered, packet, numbered, List.range_succ]
    · -- The new packet is queued, and the others are where they were.
      show (s.accepted.map (·.packet) ++ queue.transmitList).Perm (s.scheduled ++ [dp])
      apply (perm.append_left _).trans
      apply List.perm_middle.trans
      exact (inv.accounted.cons dp).trans (List.perm_append_singleton dp _).symm
  have listed : (s.queue.placed dp).transmitList = place (·.tick) dp s.queue.transmitList := rfl
  cases inv.phase with
  | idle empty unscheduled free settled =>
    have event : (s.queue.placed dp).schedSendEvent s.now when =
        .ok { s.queue.placed dp with sendEvent := some when } := by
      simp [PacketQueue.schedSendEvent, PacketQueue.schedule, PacketQueue.placed, free,
        unscheduled, Nat.not_lt.mpr future]
    rw [if_pos (by simp [empty]), event]
    refine ⟨_, rfl, placed _ listed ?_⟩
    have list : place (·.tick) dp s.queue.transmitList = [dp] := by
      simp [empty, place]
    exact .armed list rfl future (Nat.le_refl _) (Nat.le_max_right _ _) free settled
  | @armed front rest scheduled list event ahead ready soon free settled =>
    by_cases new : when < front.tick
    · -- The event is moved forward to the new front.
      have moved : (s.queue.placed dp).schedSendEvent s.now when =
          .ok { s.queue.placed dp with sendEvent := some when } := by
        have later : scheduled > when := by omega
        simp [PacketQueue.schedSendEvent, PacketQueue.reschedule, PacketQueue.placed, free, event,
          later, Nat.not_lt.mpr future]
      rw [if_pos (by simp [list, new]), moved]
      refine ⟨_, rfl, placed _ listed ?_⟩
      have first : place (·.tick) dp s.queue.transmitList = dp :: front :: rest := by
        rw [list] at ticks ⊢
        exact place_cons_of_lt new ticks
      exact .armed first rfl future (Nat.le_refl _) (Nat.le_max_right _ _) free settled
    · rw [if_neg (by simp [list, new])]
      have behind : front.tick ≤ dp.tick := Nat.le_of_not_lt new
      obtain ⟨rest', same⟩ := place_cons_of_le (fun dp : Deferred Pkt => dp.tick) rest behind
      refine ⟨_, rfl, placed _ listed ?_⟩
      rw [← list] at same
      exact .armed same event ahead ready soon free settled
  | @waiting front rest list unscheduled ready waits owes =>
    -- A packet for now or later goes behind one that is due.
    have late : ¬when < front.tick := by omega
    rw [if_neg (by simp [list, late])]
    have behind : front.tick ≤ dp.tick := Nat.le_of_not_lt late
    obtain ⟨rest', same⟩ := place_cons_of_le (fun dp : Deferred Pkt => dp.tick) rest behind
    refine ⟨_, rfl, placed _ listed ?_⟩
    rw [← list] at same
    exact .waiting same unscheduled ready waits owes

/-- A send of the first packet succeeds, whether it is accepted or refused. -/
theorem send (inv : Inv s) (accepts : Bool) {front : Deferred Pkt} {rest : List (Deferred Pkt)}
    (list : s.queue.transmitList = front :: rest) (ready : front.tick ≤ s.now) :
    ∃ queue, { s.queue with sendEvent := none }.sendDeferredPacket s.now accepts = .ok queue ∧
      Inv (s.sent queue accepts) := by
  have below := inv.below
  have sorted := inv.sorted
  rw [list] at below
  rw [list, List.pairwise_cons] at sorted
  obtain ⟨queue, sends, waits, given, kept⟩ := PacketQueue.sendDeferredPacket_ok
    (q := { s.queue with sendEvent := none }) accepts list ready rfl inv.clock
    fun next member => below next (List.mem_cons_of_mem _ member)
  refine ⟨queue, sends, ?_⟩
  -- A refused packet stays in front until a retry; an accepted one makes way for the next.
  cases accepts with
  | false =>
    obtain ⟨same, unscheduled⟩ := kept rfl
    have refused : s.sent queue false = { s with queue, owesRetry := true } := rfl
    rw [refused]
    refine { inv with phase := ?_, below := ?_, sorted := ?_, accounted := ?_ }
    · exact .waiting same unscheduled ready waits rfl
    · rw [same]
      exact below
    · rw [same]
      exact List.pairwise_cons.mpr sorted
    · rw [same, ← list]
      exact inv.accounted
  | true =>
    obtain ⟨taken, event⟩ := given rfl
    have accepted : s.sent queue true = { s with
        queue, owesRetry := false
        accepted := s.accepted ++ [{ packet := front, tick := s.now, behind := rest }] } := by
      unfold State.sent
      rw [list]
    rw [accepted]
    refine ⟨?_, inv.clock, ?_, ?_, inv.numbered, ?_, ?_, ?_⟩
    · cases next : rest with
      | nil =>
        rw [next] at taken event
        exact .idle taken event waits rfl
      | cons first others =>
        rw [next] at taken event
        apply Phase.armed taken event _ _ _ waits rfl
        · dsimp only
          omega
        · exact Nat.le_max_left _ _
        · dsimp only
          omega
    · dsimp only
      rw [taken]
      exact fun next member => below next (List.mem_cons_of_mem _ member)
    · dsimp only
      rw [taken]
      exact sorted.2
    · -- The packet moves from the queue to those that were accepted.
      have accounted := inv.accounted
      rw [list] at accounted
      dsimp only
      rw [taken, List.map_append, List.append_assoc]
      exact accounted
    · intro a member
      rcases List.mem_append.mp member with old | new
      · exact inv.due a old
      · rw [List.mem_singleton.mp new]
        exact ready
    · intro a member
      rcases List.mem_append.mp member with old | new
      · exact inv.inOrder a old
      · rw [List.mem_singleton.mp new]
        exact sorted.1

end Inv

/-- No assertion failed, and the invariant holds. -/
def Sound : Except PacketQueueFault (State Pkt) → Prop
  | .error _ => False
  | .ok s => Inv s

/-- An operation keeps the invariant, as long as all ticks are below the one that means none. -/
theorem step_sound {isExpressSnoop : Pkt → Bool} {s t : Except PacketQueueFault (State Pkt)}
    {op : Op Pkt} (sound : Sound s) (taken : step isExpressSnoop MaxTick s op = some t) :
    Sound t := by
  cases s with
  | error fault => cases sound
  | ok s =>
    have inv : Inv s := sound
    cases op with
    | advance tick =>
      simp only [step] at taken
      split at taken
      case isTrue allowed =>
        cases taken
        exact inv.advance allowed.1 allowed.2.1 allowed.2.2
      case isFalse => cases taken
    | schedSendTiming pkt when send_as_snoop =>
      simp only [step] at taken
      split at taken
      case isTrue allowed =>
        obtain ⟨future, limit, plain, short⟩ := allowed
        obtain ⟨queue, placed, after⟩ := inv.schedSendTiming send_as_snoop
          future limit (Bool.eq_false_iff.mpr plain) short
        rw [placed] at taken
        cases taken
        exact after
      case isFalse => cases taken
    | processSendEvent accepts =>
      simp only [step] at taken
      split at taken
      case isTrue fires =>
        -- An event that is scheduled has a packet that is ready when it takes place.
        cases inv.phase with
        | idle empty unscheduled => simp [unscheduled] at fires
        | armed list event ahead ready soon free =>
          rw [event, Option.some.injEq] at fires
          obtain ⟨queue, sends, after⟩ := inv.send accepts list (fires ▸ ready)
          have processed : { s.queue with sendEvent := none }.processSendEvent s.now accepts =
              .ok queue :=
            (if_neg (by simp [free])).trans sends
          rw [processed] at taken
          cases taken
          exact after
        | waiting list unscheduled => simp [unscheduled] at fires
      case isFalse => cases taken
    | retry accepts =>
      simp only [step] at taken
      split at taken
      case isTrue due =>
        cases inv.phase with
        | idle empty unscheduled free settled => simp [settled] at due
        | armed list event ahead ready soon free settled => simp [settled] at due
        | waiting list unscheduled ready waits =>
          obtain ⟨queue, sends, after⟩ := inv.send accepts list ready
          have same : { s.queue with sendEvent := none } = s.queue := by
            rw [← unscheduled]
          rw [same] at sends
          have retried : s.queue.retry s.now accepts = .ok queue :=
            (if_neg (by simp [waits])).trans sends
          rw [retried] at taken
          cases taken
          exact after
      case isFalse => cases taken
    | drain =>
      cases taken
      exact inv.drain

/--
In every run every packet is accepted exactly once or still queued, never before its tick and in
order, no assertion fails, and packets never wait without an event in time or a retry to come.
-/
theorem packets_served (isExpressSnoop : Pkt → Bool) (ops : List (Op Pkt)) :
    Machine.Always (step isExpressSnoop MaxTick) Good (.ok {}) ops := by
  have first : Sound (.ok ({} : State Pkt)) := by
    refine ⟨.idle rfl rfl rfl rfl, ?_, nofun, .nil, rfl, .refl _, nofun, nofun⟩
    show 0 < MaxTick
    decide
  apply Machine.always_of_invariant (I := Sound) _ (fun _ _ _ sound taken =>
    step_sound sound taken) first
  intro s sound
  cases s with
  | error fault => cases sound
  | ok s => exact sound.served

/-- The second of two packets is scheduled for the tick that stands for no tick. -/
def lastTick : List (Op Unit) :=
  [.schedSendTiming () 0 false, .schedSendTiming () MaxTick false, .processSendEvent true]

/-- After the first packet was accepted nothing is scheduled for the second one. -/
theorem last_tick_lost :
    ¬Machine.Always (step (fun _ => false) (MaxTick + 1)) Good (.ok {}) lastTick := by
  intro always
  have lost : (Machine.run (step (fun _ => false) (MaxTick + 1)) (.ok {}) lastTick).any
      (fun s => s.toOption.any fun s => !s.queue.transmitList.isEmpty &&
        s.queue.sendEvent.isNone && !s.queue.waitingOnRetry) = true := by
    decide +kernel
  obtain ⟨s, ran, idle⟩ := (Option.any_eq_true _ _).mp lost
  have served := always.at_end ran
  cases s with
  | error fault => cases served
  | ok s =>
    simp only [Except.toOption, Option.any_some, Bool.and_eq_true, Bool.not_eq_true'] at idle
    obtain ⟨⟨waiting, unscheduled⟩, free⟩ := idle
    cases list : s.queue.transmitList with
    | nil => simp [list] at waiting
    | cons front rest =>
      rcases served.woken front (by simp [list]) with ⟨when, event, _⟩ | ⟨waits, _⟩
      · simp [Option.mem_def.mp event] at unscheduled
      · simp [free] at waits

end PacketQueueRun

end GemDroid
