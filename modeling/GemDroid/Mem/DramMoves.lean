import GemDroid.Mem.DramQueues

/-! What each event handler of the DRAM controller does to its queues and to its loops. -/

namespace GemDroid.DramCtrl

open Outcome

variable {config : DramConfig} {s t : DramCtrl}

/-- What the rest of the system leaves as it is, whatever it does. -/
structure Joins (s t : DramCtrl) : Prop where
  device : t.toDramDevice = { s.toDramDevice with agenda := t.agenda }
  refresh : t.toDramRefresh = s.toDramRefresh
  apart : DramEvent.Apart (fun e => e.IsExternal ∨ e = .nextReq) s.agenda t.agenda
  first : DramEvent.LoopFirst s.agenda t.agenda

theorem Joins.of_external {queues : DramQueues} {agenda : Agenda DramEvent}
    (apart : DramEvent.Apart DramEvent.IsExternal s.agenda agenda) :
    Joins s { s with agenda, toDramQueues := queues } where
  device := rfl
  refresh := rfl
  apart := apart.mono fun _ => Or.inl
  first unscheduled scheduled := absurd
    ((apart.scheduled _ (by simp [DramEvent.IsExternal])).mp scheduled) unscheduled

theorem Joins.refl (s : DramCtrl) : Joins s s :=
  Joins.of_external (Agenda.Apart.refl _)

/-- The response event is scheduled for the first response. -/
def RespondsTo (responses : List DramPacket) (agenda : Agenda DramEvent) : Prop :=
  ∀ first ∈ responses.head?, .respond ∈ agenda.events ∧ agenda.when .respond = first.readyTime

/-- What a handler that does not serve packets leaves as it is. -/
structure Quiet (s t : DramCtrl) : Prop where
  queues : t.toDramQueues = s.toDramQueues
  retryRdReq : t.retryRdReq = s.retryRdReq
  retryWrReq : t.retryWrReq = s.retryWrReq
  busState : t.busState = s.busState
  respond : (.respond ∈ t.agenda.events ↔ .respond ∈ s.agenda.events) ∧
    t.agenda.when .respond = s.agenda.when .respond
  nextReq : .nextReq ∈ s.agenda.events → .nextReq ∈ t.agenda.events
  /-- A refresh ends with the request loop being scheduled. -/
  resumed : t.refreshState = .idle → s.refreshState = .idle ∨ .nextReq ∈ t.agenda.events

theorem Quiet.of_apart {touched : DramEvent → Prop} (d : DramDevice) (refresh : DramRefresh)
    (apart : DramEvent.Apart touched s.agenda d.agenda) (loop : ¬touched .nextReq)
    (responses : ¬touched .respond)
    (busy : refresh.refreshState = .idle → s.refreshState = .idle) :
    Quiet s { s with toDramDevice := d, toDramRefresh := refresh } where
  queues := rfl
  retryRdReq := rfl
  retryWrReq := rfl
  busState := rfl
  respond := ⟨apart.scheduled _ responses, apart.when _ responses⟩
  nextReq := (apart.scheduled _ loop).mpr
  resumed is := .inl (busy is)

theorem Quiet.refl (s : DramCtrl) : Quiet s s :=
  ⟨rfl, rfl, rfl, rfl, ⟨Iff.rfl, rfl⟩, id, .inl⟩

theorem Quiet.trans {u : DramCtrl} (first : Quiet s t) (second : Quiet t u) : Quiet s u where
  queues := second.queues.trans first.queues
  retryRdReq := second.retryRdReq.trans first.retryRdReq
  retryWrReq := second.retryWrReq.trans first.retryWrReq
  busState := second.busState.trans first.busState
  respond := ⟨second.respond.1.trans first.respond.1, second.respond.2.trans first.respond.2⟩
  nextReq was := second.nextReq (first.nextReq was)
  resumed is := by
    obtain idle | scheduled := second.resumed is
    · obtain idle' | scheduled := first.resumed idle
      · exact .inl idle'
      · exact .inr (second.nextReq scheduled)
    · exact .inr scheduled

/-- The events that serving a read touches. -/
def ReadTouches (event : DramEvent) : Prop :=
  event.IsCommand ∨ event = .respond

/-- What the request loop does before it comes back: it serves a packet or turns the bus. -/
inductive Work (config : DramConfig) (s : DramCtrl) : DramCtrl → Prop
  | turn (d : DramDevice) (reading : (turnBus s).busState = .read) (done : s.readQueue = [])
      (many : config.writeLowThreshold < s.writeQueue.length) (same : d.agenda = s.agenda) :
      Work config s { turnBus s with toDramDevice := d, busState := .readToWrite }
  | read (dram_pkt : DramPacket) (others : List DramPacket) (readyTime : Nat) (d : DramDevice)
      (bus : BusState) (reading : (turnBus s).busState = .read)
      (perm : s.readQueue.Perm (dram_pkt :: others)) (small : dram_pkt.size ≤ config.burstSize)
      (apart : DramEvent.Apart ReadTouches s.agenda d.agenda)
      (scheduled : .respond ∈ d.agenda.events)
      (first : s.respQueue = [] → d.agenda.when .respond = readyTime)
      (later : s.respQueue ≠ [] → d.agenda.when .respond = s.agenda.when .respond)
      (turned : bus = .read ∨
        bus = .readToWrite ∧ config.writeHighThreshold < s.writeQueue.length) :
      Work config s { turnBus s with
        toDramDevice := d
        readQueue := others
        respQueue := s.respQueue ++ [{ dram_pkt with readyTime }]
        busState := bus }
  | write (dram_pkt : DramPacket) (others : List DramPacket) (d : DramDevice) (bus : BusState)
      (count : Nat) (writing : (turnBus s).busState = .write)
      (perm : s.writeQueue.Perm (dram_pkt :: others))
      (same : DramDevice.SameLoops s.toDramDevice d)
      (turned : bus = .write ∧ others ≠ [] ∨ bus = .writeToRead) :
      Work config s { turnBus s with
        toDramDevice := d
        writeQueue := others
        busState := bus
        writesThisTime := count }

/-- What one round of the request loop does; says whether the port is to retry. -/
inductive Round (config : DramConfig) (s : DramCtrl) : DramCtrl × Bool → Prop
  /-- A refresh is under way. -/
  | refreshing (t : DramCtrl) (busy : s.refreshState ≠ .idle) (quiet : Quiet (turnBus s) t)
      (still : t.refreshState ≠ .idle) : Round config s (t, false)
  /-- There is nothing to do, and the loop stops. -/
  | stop (idle : s.refreshState = .idle) (reading : (turnBus s).busState = .read)
      (done : s.readQueue = []) (few : s.writeQueue.length ≤ config.writeLowThreshold) :
      Round config s (turnBus s, false)
  | work (u : DramCtrl) (agenda : Agenda DramEvent) (idle : s.refreshState = .idle)
      (worked : Work config s u) (apart : DramEvent.Apart (· = .nextReq) u.agenda agenda)
      (scheduled : .nextReq ∈ agenda.events) (sends : Bool)
      (asked : sends = (u.retryWrReq && decide (u.writeQueue.length < config.writeBufferSize))) :
      Round config s ({ u with agenda, retryWrReq := u.retryWrReq && !sends }, sends)

theorem turnBus_same (s : DramCtrl) :
    (turnBus s).toDramDevice = s.toDramDevice ∧ (turnBus s).toDramQueues = s.toDramQueues ∧
      (turnBus s).toDramRefresh = s.toDramRefresh ∧ (turnBus s).retryRdReq = s.retryRdReq ∧
      (turnBus s).retryWrReq = s.retryWrReq := by
  unfold turnBus
  split <;> exact ⟨rfl, rfl, rfl, rfl, rfl⟩

end GemDroid.DramCtrl
