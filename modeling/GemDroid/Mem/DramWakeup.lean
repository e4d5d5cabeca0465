import GemDroid.Mem.DramServed

/-! The DRAM controller goes on as long as it owes something. -/

namespace GemDroid

open Outcome

theorem DramConfig.writeLowThreshold_lt (config : DramConfig)
    (some_room : 0 < config.writeBufferSize) :
    config.writeLowThreshold < config.writeBufferSize := by
  have below := config.thresholds
  have percent := config.percentage
  have product : config.writeBufferSize * config.writeLowThreshPerc ≤ config.writeBufferSize * 99 :=
    Nat.mul_le_mul_left _ (by omega)
  unfold DramParams.writeLowThreshold
  -- A product that does not fit into 32 bits belongs to a buffer of more than 2 ^ 32 / 100 entries.
  omega

namespace DramCtrl

variable {config : DramConfig} {s t : DramCtrl}

/-- The bus is for writes, or about to be. -/
def Writing (s : DramCtrl) : Prop :=
  s.busState = .readToWrite ∨ s.busState = .write

/-- There is something for the request loop to do. -/
def Busy (config : DramConfig) (s : DramCtrl) : Prop :=
  s.readQueue ≠ [] ∨ config.writeLowThreshold < s.writeQueue.length ∨ s.Writing

/-- The request loop will be run: it is scheduled, or a refresh is under way. -/
def LoopRuns (s : DramCtrl) : Prop :=
  .nextReq ∈ s.agenda.events ∨ s.refreshState ≠ .idle

/-- What the controller owes, without regard to the request loop. -/
structure Owes (config : DramConfig) (s : DramCtrl) : Prop where
  responds : RespondsTo s.respQueue s.agenda
  writes : s.Writing → s.writeQueue ≠ []
  retryRd : s.retryRdReq = true → s.readQueue ≠ [] ∨ s.respQueue ≠ []
  retryWr : s.retryWrReq = true → s.Busy config ∧ 0 < config.writeBufferSize

/-- Whatever the controller owes is seen to by an event. -/
structure Awake (config : DramConfig) (s : DramCtrl) : Prop extends Owes config s where
  loop : s.Busy config → s.LoopRuns

theorem writing_turnBus : (turnBus s).Writing ↔ s.Writing := by
  unfold turnBus Writing
  cases bus : s.busState <;> simp [bus]

theorem busy_turnBus : (turnBus s).Busy config ↔ s.Busy config := by
  have queues := (turnBus_same s).2.1
  unfold Busy
  rw [writing_turnBus, queues]

theorem RespondsTo.of_apart {responses : List DramPacket} {touched : DramEvent → Prop}
    {a b : Agenda DramEvent} (responds : RespondsTo responses a)
      (apart : DramEvent.Apart touched a b)
    (other : ¬touched .respond) : RespondsTo responses b := by
  intro first head
  obtain ⟨scheduled, when⟩ := responds first head
  exact ⟨(apart.scheduled _ other).mpr scheduled, (apart.when _ other).trans when⟩

theorem Quiet.busy (quiet : Quiet s t) : t.Busy config ↔ s.Busy config := by
  unfold Busy Writing
  rw [quiet.queues, quiet.busState]

theorem Owes.quiet (owes : Owes config s) (quiet : Quiet s t) : Owes config t where
  responds first head := by
    rw [quiet.queues] at head
    obtain ⟨scheduled, when⟩ := owes.responds first head
    exact ⟨quiet.respond.1.mpr scheduled, quiet.respond.2.trans when⟩
  writes writing := by
    rw [quiet.queues]
    apply owes.writes
    unfold Writing at writing ⊢
    rwa [quiet.busState] at writing
  retryRd retry := by
    rw [quiet.queues]
    exact owes.retryRd (by rwa [quiet.retryRdReq] at retry)
  retryWr retry := by
    obtain ⟨busy, some_room⟩ := owes.retryWr (by rwa [quiet.retryWrReq] at retry)
    exact ⟨quiet.busy.mpr busy, some_room⟩

theorem Owes.turnBus (owes : Owes config s) : Owes config (turnBus s) := by
  obtain ⟨device, queues, refresh, rdRetry, wrRetry⟩ := turnBus_same s
  refine ⟨?_, ?_, ?_, ?_⟩
  · rw [queues, device]
    exact owes.responds
  · rw [queues, writing_turnBus]
    exact owes.writes
  · rw [queues, rdRetry]
    exact owes.retryRd
  · rw [wrRetry, busy_turnBus]
    exact owes.retryWr

theorem Awake.quiet (awake : Awake config s) (quiet : Quiet s t) : Awake config t where
  toOwes := awake.toOwes.quiet quiet
  loop busy := by
    obtain scheduled | refreshing := awake.loop (quiet.busy.mp busy)
    · exact .inl (quiet.nextReq scheduled)
    · by_cases idle : t.refreshState = .idle
      · exact .inl ((quiet.resumed idle).resolve_left refreshing)
      · exact .inr idle

/-- How much the request loop has to do. -/
def work (s : DramCtrl) : Nat :=
  2 * (s.readQueue.length + s.writeQueue.length) +
    match s.busState with
    | .readToWrite | .write => 0
    | .read | .writeToRead => 1

/-- What a round of the request loop does about what the controller owes. -/
structure GoesOn (config : DramConfig) (s : DramCtrl) (r : DramCtrl × Bool) : Prop where
  awake : Awake config r.1
  /-- A round that has something to do does some of it, and is not the last one. -/
  progress : s.refreshState = .idle → s.Busy config →
    .nextReq ∈ r.1.agenda.events ∧ r.1.work < s.work
  /-- A write that waits is retried, unless the queue is full. -/
  retried : s.refreshState = .idle → s.retryWrReq = true →
    r.2 = true ∧ r.1.retryWrReq = false ∨ config.writeBufferSize ≤ r.1.writeQueue.length

theorem not_writing_of_reading (reading : (turnBus s).busState = .read) : ¬s.Writing := by
  rw [← writing_turnBus]
  simp [Writing, reading]

theorem work_of_reading (reading : (turnBus s).busState = .read) :
    s.work = 2 * (s.readQueue.length + s.writeQueue.length) + 1 := by
  have notWriting := not_writing_of_reading reading
  unfold Writing at notWriting
  unfold work
  cases bus : s.busState <;> simp_all

theorem work_of_writing (writing : (turnBus s).busState = .write) :
    s.work = 2 * (s.readQueue.length + s.writeQueue.length) := by
  have isWriting : s.Writing := writing_turnBus.mp (.inr writing)
  unfold Writing at isWriting
  unfold work
  cases bus : s.busState <;> simp_all

/-- What serving a packet or turning the bus does about what the controller owes. -/
structure Worked (config : DramConfig) (s u : DramCtrl) : Prop where
  responds : RespondsTo u.respQueue u.agenda
  writes : u.Writing → u.writeQueue ≠ []
  retryRd : u.retryRdReq = true → u.readQueue ≠ [] ∨ u.respQueue ≠ []
  retryWr : u.retryWrReq = s.retryWrReq
  less : u.work < s.work
  /-- A queue that is full now is to be emptied. -/
  full : config.writeBufferSize ≤ u.writeQueue.length → 0 < config.writeBufferSize →
    u.Busy config

theorem Work.worked {u : DramCtrl} (work : Work config s u) (owes : Owes config s)
    (room : s.writeQueue.length ≤ config.writeBufferSize) : Worked config s u := by
  obtain ⟨device, queues, refresh, rdRetry, wrRetry⟩ := turnBus_same s
  have readSame : (turnBus s).readQueue = s.readQueue := by rw [queues]
  have writeSame : (turnBus s).writeQueue = s.writeQueue := by rw [queues]
  have respSame : (turnBus s).respQueue = s.respQueue := by rw [queues]
  -- A turn leaves both queues, and a burst takes one packet away from one of them.
  cases work with
  | turn d reading done many same =>
    have before := work_of_reading reading
    refine ⟨?_, ?_, ?_, wrRetry, ?_, fun _ _ => .inr (.inr (.inl rfl))⟩
    · show RespondsTo (turnBus s).respQueue d.agenda
      rw [respSame, same]
      exact owes.responds
    · show _ → (turnBus s).writeQueue ≠ []
      rw [writeSame]
      intro _ empty
      simp [empty] at many
    · show (turnBus s).retryRdReq = true → (turnBus s).readQueue ≠ [] ∨ (turnBus s).respQueue ≠ []
      rw [readSame, respSame, rdRetry]
      exact owes.retryRd
    · show 2 * ((turnBus s).readQueue.length + (turnBus s).writeQueue.length) + 0 < s.work
      rw [readSame, writeSame]
      omega
  | read dram_pkt others readyTime d bus reading perm small apart scheduled first later turned =>
    have before := work_of_reading reading
    have count := perm.length_eq
    rw [List.length_cons] at count
    refine ⟨?_, ?_, fun _ => .inr (by simp), wrRetry, ?_, ?_⟩
    · -- The first response is still the same, unless there was none.
      intro head isHead
      refine ⟨scheduled, ?_⟩
      cases eq : s.respQueue with
      | nil =>
        simp only [eq, List.nil_append, List.head?_cons, Option.mem_some_iff] at isHead
        subst isHead
        exact first eq
      | cons front rest =>
        simp only [eq, List.cons_append, List.head?_cons, Option.mem_some_iff] at isHead
        subst isHead
        exact (later (by simp [eq])).trans (owes.responds front (by simp [eq])).2
    · show bus = .readToWrite ∨ bus = .write → (turnBus s).writeQueue ≠ []
      rw [writeSame]
      obtain rfl | ⟨rfl, many⟩ := turned
      · simp
      · intro _ empty
        simp [empty] at many
    · show 2 * (others.length + (turnBus s).writeQueue.length) + _ < s.work
      rw [writeSame]
      obtain rfl | ⟨rfl, -⟩ := turned
      · dsimp only
        omega
      · dsimp only
        omega
    · intro full some_room
      have low := config.writeLowThreshold_lt some_room
      exact .inr (.inl (Nat.lt_of_lt_of_le low full))
  | write dram_pkt others d bus count writing perm same turned =>
    have before := work_of_writing writing
    have count := perm.length_eq
    rw [List.length_cons] at count
    refine ⟨?_, ?_, ?_, wrRetry, ?_, ?_⟩
    · show RespondsTo (turnBus s).respQueue d.agenda
      rw [respSame]
      exact owes.responds.of_apart same (by simp [DramEvent.IsCommand])
    · show bus = .readToWrite ∨ bus = .write → others ≠ []
      obtain ⟨-, left⟩ | rfl := turned
      · exact fun _ => left
      · simp
    · show (turnBus s).retryRdReq = true → (turnBus s).readQueue ≠ [] ∨ (turnBus s).respQueue ≠ []
      rw [readSame, respSame, rdRetry]
      exact owes.retryRd
    · show 2 * ((turnBus s).readQueue.length + others.length) + _ < s.work
      rw [readSame]
      obtain ⟨rfl, -⟩ | rfl := turned
      · dsimp only
        omega
      · dsimp only
        omega
    · intro full some_room
      have full : config.writeBufferSize ≤ others.length := full
      omega

theorem Busy.grow (busy : s.Busy config) (reads : s.readQueue ≠ [] → t.readQueue ≠ [])
    (writes : s.writeQueue.length ≤ t.writeQueue.length) (bus : t.busState = s.busState) :
    t.Busy config := by
  obtain some_read | many | writing := busy
  · exact .inl (reads some_read)
  · exact .inr (.inl (Nat.lt_of_lt_of_le many writes))
  · refine .inr (.inr ?_)
    unfold Writing at writing ⊢
    rwa [bus]

theorem Owes.grow (owes : Owes config s) (responses : t.respQueue = s.respQueue)
    (responds : RespondsTo s.respQueue t.agenda) (reads : s.readQueue ≠ [] → t.readQueue ≠ [])
    (writes : s.writeQueue.length ≤ t.writeQueue.length) (bus : t.busState = s.busState)
    (rdRetry : t.retryRdReq = s.retryRdReq) (wrRetry : t.retryWrReq = s.retryWrReq) :
    Owes config t where
  responds := by rwa [responses]
  writes writing := by
    have waiting := owes.writes (by
      unfold Writing at writing ⊢
      rwa [bus] at writing)
    intro empty
    rw [empty, List.length_nil, Nat.le_zero, List.length_eq_zero_iff] at writes
    exact waiting writes
  retryRd retry := by
    rw [responses]
    exact (owes.retryRd (rdRetry ▸ retry)).imp_left reads
  retryWr retry := by
    obtain ⟨busy, some_room⟩ := owes.retryWr (wrRetry ▸ retry)
    exact ⟨busy.grow reads writes bus, some_room⟩

theorem Awake.external {agenda : Agenda DramEvent} (awake : Awake config s)
    (apart : DramEvent.Apart DramEvent.IsExternal s.agenda agenda) :
    Awake config { s with agenda } := by
  apply awake.quiet
  exact Quiet.of_apart { s.toDramDevice with agenda } s.toDramRefresh apart
    (by simp [DramEvent.IsExternal]) (by simp [DramEvent.IsExternal]) id

end DramCtrl

namespace DramCtrl

variable {config : DramConfig} {s t : DramCtrl}

theorem Quiet.work (quiet : Quiet s t) : t.work = s.work := by
  unfold DramCtrl.work
  rw [quiet.queues, quiet.busState]

/-- The first event was taken off the queue. -/
structure Popped (event : DramEvent) (s c : DramCtrl) : Prop where
  first : s.agenda.events = event :: c.agenda.events
  when : c.agenda.when = s.agenda.when
  rest : c = { s with agenda := c.agenda }

/-- What an event does about what the controller owes. -/
structure Handled (config : DramConfig) (event : DramEvent) (s : DramCtrl) (r : DramCtrl × Bool) :
    Prop where
  awake : Awake config r.1
  less : r.1.work ≤ s.work
  resumed : s.refreshState ≠ .idle → r.1.refreshState = .idle → .nextReq ∈ r.1.agenda.events
  answered : event = .respond → r.2 = s.retryRdReq ∧ r.1.retryRdReq = false
  round : event = .nextReq → GoesOn config s r

theorem Awake.popped {event : DramEvent} {c : DramCtrl} (awake : Awake config s)
    (popped : Popped event s c) (notLoop : event ≠ .nextReq) (notRespond : event ≠ .respond) :
    Awake config c := by
  obtain ⟨first, when, rest⟩ := popped
  apply awake.quiet
  rw [rest]
  refine ⟨rfl, rfl, rfl, rfl, ⟨?_, by rw [when]⟩, ?_, .inl⟩
  · show .respond ∈ c.agenda.events ↔ _
    rw [first, List.mem_cons]
    simp [notRespond.symm]
  · intro scheduled
    rw [first, List.mem_cons] at scheduled
    exact scheduled.resolve_left notLoop.symm

end DramCtrl

namespace DramSystem

variable {config : DramConfig} {s t start : DramSystem} {ops : List DramOp}

/-- The next step is a round of the request loop, outside of a refresh. -/
def RoundDue (s : DramSystem) : Prop :=
  s.ctrl.agenda.events.head? = some .nextReq ∧ s.ctrl.refreshState = .idle

instance : Decidable s.RoundDue :=
  inferInstanceAs (Decidable (_ ∧ _))

/-- The number of rounds of the request loop in a run, outside of refreshes. -/
def rounds (config : DramConfig) : DramSystem → List DramOp → Nat
  | _, [] => 0
  | s, op :: ops =>
    (if s.RoundDue then 1 else 0) +
      match s.next config op with
      | some t => rounds config t ops
      | none => 0

end DramSystem

end GemDroid
