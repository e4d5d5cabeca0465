import GemDroid.Lib.Run
import GemDroid.Ruby.MIExampleDirectory

/-! Runs of the MI example protocol for one block, with and without DMA controllers. -/

namespace GemDroid

open Function (update update_of_ne update_self)

namespace MIExample

variable {Cache Dma : Type} [DecidableEq Cache] [DecidableEq Dma] {ledger : Ledger Dma}

/-- The state of a DMA controller whose sequencer has sent a request. -/
def SequencerRequestType.busy : SequencerRequestType → DMA.State
  | .LD => .BUSY_RD
  | .ST => .BUSY_WR

/-- A controller has a new request at the block. -/
def Ledger.request (ledger : Ledger Dma) (d : Dma) (type : SequencerRequestType) : Ledger Dma :=
  { ledger with
    dma := update ledger.dma d type.busy
    flight := fun x => x = d ∨ ledger.flight x }

/-- A controller has its answer from the block. -/
def Ledger.answer (ledger : Ledger Dma) (d : Dma) (type : DMAResponseType) : Ledger Dma :=
  { ledger with
    dma := update ledger.dma d .READY
    flight := fun x => x ≠ d ∧ ledger.flight x
    count := update ledger.count d (ledger.count d + type.applications) }

namespace System

theorem dma_request_eq {s : System Cache Dma} {d : Dma} {m : SequencerMsg}
    (ready : s.dma d = .READY) : ∃ type : DMARequestType,
    (type = .READ ↔ m.type = .LD) ∧ type.busy = m.type.busy ∧
    s.perform (.dmaRequest d m) = some (.ok { s.sendDmaRequest d type m with
      dma := update s.dma d m.type.busy }) := by
  cases kind : m.type with
  | LD =>
    refine ⟨.READ, by simp, rfl, ?_⟩
    simp [perform, ready, kind, sequencerEvent, dmaTrigger, DMA.transition, dmaPerform,
      sendDmaRequest, bind, Except.bind, pure, Except.pure, SequencerRequestType.busy]
  | ST =>
    refine ⟨.WRITE, by simp, rfl, ?_⟩
    simp [perform, ready, kind, sequencerEvent, dmaTrigger, DMA.transition, dmaPerform,
      sendDmaRequest, bind, Except.bind, pure, Except.pure, SequencerRequestType.busy]

omit [DecidableEq Cache] in
theorem dma_response_eq {s : System Cache Dma} {d : Dma} {n : Nat} {msg : DMAResponseMsg}
    (busy : s.dma d = msg.type.busy) :
    s.dmaTrigger d { response := some (n, msg) } (answerEvent msg.type) = some (.ok { s with
      dmaResponses := update s.dmaResponses d ((s.dmaResponses d).eraseIdx n)
      dma := update s.dma d .READY }) := by
  cases kind : msg.type <;>
    simp [kind, busy, answerEvent, dmaTrigger, DMA.transition, dmaPerform, bind, Except.bind,
      pure, Except.pure, DMAResponseType.busy]

end System

variable {data : Prop} {s : System Cache Dma} {d : Dma} {msg : DMAResponseMsg}
  {r : Except Fault (System Cache Dma)} {op : System.Op Cache Dma}

omit [DecidableEq Cache] [DecidableEq Dma] in
theorem DmaFits.of_ready (fits : DmaFits data ledger s d) (ready : s.dma d = .READY) :
    s.dmaRequests d = [] ∧ s.dmaResponses d = [] ∧
      (∀ msg, s.dir.pending = some msg → msg.requestor ≠ d) ∧ ¬ledger.flight d ∧
      s.applied d = ledger.count d := by
  cases fits with
  | quiet requests responses elsewhere away counted =>
    exact ⟨requests, responses, elsewhere, away, counted⟩
  | asked msg' _ _ _ requested | pending msg' _ _ _ requested =>
    have busy := ready.symm.trans requested.busy
    cases at_msg : msg'.type <;> rw [at_msg] at busy <;> cases busy
  | answered msg' _ _ _ answered =>
    have busy := ready.symm.trans answered.busy
    cases at_msg : msg'.type <;> rw [at_msg] at busy <;> cases busy

/-- A DMA controller sends the request of its sequencer. -/
theorem Sound.dmaRequest (sound : Sound data ledger s) {msg : SequencerMsg}
    (wants : data → msg.type = .ST →
      Wants s.blockSize (s.wanted d) msg.physicalAddress msg.len msg.dataBlk)
    (taken : s.perform (.dmaRequest d msg) = some r) :
    ∃ s', r = .ok s' ∧ Sound data (ledger.request d msg.type) s' := by
  have ready : s.dma d = .READY := by
    by_contra busy
    simp [System.perform, busy] at taken
  obtain ⟨type, kind, busy, result⟩ := System.dma_request_eq (m := msg) ready
  obtain rfl := Option.some.inj (result.symm.trans taken)
  obtain ⟨phase, blk, inv, agree⟩ := sound.coherent
  refine ⟨_, rfl, ⟨phase, blk, ⟨inv.fits, inv.owner, inv.one, inv.next, inv.nextOne,
    inv.invalidated, inv.settled⟩, agree⟩, sound.loads, ?_, sound.size, ?_⟩
  swap
  · simp only [Ledger.request, sound.controllers]
  intro x
  by_cases here : x = d
  · subst here
    obtain ⟨no_request, no_response, elsewhere, -, counted⟩ := (sound.dma x).of_ready ready
    refine .asked ⟨type, msg.physicalAddress, x, msg.dataBlk, msg.len⟩ ?_ no_response elsewhere
      ⟨rfl, (update_self ..).trans busy.symm, ?_, .inl rfl, counted⟩
    · simp [System.sendDmaRequest, no_request]
    · intro right write
      refine wants right ?_
      cases at_msg : msg.type with
      | ST => rfl
      | LD =>
        rw [show type = .READ from kind.mpr at_msg] at write
        cases write
  · refine (sound.dma x).of_unnoticed ?_
    constructor <;> simp [Ledger.request, System.sendDmaRequest, here]

omit [DecidableEq Cache] [DecidableEq Dma] in
theorem DmaFits.of_response {n : Nat} (fits : DmaFits data ledger s d)
    (found : (s.dmaResponses d)[n]? = some msg) :
    n = 0 ∧ s.dmaRequests d = [] ∧ s.dmaResponses d = [msg] ∧
      (∀ msg, s.dir.pending = some msg → msg.requestor ≠ d) ∧
      Answered data ledger s d msg := by
  cases fits with
  | quiet _ none' | asked _ _ none' _ _ | pending _ _ none' _ _ =>
    rw [none'] at found
    cases found
  | answered msg' requests responses elsewhere answered =>
    rw [responses] at found
    cases n with
    | succ n => cases found
    | zero =>
      obtain rfl := Option.some.inj found
      exact ⟨rfl, requests, responses, elsewhere, answered⟩

omit [DecidableEq Cache] in
theorem Sound.answer (sound : Sound data ledger s) {n : Nat}
    (found : (s.dmaResponses d)[n]? = some msg) :
    ∃ s', s.dmaTrigger d { response := some (n, msg) } (System.answerEvent msg.type) =
      some (.ok s') ∧ s'.served = s.served ∧ Sound data (ledger.answer d msg.type) s' := by
  obtain ⟨rfl, requests, responses, elsewhere, answered⟩ := (sound.dma d).of_response found
  have triggered := System.dma_response_eq answered.busy (n := 0)
  obtain ⟨phase, blk, inv, agree⟩ := sound.coherent
  refine ⟨_, triggered, rfl, ⟨phase, blk, ⟨inv.fits, inv.owner, inv.one, inv.next, inv.nextOne,
    inv.invalidated, inv.settled⟩, agree⟩, sound.loads, ?_, sound.size, ?_⟩
  swap
  · simp only [Ledger.answer, sound.controllers]
  intro x
  by_cases here : x = d
  · subst here
    refine .quiet requests ?_ elsewhere (fun flying => flying.1 rfl) ?_
    · simp [responses]
    · simp only [Ledger.answer, update_self]
      exact answered.counted
  · refine (sound.dma x).of_unnoticed ?_
    constructor <;> simp [Ledger.answer, here]

theorem Sound.dmaResponse (sound : Sound data ledger s) {n : Nat}
    (found : (s.dmaResponses d)[n]? = some msg) (taken : s.perform (.dmaResponse d n) = some r) :
    ∃ s', r = .ok s' ∧ Sound data (ledger.answer d msg.type) s' := by
  obtain ⟨s', triggered, -, sound'⟩ := sound.answer found
  simp only [System.perform, found, Option.bind_some, triggered, Option.some.injEq] at taken
  exact ⟨s', taken.symm, sound'⟩

namespace System

/-- The block is at the directory, and no cache has anything to do with it. -/
def start (blockSize : Nat) (dataBlk : DataBlock) : System Cache Dma :=
  { blockSize, dir := { dataBlk }, latest := dataBlk }

/-- The directory has a transition for what it is given. -/
def Timely (s : System Cache Dma) : Op Cache Dma → Prop
  | .request c n => ∀ msg, (s.requests c)[n]? = some msg → ¬s.Untimely msg
  | .dmaServe _ _ => ¬s.dir.getState.recalling
  | _ => True

/-- What a DMA write puts into the block is what was asked for, and nothing else. -/
def Faithful (s : System Cache Dma) : Op Cache Dma → Prop
  | .memory _ => s.dir.getState = .M_DWRI → s.Covers
  | .dmaRequest d msg => msg.type = .ST →
    Wants s.blockSize (s.wanted d) msg.physicalAddress msg.len msg.dataBlk
  | _ => True

/-- A cache, a TBE or a message under way has the block. -/
def Held (s : System Cache Dma) : Prop :=
  (∃ c, (s.l1 c).getState = .M ∨ (s.l1 c).getState = .MI ∨ (s.l1 c).getState = .MII ∨
    s.responses c ≠ []) ∨ s.dir.getState = .MI

/-- What the caches and the memory promise each other. -/
structure Coherent (s : System Cache Dma) : Prop where
  one : ∀ c c', (s.l1 c).getState = .M → (s.l1 c').getState = .M → c = c'
  loads : ∀ load ∈ s.loads, Agree s.blockSize load.1 load.2
  memory : ¬s.Held → Agree s.blockSize s.dir.dataBlk s.latest

end System

/-- Nothing is known of any request. -/
def Ledger.start (blockSize : Nat) : Ledger Dma :=
  { blockSize, dma := fun _ => .READY, flight := fun _ => False, count := fun _ => 0 }

omit [DecidableEq Cache] [DecidableEq Dma] in
theorem sound_start (data : Prop) (blockSize : Nat) (dataBlk : DataBlock) :
    Sound data (.start blockSize) (System.start blockSize dataBlk : System Cache Dma) := by
  refine ⟨⟨fun _ => .idle, dataBlk, ⟨?_, ?_, ?_, ?_, ?_, ?_, ?_⟩, fun _ i _ => rfl⟩, ?_, ?_,
    rfl, rfl⟩
  · exact fun c => ⟨.empty none, rfl, rfl, rfl⟩
  · exact fun c => iff_of_false (Finset.notMem_empty c) id
  · exact fun c c' held => absurd held id
  · exact fun c r leads => by cases leads
  · exact fun c c' r leads => by cases leads
  · exact fun c invalid => absurd invalid id
  · exact .I (fun c => id) rfl rfl
  · exact fun _ load member => by cases member
  · exact fun d => .quiet rfl rfl (fun msg pending => by cases pending) id rfl

theorem Sound.perform (sound : Sound data ledger s) (timely : s.Timely op)
    (faithful : data → s.Faithful op) (not_request : ∀ d msg, op ≠ .dmaRequest d msg)
    (not_response : ∀ d n, op ≠ .dmaResponse d n) (taken : s.perform op = some r) :
    ∃ s', r = .ok s' ∧ Sound data ledger s' := by
  cases op with
  | access c a => exact sound.access taken
  | replacement c => exact sound.replacement taken
  | forwarded c => exact sound.forwarded taken
  | response c n => exact sound.response taken
  | request c n => exact sound.request timely taken
  | memory n => exact sound.memory faithful taken
  | dmaRequest d msg => exact absurd rfl (not_request d msg)
  | dmaServe d n => exact sound.dmaServe timely taken
  | dmaResponse d n => exact absurd rfl (not_response d n)

theorem Sound.step (sound : ∃ ledger, Sound data ledger s) (timely : s.Timely op)
    (faithful : data → s.Faithful op) (taken : s.perform op = some r) :
    ∃ s', r = .ok s' ∧ ∃ ledger, Sound data ledger s' := by
  obtain ⟨ledger, sound⟩ := sound
  by_cases request : ∃ d msg, op = .dmaRequest d msg
  · obtain ⟨d, msg, rfl⟩ := request
    obtain ⟨s', result, sound'⟩ := sound.dmaRequest faithful taken
    exact ⟨s', result, _, sound'⟩
  · by_cases response : ∃ d n, op = .dmaResponse d n
    · obtain ⟨d, n, rfl⟩ := response
      obtain ⟨msg, found, -⟩ := Option.bind_eq_some_iff.mp taken
      obtain ⟨s', result, sound'⟩ := sound.dmaResponse found taken
      exact ⟨s', result, _, sound'⟩
    · obtain ⟨s', result, sound'⟩ := sound.perform timely faithful
        (fun d msg same => request ⟨d, msg, same⟩) (fun d n same => response ⟨d, n, same⟩) taken
      exact ⟨s', result, _, sound'⟩

omit [DecidableEq Cache] in
theorem Phase.Machine.holding_of_modified {blk : DataBlock} {p : Phase Cache}
    {m : L1Cache.Machine} (fits : p.Machine blk m) (modified : m.getState = .M) :
    ∃ st, p = .holding st := by
  by_contra not_holding
  by_cases idle : p = .idle
  · subst idle
    rw [fits.idle.2] at modified
    cases modified
  · have busy := fits.busy idle fun st here => not_holding ⟨st, here⟩
    rw [modified] at busy
    obtain busy | busy | busy | busy := busy <;> cases busy

omit [DecidableEq Cache] in
theorem Phase.Machine.holds_of_modified {blk : DataBlock} {p : Phase Cache} {m : L1Cache.Machine}
    (fits : p.Machine blk m) (modified : m.getState = .M) : p.Holds := by
  obtain ⟨st, rfl⟩ := fits.holding_of_modified modified
  trivial

omit [DecidableEq Cache] [DecidableEq Dma] in
theorem Consistent.held {phase : Cache → Phase Cache} {blk : DataBlock}
    (inv : Consistent phase blk s) {c : Cache} (held : (phase c).Holds) : s.Held := by
  obtain ⟨machine, -, -, responses⟩ := inv.fits c
  simp only [System.station] at machine responses
  refine .inl ⟨c, ?_⟩
  cases at_c : phase c with
  | arriving st =>
    rw [at_c] at responses
    simp [responses, Phase.responses]
  | holding st =>
    rw [at_c] at machine
    obtain ⟨request, machine⟩ := machine
    exact .inl (by simp [machine, L1Cache.Machine.getState])
  | evicting st | surrendered r =>
    rw [at_c] at machine
    obtain ⟨request, machine⟩ := machine
    exact .inr (.inl (by simp [machine, L1Cache.Machine.getState]))
  | _ =>
    rw [at_c] at held
    exact absurd held id

omit [DecidableEq Cache] [DecidableEq Dma] in
theorem Sound.coherence (sound : Sound True ledger s) : s.Coherent := by
  obtain ⟨phase, blk, inv, agree⟩ := sound.coherent
  refine ⟨?_, sound.loads trivial, ?_⟩
  · intro c c' modified modified'
    exact inv.one c c' ((inv.fits c).machine.holds_of_modified modified)
      ((inv.fits c').machine.holds_of_modified modified')
  · intro free
    cases inv.settled with
    | I _ dir_eq | IM _ _ _ _ dir_eq | ID _ _ _ dir_eq | ID_W _ _ _ dir_eq
    | recalled _ _ _ _ _ _ _ dir_eq =>
      rw [dir_eq]
      exact agree trivial
    | MI _ _ _ _ _ dir_eq tbe_eq =>
      exact absurd (.inr (by simp [Directory.Machine.getState, dir_eq, tbe_eq])) free
    | M _ _ held | recalling _ _ _ _ _ held =>
      obtain ⟨c, held⟩ := held
      exact absurd (inv.held held) free

omit [DecidableEq Cache] [DecidableEq Dma] in
theorem Sound.not_recalling [IsEmpty Dma]
    (sound : Sound data ledger s) : ¬s.dir.getState.recalling := by
  obtain ⟨phase, blk, inv, -⟩ := sound.coherent
  cases inv.settled with
  | I _ dir_eq | M _ _ _ dir_eq | IM _ _ _ _ dir_eq =>
    simp [Directory.Machine.getState, dir_eq, Directory.State.recalling]
  | MI _ _ _ _ _ dir_eq tbe_eq =>
    simp [Directory.Machine.getState, dir_eq, tbe_eq, Directory.State.recalling]
  | ID d | ID_W d | recalling _ d | recalled _ d => exact isEmptyElim d

/--
Without DMA controllers there is at most one modified copy, loads return what was stored last, the
directory has it when nobody else does, and every event has its transition.
-/
theorem coherent_without_dma {Cache : Type} [DecidableEq Cache] (blockSize : Nat)
    (dataBlk : DataBlock) (ops : List (System.Op Cache Empty)) :
    Machine.Always System.step (fun st => ∃ s, st = .ok s ∧ s.Coherent)
      (.ok (System.start blockSize dataBlk)) ops := by
  refine Machine.always_of_invariant (I := fun st => ∃ s, st = .ok s ∧ ∃ ledger,
    Sound True ledger s) ?_ ?_
    ⟨_, rfl, _, sound_start True blockSize dataBlk⟩
  · rintro _ ⟨s, rfl, ledger, sound⟩
    exact ⟨s, rfl, sound.coherence⟩
  · rintro _ op t ⟨s, rfl, ledger, sound⟩ taken
    have calm := sound.not_recalling
    refine Sound.step ⟨ledger, sound⟩ ?_ ?_ taken
    · cases op with
      | request c n => exact fun msg _ untimely => calm untimely.2.2
      | dmaServe d n => exact isEmptyElim d
      | _ => trivial
    · intro _
      cases op with
      | memory n => exact fun state => absurd (.inr (.inr (.inr state))) calm
      | dmaRequest d msg => exact isEmptyElim d
      | _ => trivial

/-- No message is under way. -/
def System.Quiet (s : System Cache Dma) : Prop :=
  (∀ c, s.requests c = [] ∧ s.forward c = [] ∧ s.responses c = []) ∧ s.memQueue = []

/-- No cache waits for data, and the directory or its one owner has what was stored last. -/
def System.AtRest (s : System Cache Dma) : Prop :=
  (∀ c, (s.l1 c).getState ∈ [.I, .M, .MI]) ∧
    (s.dir.getState = .I ∧ (∀ c, (s.l1 c).getState ≠ .M) ∧
        Agree s.blockSize s.dir.dataBlk s.latest ∨
      s.dir.getState = .M ∧ ∃ o entry, s.dir.owner = {o} ∧ (s.l1 o).getState = .M ∧
        (s.l1 o).entry = some entry ∧ Agree s.blockSize entry.dataBlk s.latest)

omit [DecidableEq Cache] [DecidableEq Dma] in
theorem Consistent.quiet {phase : Cache → Phase Cache} {blk : DataBlock}
    (inv : Consistent phase blk s) (quiet : s.Quiet) (c : Cache) :
    phase c = .idle ∨ (∃ st, phase c = .holding st ∧ (phase c).Owns) ∨
      (∃ st, phase c = .awaits st ∧ (phase c).Owns) ∨ ∃ i, phase c = .acked i := by
  obtain ⟨-, requests, forward, responses⟩ := inv.fits c
  obtain ⟨noRequest, noForward, noResponse⟩ := quiet.1 c
  simp only [System.station, noRequest, noForward, noResponse] at requests forward responses
  generalize phase c = p at *
  cases p with
  | idle => simp
  | asked | evicting | refused => cases requests
  | arriving => cases responses
  | surrendered | refusing | acking => simp [Phase.forward] at forward
  | acked => simp
  | awaits st | holding st => cases st with
    | forwarded => cases forward
    | owner => simp [Phase.Owns]

omit [DecidableEq Cache] [DecidableEq Dma] in
theorem Sound.atRest [IsEmpty Dma] (sound : Sound True ledger s) (quiet : s.Quiet) : s.AtRest := by
  obtain ⟨phase, blk, inv, agree⟩ := sound.coherent
  have machine (c : Cache) : (phase c).Machine blk (s.l1 c) := (inv.fits c).machine
  have owner (c : Cache) (owns : (phase c).Owns) : c ∈ s.dir.owner := (inv.owner c).mpr owns
  have states (noneWaits : ∀ c st, phase c = .awaits st → ¬(phase c).Owns) (c : Cache) :
      (s.l1 c).getState ∈ [.I, .M, .MI] := by
    have machine := machine c
    obtain p | ⟨st, p, -⟩ | ⟨st, p, owns⟩ | ⟨i, p⟩ := inv.quiet quiet c
    · rw [p] at machine
      simp [machine.idle.2]
    · obtain ⟨request, machine⟩ := p ▸ machine
      simp [machine, L1Cache.Machine.getState]
    · exact absurd owns (noneWaits c st p)
    · obtain ⟨tbe, request, machine, state⟩ := p ▸ machine
      simp [machine, L1Cache.Machine.getState, state]
  cases inv.settled with
  | I free dir_eq =>
    refine ⟨states fun c st _ owns => ?_, .inl ⟨by simp [dir_eq, Directory.Machine.getState],
      fun c modified => free c ((machine c).holds_of_modified modified), dir_eq ▸ agree trivial⟩⟩
    simpa [dir_eq] using owner c owns
  | M o _ held dir_eq =>
    simp only [dir_eq, Finset.mem_singleton] at owner
    obtain ⟨h, held⟩ := held
    obtain ⟨st, holding, owns⟩ : ∃ st, phase h = .holding st ∧ (phase h).Owns := by
      obtain p | p | ⟨st, p, -⟩ | ⟨i, p⟩ := inv.quiet quiet h
      · exact (p ▸ held).elim
      · exact p
      all_goals exact (p ▸ held).elim
    obtain rfl := owner h owns
    -- A cache that waits would be the owner, but the owner is the cache that has the block.
    refine ⟨states fun c st waits owns => ?_, .inr ⟨by simp [dir_eq, Directory.Machine.getState],
      h, ?_⟩⟩
    · rw [owner c owns, holding] at waits
      cases waits
    · obtain ⟨request, modified⟩ := holding ▸ machine h
      exact ⟨_, by rw [dir_eq], by simp [modified, L1Cache.Machine.getState], by rw [modified],
        agree trivial⟩
  | IM _ _ _ _ _ mem_eq => simp [quiet.2] at mem_eq
  | MI _ _ _ _ _ _ _ mem_eq => simp [quiet.2] at mem_eq
  | ID d | ID_W d | recalling _ d | recalled _ d => exact isEmptyElim d

/--
Without DMA controllers no message is lost: once none is under way no cache waits for data, and
what was stored last is in the one modified copy or else at the directory.
-/
theorem quiet_at_rest {Cache : Type} [DecidableEq Cache] (blockSize : Nat)
    (dataBlk : DataBlock) (ops : List (System.Op Cache Empty)) :
    Machine.Always System.step (fun st => ∃ s, st = .ok s ∧ (s.Quiet → s.AtRest))
      (.ok (System.start blockSize dataBlk)) ops := by
  refine Machine.always_of_invariant (I := fun st => ∃ s, st = .ok s ∧ ∃ ledger,
    Sound True ledger s) ?_ ?_
    ⟨_, rfl, _, sound_start True blockSize dataBlk⟩
  · rintro _ ⟨s, rfl, ledger, sound⟩
    exact ⟨s, rfl, sound.atRest⟩
  · rintro _ op t ⟨s, rfl, ledger, sound⟩ taken
    -- The directory never takes the block from its owner, so each step is in time.
    have calm := sound.not_recalling
    refine Sound.step ⟨ledger, sound⟩ ?_ (fun _ => ?_) taken <;> cases op with
    | request c n => first | trivial | exact fun msg _ untimely => calm untimely.2.2
    | memory n => first | trivial | exact fun state => absurd (.inr (.inr (.inr state))) calm
    | dmaRequest d | dmaServe d | dmaResponse d => exact isEmptyElim d
    | _ => trivial

theorem System.undefined (untimely : ¬s.Timely op) (taken : s.perform op = some r) :
    r = .error .invalidTransition := by
  -- Both messages name their event, and the table has nothing for it in these states.
  cases op with
  | request c n =>
    simp only [System.Timely, not_forall, not_not] at untimely
    obtain ⟨msg, found, put, stranger, recalling⟩ := untimely
    simp only [System.perform, found, Option.bind_some, System.requestEvent, put, System.raise,
      if_neg stranger, System.dirTrigger] at taken
    obtain state | state | state | state := recalling <;>
      exact (Option.some.inj (by simpa [state, Directory.transition] using taken)).symm
  | dmaServe d n =>
    have recalling := not_not.mp untimely
    simp only [System.perform, Option.bind_eq_some_iff, System.dirTrigger] at taken
    obtain ⟨msg, -, taken⟩ := taken
    cases kind : msg.type <;> rw [kind] at taken <;>
      obtain state | state | state | state := recalling <;>
      exact (Option.some.inj
        (by simpa [state, System.dmaEvent, Directory.transition] using taken)).symm
  | access c a | replacement c | forwarded c | response c n | memory n | dmaRequest d msg
  | dmaResponse d n => exact absurd trivial untimely

/--
With DMA controllers no event is without its transition and no assertion fails exactly as long as
neither a late write-back nor a DMA request reaches the directory while it takes the block from
its owner.
-/
theorem complete_iff_timely (blockSize : Nat) (dataBlk : DataBlock)
    (ops : List (System.Op Cache Dma)) :
    Machine.Always System.step (fun st => ∃ s, st = .ok s)
        (.ok (System.start blockSize dataBlk : System Cache Dma)) ops ↔
      Machine.Meets System.step (fun st op => ∀ s, st = .ok s → s.Timely op)
        (.ok (System.start blockSize dataBlk : System Cache Dma)) ops := by
  refine Machine.always_iff_meets_of_invariant
    (I := fun st => ∃ s, st = .ok s ∧ ∃ ledger, Sound False ledger s) ?_ ?_ ?_
    ⟨_, rfl, _, sound_start False blockSize dataBlk⟩
  · exact fun _ ⟨s, same, _⟩ => ⟨s, same⟩
  · rintro _ op t ⟨s, rfl, sound⟩ timely taken
    exact Sound.step sound (timely s rfl) (fun wrong => wrong.elim) taken
  · rintro _ op t ⟨s, rfl, sound⟩ untimely taken ⟨s', rfl⟩
    refine untimely fun s'' same => ?_
    obtain rfl := Except.ok.inj same
    by_contra bad
    cases System.undefined bad taken

/--
A second DMA read finds the directory taking the block from its owner for the first, and so does
the write-back of a cache that was told to hand the block on.
-/
theorem recalling_undefined :
    Machine.run System.step (.ok (System.start 64 (fun _ => 0) : System Unit Bool))
        [.access () (.store (fun _ => 1) 0 1), .request () 0, .memory 0, .response () 0,
          .dmaRequest false { type := .LD, physicalAddress := 0, len := 4 }, .dmaServe false 0,
          .dmaRequest true { type := .LD, physicalAddress := 0, len := 4 }, .dmaServe true 0] =
      some (.error .invalidTransition) ∧
    Machine.run System.step (.ok (System.start 64 (fun _ => 0) : System Bool Unit))
        [.access false (.store (fun _ => 1) 0 1), .request false 0, .memory 0, .response false 0,
          .access true .load, .replacement false, .request true 0,
          .dmaRequest () { type := .LD, physicalAddress := 0, len := 4 }, .dmaServe () 0,
          .request false 0] =
      some (.error .invalidTransition) :=
  ⟨rfl, rfl⟩

end MIExample

end GemDroid
