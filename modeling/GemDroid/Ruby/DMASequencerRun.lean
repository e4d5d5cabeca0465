import GemDroid.Ruby.DMASequencerParts

/-! What DMA sequencers promise their devices over runs of the MI example protocol. -/

namespace GemDroid

open Function (update update_eq_self update_of_ne update_self)

namespace MIExample

variable {Cache Dma : Type} [DecidableEq Cache] [DecidableEq Dma] {ledger : Ledger Dma}

/-- What was done of a request so far. -/
structure Progress (blockSize : Nat) (r : DMARequest) (expected : Nat → UInt8) (count : Nat → Nat) :
    Prop where
  written : ∀ b, r.write = true → Touches blockSize r.start_paddr r.bytes_completed b → count b = 1
  unwritten : ∀ b, ¬(r.write = true ∧ Touches blockSize r.start_paddr r.bytes_completed b) →
    count b = 0
  read : r.write = false → ∀ k < r.bytes_completed, r.data k = expected k

/-- When a part is done, what it brought counts. -/
theorem Progress.next {blockSize : Nat} {r : DMARequest} {expected expected' : Nat → UInt8}
    {count : Nat → Nat} {data : Nat → UInt8} {applications : Nat}
    (progress : Progress blockSize r expected count) (positive : 0 < blockSize)
    (chunk : Chunk blockSize r) (kind : applications = if r.write then 1 else 0)
    (read : r.write = false → ∀ k < r.bytes_issued,
      (r.bytes_completed ≤ k → data k = expected' k) ∧
      (k < r.bytes_completed → data k = r.data k ∧ expected' k = expected k)) :
    Progress blockSize { r with data, bytes_completed := r.bytes_issued } expected'
      (update count (r.block blockSize) (count (r.block blockSize) + applications)) := by
  have within := chunk.within
  have part := chunk.part
  -- The bytes done before are in other blocks, those of the part in this one.
  have fresh : ¬Touches blockSize r.start_paddr r.bytes_completed (r.block blockSize) := by
    rintro ⟨k, below, same⟩
    have inside := (chunk.mem_iff positive (by omega)).mp same
    omega
  refine ⟨?_, ?_, ?_⟩
  · rintro b write ⟨k, below, same⟩
    simp only at below
    by_cases here : b = r.block blockSize
    · subst here
      rw [update_self, progress.unwritten _ fun touched => fresh touched.2, kind]
      simp only at write
      simp [write]
    · rw [update_of_ne here]
      refine progress.written b write ⟨k, ?_, same⟩
      by_contra late
      exact here (same.symm.trans ((chunk.mem_iff positive (by omega)).mpr ⟨by omega, below⟩))
  · intro b untouched
    by_cases here : b = r.block blockSize
    · subst here
      have not_write : r.write = false := by
        by_contra write
        refine untouched ⟨by simpa using write, r.bytes_completed, part, rfl⟩
      rw [update_self, progress.unwritten _ fun touched => fresh touched.2, kind]
      simp [not_write]
    · rw [update_of_ne here]
      refine progress.unwritten b ?_
      rintro ⟨write, k, below, same⟩
      exact untouched ⟨write, k, by simp only; omega, same⟩
  · intro not_write k below
    simp only at below
    obtain ⟨new, old⟩ := read not_write k below
    by_cases before : k < r.bytes_completed
    · obtain ⟨same, same'⟩ := old before
      simp only [same, same', progress.read not_write k before]
    · exact new (by omega)

/-- The state of a controller that waits for a request of its sequencer. -/
def DMARequest.busy (r : DMARequest) : DMA.State :=
  if r.write then .BUSY_WR else .BUSY_RD

/-- Where the request of a sequencer is: nowhere, before its controller, or at one block. -/
inductive Serves (blockSize : Nat) (dma : DMA.State) (q : DMASequencer) (expected : Nat → UInt8)
    (flight : Nat → Prop) (count : Nat → Nat) : Prop where
  | idle (free : q.m_is_busy = false) (empty : q.m_mandatory_q = []) (ready : dma = .READY)
    (away : ∀ b, ¬flight b)
  | queued (msg : SequencerMsg) (busy : q.m_is_busy = true) (queue : q.m_mandatory_q = [msg])
    (ready : dma = .READY) (away : ∀ b, ¬flight b) (chunk : Chunk blockSize q.active_request)
    (part : Part blockSize q.active_request msg)
    (progress : Progress blockSize q.active_request expected count)
  | flying (busy : q.m_is_busy = true) (empty : q.m_mandatory_q = [])
    (waits : dma = q.active_request.busy)
    (here : ∀ b, flight b ↔ b = q.active_request.block blockSize)
    (chunk : Chunk blockSize q.active_request)
    (progress : Progress blockSize q.active_request expected count)

namespace DmaSystem

/-- What every step keeps as long as no DMA write loses bytes. -/
structure Inv (t : DmaSystem Cache Dma) (ledgers : Nat → Ledger Dma) : Prop where
  positive : 0 < t.blockSize
  sizes : ∀ b, (ledgers b).blockSize = t.blockSize
  sound : ∀ b, Sound True (ledgers b) (t.view b)
  serves : ∀ d, Serves t.blockSize (t.dma d) (t.sequencers d) (t.expected d)
    (fun b => (ledgers b).flight d) (fun b => (ledgers b).count d)
  right : ∀ d, ∀ r ∈ t.completed d, r.Right t.blockSize
  once : ∀ d, t.made d = (t.completed d).map (fun r => (r.start_paddr, r.len, r.write)) ++
    if (t.sequencers d).m_is_busy then
      [((t.sequencers d).active_request.start_paddr, (t.sequencers d).active_request.len,
        (t.sequencers d).active_request.write)]
    else []

variable {t : DmaSystem Cache Dma}

omit [DecidableEq Cache] [DecidableEq Dma] in
theorem view_put {b : Nat} {s : System Cache Dma}
    (dma : s.dma = t.dma) : (t.put b s).view b = s := by
  obtain ⟨⟩ := s
  simp only at dma
  simp [view, put, dma]

omit [DecidableEq Cache] [DecidableEq Dma] in
theorem view_put_of_ne {b b' : Nat} (apart : b' ≠ b)
    (s : System Cache Dma) : (t.put b s).view b' = t.view b' := by
  simp [view, put, apart]

omit [DecidableEq Cache] [DecidableEq Dma] in
/-- The invariant gives what is promised. -/
theorem Inv.correct {ledgers : Nat → Ledger Dma} (inv : t.Inv ledgers) : t.Correct := by
  have size : ∀ b, (t.view b).blockSize = t.blockSize :=
    fun b => (inv.sound b).size.trans (inv.sizes b)
  refine ⟨?_, ?_, ?_, inv.right, inv.once, ?_⟩
  · intro b invalid
    obtain ⟨phase, blk, coherent, agree⟩ := (inv.sound b).coherent
    have agree := agree trivial
    rw [size b] at agree
    have dir : (t.view b).dir = (t.blocks b).dir := rfl
    rw [← dir] at invalid ⊢
    cases coherent.settled with
    | I _ dir_eq =>
      rw [dir_eq]
      exact agree
    | M _ _ _ dir_eq | IM _ _ _ _ dir_eq =>
      simp [Directory.Machine.getState, dir_eq] at invalid
    | MI _ _ _ _ _ dir_eq tbe_eq | ID _ _ _ dir_eq tbe_eq | ID_W _ _ _ dir_eq tbe_eq =>
      simp [Directory.Machine.getState, dir_eq, tbe_eq] at invalid
    | recalling _ _ _ _ _ _ state_eq dir_eq tbe_eq | recalled _ _ _ _ _ _ state_eq dir_eq tbe_eq =>
      obtain rfl | rfl := state_eq <;>
        simp [Directory.Machine.getState, dir_eq, tbe_eq] at invalid
  · intro b c entry modified present
    obtain ⟨phase, blk, coherent, agree⟩ := (inv.sound b).coherent
    have agree := agree trivial
    rw [size b] at agree
    have machine := (coherent.fits c).machine
    obtain ⟨st, holding⟩ := machine.holding_of_modified modified
    rw [holding] at machine
    obtain ⟨request, machine⟩ := machine
    have same : (t.blocks b).l1 c = _ := machine
    rw [same] at present
    obtain rfl := Option.some.inj present
    exact agree
  · intro b load member
    have loads := (inv.sound b).loads trivial load member
    rwa [size b] at loads
  · intro d busy
    cases inv.serves d with
    | idle free =>
      rw [free] at busy
      cases busy
    | queued _ _ _ _ _ chunk | flying _ _ _ _ chunk =>
      exact Nat.lt_of_lt_of_le chunk.part chunk.within

theorem stepBlock_eq {b : Nat} {op : System.Op Cache Dma} {r : Except Fault (DmaSystem Cache Dma)}
    (taken : t.stepBlock b op = some r) :
    (∀ d msg, op ≠ .dmaRequest d msg) ∧ (∀ d n, op ≠ .dmaResponse d n) ∧
      ∃ r', (t.view b).perform op = some r' ∧ r = r'.map (t.put b) := by
  cases op with
  | dmaRequest d msg | dmaResponse d n => cases taken
  | access c a | replacement c | forwarded c | response c n | request c n | memory n
  | dmaServe d n =>
    obtain ⟨r', performed, result⟩ := Option.map_eq_some_iff.mp taken
    exact ⟨by simp, by simp, r', performed, result.symm⟩

theorem Inv.block {ledgers : Nat → Ledger Dma} (inv : t.Inv ledgers) {b : Nat}
    {op : System.Op Cache Dma} (whole : t.Whole (.block b op))
    {r : Except Fault (DmaSystem Cache Dma)} (taken : t.stepBlock b op = some r) :
    r = .error .invalidTransition ∨ ∃ t', r = .ok t' ∧ t'.Inv ledgers := by
  obtain ⟨not_request, not_response, r', performed, rfl⟩ := stepBlock_eq taken
  by_cases timely : (t.view b).Timely op
  · have faithful : (t.view b).Faithful op := by
      cases op with
      | memory n => exact whole
      | dmaRequest d msg => exact absurd rfl (not_request d msg)
      | _ => trivial
    obtain ⟨s', rfl, sound⟩ := (inv.sound b).perform timely (fun _ => faithful) not_request
      not_response performed
    refine .inr ⟨_, rfl, inv.positive, inv.sizes, ?_, inv.serves, inv.right, inv.once⟩
    intro b'
    by_cases here : b' = b
    · subst here
      have dma : s'.dma = t.dma :=
        sound.controllers.trans (inv.sound b').controllers.symm
      rw [view_put dma]
      exact sound
    · rw [view_put_of_ne here]
      exact inv.sound b'
  · rw [System.undefined timely performed]
    exact .inl rfl

end DmaSystem

omit [DecidableEq Cache] [DecidableEq Dma] in
theorem DmaFits.of_away {data : Prop} {s : System Cache Dma} {d : Dma}
    (fits : DmaFits data ledger s d) (away : ¬ledger.flight d) :
    s.dmaRequests d = [] ∧ s.dmaResponses d = [] ∧
      (∀ msg, s.dir.pending = some msg → msg.requestor ≠ d) ∧ s.applied d = ledger.count d := by
  cases fits with
  | quiet requests responses elsewhere _ counted =>
    exact ⟨requests, responses, elsewhere, counted⟩
  | asked _ _ _ _ requested | pending _ _ _ _ requested => exact absurd requested.here away
  | answered _ _ _ _ answered => exact absurd answered.here away

omit [DecidableEq Cache] in
theorem Sound.elsewhere {data : Prop} {s : System Cache Dma} (sound : Sound data ledger s)
    {d : Dma} (away : ¬ledger.flight d) (state : DMA.State) :
    Sound data { ledger with dma := update ledger.dma d state }
      { s with dma := update s.dma d state } := by
  obtain ⟨phase, blk, inv, agree⟩ := sound.coherent
  refine ⟨⟨phase, blk, ⟨inv.fits, inv.owner, inv.one, inv.next, inv.nextOne, inv.invalidated,
    inv.settled⟩, agree⟩, sound.loads, ?_, sound.size, by simp only [sound.controllers]⟩
  intro x
  by_cases here : x = d
  · subst here
    obtain ⟨requests, responses, elsewhere, counted⟩ := (sound.dma x).of_away away
    exact .quiet requests responses elsewhere away counted
  · refine (sound.dma x).of_unnoticed ?_
    constructor <;> simp [here]

omit [DecidableEq Cache] in
theorem Sound.forget {data : Prop} {s : System Cache Dma} (sound : Sound data ledger s)
    {d : Dma} (away : ¬ledger.flight d) (wanted : Nat → Option UInt8) (applied : Nat) :
    Sound data { ledger with count := update ledger.count d applied }
      { s with
        wanted := update s.wanted d wanted
        applied := update s.applied d applied } := by
  obtain ⟨phase, blk, inv, agree⟩ := sound.coherent
  refine ⟨⟨phase, blk, ⟨inv.fits, inv.owner, inv.one, inv.next, inv.nextOne, inv.invalidated,
    inv.settled⟩, agree⟩, sound.loads, ?_, sound.size, sound.controllers⟩
  intro x
  by_cases here : x = d
  · subst here
    obtain ⟨requests, responses, elsewhere, -⟩ := (sound.dma x).of_away away
    exact .quiet requests responses elsewhere away (by simp)
  · refine (sound.dma x).of_unnoticed ?_
    constructor <;> simp [here]

namespace DmaSystem

variable {t : DmaSystem Cache Dma} {ledgers : Nat → Ledger Dma}
  {r : Except Fault (DmaSystem Cache Dma)}

omit [DecidableEq Cache] in
/-- A device makes a request of at least one byte. -/
theorem Inv.makeRequest (inv : t.Inv ledgers) {d : Dma} {paddr len : Nat} (some_len : 1 ≤ len)
    {write : Bool} {data : Nat → UInt8}
    (taken : t.stepMakeRequest d paddr len write data = some r) :
    ∃ t' ledgers', r = .ok t' ∧ t'.Inv ledgers' := by
  obtain ⟨r', made, rfl⟩ := Option.map_eq_some_iff.mp taken
  cases inv.serves d with
  | queued _ busy | flying busy =>
    simp [DMASequencer.makeRequest, busy] at made
  | idle free empty ready away =>
    obtain ⟨issued, msg, chunk, part, result⟩ :=
      DMASequencer.makeRequest_eq inv.positive free empty some_len write data
    obtain rfl := Option.some.inj (result.symm.trans made)
    refine ⟨_, fun b => { ledgers b with count := update (ledgers b).count d 0 }, rfl,
      inv.positive, inv.sizes, ?_, ?_, inv.right, ?_⟩
    · intro b
      have forgotten := (inv.sound b).forget (away b) ((t.view b).wanted d) 0
      rwa [update_eq_self] at forgotten
    · intro x
      by_cases here : x = d
      · subst here
        simp only [update_self]
        refine .queued msg rfl rfl ready away chunk part ⟨?_, fun _ _ => rfl, ?_⟩
        · rintro b - ⟨k, below, -⟩
          exact absurd below (Nat.not_lt_zero k)
        · exact fun _ k below => absurd below (Nat.not_lt_zero k)
      · simp only [update_of_ne here]
        exact inv.serves x
    · intro x
      have once := inv.once x
      by_cases here : x = d
      · subst here
        rw [free] at once
        simp [once]
      · simpa only [update_of_ne here] using once

/-- A controller takes the part that its sequencer has for it to its block. -/
theorem Inv.issue (inv : t.Inv ledgers) {d : Dma} (taken : t.stepIssue d = some r) :
    ∃ t' ledgers', r = .ok t' ∧ t'.Inv ledgers' := by
  cases inv.serves d with
  | idle _ empty | flying _ empty =>
    simp [stepIssue, empty] at taken
  | queued msg busy queue ready away chunk part progress =>
    have at_block : msg.physicalAddress / t.blockSize =
        (t.sequencers d).active_request.block t.blockSize := by
      rw [part.address, DMARequest.block]
    simp only [stepIssue, queue, at_block] at taken
    generalize block_eq : (t.sequencers d).active_request.block t.blockSize = b at taken at_block
    generalize wants_eq : wanted (t.sequencers d).active_request t.blockSize b = wants at taken
    obtain ⟨r', triggered, rfl⟩ := Option.map_eq_some_iff.mp taken
    have view_dma : (t.view b).dma d = .READY := ready
    -- The controller is ready, so that it may be given the part.
    have ready_sound := (inv.sound b).forget (away b) wants ((t.view b).applied d)
    have same_count : update (ledgers b).count d ((t.view b).applied d) =
        (ledgers b).count := by
      rw [(((inv.sound b).dma d).of_ready view_dma).2.2.2.2, update_eq_self]
    rw [same_count, update_eq_self] at ready_sound
    have requested : ({ t.view b with
        wanted := update (t.view b).wanted d wants } : System Cache Dma).perform
          (.dmaRequest d msg) = some r' := by
      rw [System.perform, if_pos view_dma]
      exact triggered
    have type := part.type
    have asks : True → msg.type = .ST → Wants (t.view b).blockSize
        (update (t.view b).wanted d wants d) msg.physicalAddress msg.len msg.dataBlk := by
      intro _ store
      rw [update_self, (inv.sound b).size, inv.sizes b, ← wants_eq, ← block_eq]
      refine part.wants chunk ?_
      cases write : (t.sequencers d).active_request.write with
      | true => rfl
      | false =>
        rw [store, write] at type
        cases type
    obtain ⟨s', rfl, sound⟩ := ready_sound.dmaRequest asks requested
    have dma : s'.dma = update t.dma d msg.type.busy := by
      rw [sound.controllers, ← (show (t.view b).dma = t.dma from rfl), (inv.sound b).controllers]
      rfl
    have busy_eq : msg.type.busy = (t.sequencers d).active_request.busy := by
      rw [type, DMARequest.busy]
      split <;> rfl
    refine ⟨_, fun b' => if b' = b then (ledgers b).request d msg.type
      else { ledgers b' with dma := update (ledgers b').dma d msg.type.busy }, rfl,
      inv.positive, ?_, ?_, ?_, inv.right, ?_⟩
    · intro b'
      split
      · exact inv.sizes b
      · exact inv.sizes b'
    · intro b'
      by_cases here : b' = b
      · subst here
        simp only [view, put, update_self, if_true]
        exact sound
      · simp only [view, put, update_of_ne here, dma]
        rw [if_neg here]
        exact (inv.sound b').elsewhere (away b') _
    · intro x
      have counts : (fun b' => (if b' = b then (ledgers b).request d msg.type
          else { ledgers b' with
            dma := update (ledgers b').dma d msg.type.busy }).count x) =
          fun b' => (ledgers b').count x := by
        funext b'
        split
        · rename_i here
          rw [here]
          rfl
        · rfl
      rw [counts]
      by_cases here : x = d
      · subst here
        simp only [dma, update_self]
        refine .flying busy rfl busy_eq ?_ chunk progress
        intro b'
        split
        · rename_i at_b
          exact iff_of_true (.inl rfl) (at_b.trans block_eq.symm)
        · rename_i not_b
          exact iff_of_false (away b') fun at_b => not_b (at_b.trans block_eq)
      · have flights : (fun b' => (if b' = b then (ledgers b).request d msg.type
            else { ledgers b' with
              dma := update (ledgers b').dma d msg.type.busy }).flight x) =
            fun b' => (ledgers b').flight x := by
          funext b'
          split
          · rename_i at_b
            rw [at_b]
            simp [Ledger.request, here]
          · rfl
        rw [flights]
        simp only [dma, update_of_ne here]
        exact inv.serves x
    · intro x
      have once := inv.once x
      by_cases here : x = d
      · subst here
        simp only [put, update_self]
        exact once
      · simp only [put, update_of_ne here]
        exact once

omit [DecidableEq Cache] [DecidableEq Dma] in
/-- What the callback of an answer leaves of the sequencer: the part is done. -/
theorem Inv.callback (inv : t.Inv ledgers) {d : Dma} {b : Nat} {msg : DMAResponseMsg}
    (busy : (t.sequencers d).m_is_busy = true)
    (chunk : Chunk t.blockSize (t.sequencers d).active_request)
    (progress : Progress t.blockSize (t.sequencers d).active_request (t.expected d)
      fun b => (ledgers b).count d) (here : b = (t.sequencers d).active_request.block t.blockSize)
    (kind : msg.type.busy = (t.sequencers d).active_request.busy) {served : DataBlock}
    (agree : msg.type = .DATA → Agree t.blockSize msg.dataBlk served) :
    ∃ data,
      (t.sequencers d).callback t.blockSize msg =
      DMASequencer.issueNext t.blockSize { t.sequencers d with
        active_request := { (t.sequencers d).active_request with data } } ∧
      Progress t.blockSize { (t.sequencers d).active_request with
          data, bytes_completed := (t.sequencers d).active_request.bytes_issued }
        (fun i => if ((t.sequencers d).active_request.start_paddr + i) / t.blockSize = b then
          served (((t.sequencers d).active_request.start_paddr + i) % t.blockSize)
          else t.expected d i)
        (update (fun b => (ledgers b).count d) b
          ((ledgers b).count d + msg.type.applications)) := by
  have positive := inv.positive
  generalize t.sequencers d = q at *
  subst here
  -- An acknowledgement ends a write and data a read, as the controller was busy with that.
  cases type : msg.type with
  | ACK =>
    have write : q.active_request.write = true := by
      by_contra read
      rw [type, DMARequest.busy, if_neg read] at kind
      cases kind
    refine ⟨q.active_request.data, by rw [DMASequencer.callback, type]; rfl,
      progress.next positive chunk ?_ ?_⟩
    · rw [write]
      rfl
    · intro read
      rw [write] at read
      cases read
  | DATA =>
    have read : q.active_request.write = false := by
      by_contra write
      rw [type, DMARequest.busy, if_pos (by simpa using write)] at kind
      cases kind
    have called : q.callback t.blockSize msg = q.dataCallback t.blockSize msg.dataBlk := by
      rw [DMASequencer.callback, type]
    refine ⟨_, called.trans (DMASequencer.dataCallback_eq busy read chunk msg.dataBlk),
      progress.next positive chunk ?_ ?_⟩
    · rw [read]
      rfl
    · intro _ k below
      have within := chunk.within
      have whole := chunk.mem_iff positive (show k < q.active_request.len by omega)
      constructor
      · -- The byte is one of those that were read.
        intro late
        have same := whole.mpr ⟨late, below⟩
        have split := Nat.div_add_mod' (q.active_request.start_paddr + k) t.blockSize
        have split' := Nat.div_add_mod'
          (q.active_request.start_paddr + q.active_request.bytes_completed) t.blockSize
        have bytes := agree type _
          (Nat.mod_lt (q.active_request.start_paddr + k) positive)
        simp only [same, if_true]
        rw [same, DMARequest.block] at split
        rw [DataBlock.setData, if_pos ⟨late, by omega⟩, ← bytes, DataBlock.getData]
        congr 1
        omega
      · intro early
        have other : (q.active_request.start_paddr + k) / t.blockSize ≠
            q.active_request.block t.blockSize :=
          fun same => by have := whole.mp same; omega
        simp only [other, if_false]
        rw [DataBlock.setData, if_neg (by omega)]
        exact ⟨rfl, trivial⟩

omit [DecidableEq Cache] in
/-- The answer of a block ends a part, and with the last part the request. -/
theorem Inv.answer (inv : t.Inv ledgers) {d : Dma} {b n : Nat}
    (taken : t.stepAnswer d b n = some r) :
    ∃ t' ledgers', r = .ok t' ∧ t'.Inv ledgers' := by
  simp only [stepAnswer, Option.bind_eq_some_iff] at taken
  obtain ⟨msg, found, taken⟩ := taken
  obtain ⟨rfl, -, -, -, answered⟩ := ((inv.sound b).dma d).of_response found
  obtain ⟨s', triggered, same_served, sound⟩ := (inv.sound b).answer found
  rw [triggered] at taken
  cases inv.serves d with
  | idle _ _ _ away | queued _ _ _ _ away => exact absurd answered.here (away b)
  | flying busy empty waits here chunk progress =>
    have at_block := (here b).mp answered.here
    have size : (t.view b).blockSize = t.blockSize := (inv.sound b).size.trans (inv.sizes b)
    have agree := answered.served trivial
    rw [size, ← same_served] at agree
    obtain ⟨data, callback, next⟩ :=
      inv.callback busy chunk progress at_block (answered.busy.symm.trans waits) agree
    have result := Option.some.inj taken
    change (do
      let result ← (t.sequencers d).callback t.blockSize msg
      return _) = r at result
    rw [callback] at result
    have dma : s'.dma = update t.dma d .READY := by
      rw [sound.controllers, ← (show (t.view b).dma = t.dma from rfl), (inv.sound b).controllers]
      rfl
    -- The bytes of the block that answered are expected as they were served.
    generalize expected_eq : (fun i =>
      if ((t.sequencers d).active_request.start_paddr + i) / t.blockSize = b then
        s'.served d (((t.sequencers d).active_request.start_paddr + i) % t.blockSize)
      else t.expected d i) = expected at next result
    -- The other blocks learn no more than that the controller is ready again.
    generalize ledgers_eq : (fun b' => if b' = b then (ledgers b).answer d msg.type
      else { ledgers b' with dma := update (ledgers b').dma d .READY }) = ledgers'
    have at_b : ledgers' b = (ledgers b).answer d msg.type := by simp [← ledgers_eq]
    have off_b : ∀ b', b' ≠ b → ledgers' b' =
        { ledgers b' with dma := update (ledgers b').dma d .READY } := by
      intro b' apart
      simp [← ledgers_eq, apart]
    have away : ∀ b', ¬(ledgers' b').flight d := by
      intro b' flying
      by_cases apart : b' = b
      · rw [apart, at_b] at flying
        exact flying.1 rfl
      · rw [off_b b' apart] at flying
        exact apart (((here b').mp flying).trans at_block.symm)
    have flights : ∀ x, x ≠ d → (fun b' => (ledgers' b').flight x) =
        fun b' => (ledgers b').flight x := by
      intro x other
      funext b'
      by_cases apart : b' = b
      · rw [apart, at_b]
        simp [Ledger.answer, other]
      · rw [off_b b' apart]
    have counts : ∀ x, x ≠ d → (fun b' => (ledgers' b').count x) =
        fun b' => (ledgers b').count x := by
      intro x other
      funext b'
      by_cases apart : b' = b
      · rw [apart, at_b]
        simp [Ledger.answer, other]
      · rw [off_b b' apart]
    have counts_d : (fun b' => (ledgers' b').count d) =
        update (fun b => (ledgers b).count d) b
          ((ledgers b).count d + msg.type.applications) := by
      funext b'
      by_cases apart : b' = b
      · rw [apart, at_b]
        simp [Ledger.answer]
      · rw [off_b b' apart, update_of_ne apart]
    have sizes : ∀ b', (ledgers' b').blockSize = t.blockSize := by
      intro b'
      by_cases apart : b' = b
      · rw [apart, at_b]
        exact inv.sizes b
      · rw [off_b b' apart]
        exact inv.sizes b'
    have sounds : ∀ b', Sound True (ledgers' b')
        { update t.blocks b s' b' with dma := s'.dma } := by
      intro b'
      by_cases apart : b' = b
      · subst apart
        rw [at_b, update_self]
        exact sound
      · rw [off_b b' apart, update_of_ne apart, dma]
        exact (inv.sound b').elsewhere
          (fun flying => apart (((here b').mp flying).trans at_block.symm)) _
    -- No other controller notices the answer.
    have others : ∀ x, x ≠ d → Serves t.blockSize (s'.dma x) (t.sequencers x) (t.expected x)
        (fun b' => (ledgers' b').flight x) (fun b' => (ledgers' b').count x) := by
      intro x other
      rw [flights x other, counts x other, dma, update_of_ne other]
      exact inv.serves x
    have ready : s'.dma d = .READY := by rw [dma, update_self]
    rw [← counts_d] at next
    have chunk' : Chunk t.blockSize { (t.sequencers d).active_request with data } :=
      ⟨chunk.part, chunk.within, chunk.aligned, chunk.one, chunk.whole⟩
    have once := inv.once d
    rw [busy, if_pos rfl] at once
    -- Either all bytes were issued, or the sequencer goes on with the next part.
    obtain ⟨done, issued_eq⟩ | ⟨issued, msg', chunk'', part, issued_eq⟩ :=
      DMASequencer.issueNext_eq inv.positive (q := { t.sequencers d with
        active_request := { (t.sequencers d).active_request with data } }) busy empty chunk'
    · -- The request is over.
      rw [issued_eq] at result
      obtain rfl := result
      simp only at done
      refine ⟨_, ledgers', rfl, inv.positive, sizes, sounds, ?_, ?_, ?_⟩
      · intro x
        simp only [ruby_hit_callback]
        by_cases other : x = d
        · subst other
          simp only [update_self]
          exact .idle rfl empty ready away
        · simp only [update_of_ne other]
          exact others x other
      · intro x completion member
        simp only [ruby_hit_callback, if_true] at member
        by_cases other : x = d
        · subst other
          simp only [update_self] at member
          obtain member | member := List.mem_append.mp member
          · exact inv.right x completion member
          · obtain rfl := List.mem_singleton.mp member
            have applied : ∀ b', (update t.blocks b s' b').applied x =
                (ledgers' b').count x :=
              fun b' => (((sounds b').dma x).of_ready ready).2.2.2.2
            rw [done] at next
            refine ⟨?_, ?_, ?_⟩
            · intro write b' touched
              exact (applied b').trans (next.written b' write touched)
            · intro b' untouched
              exact (applied b').trans (next.unwritten b' untouched)
            · intro read k below
              exact next.read read k below
        · simp only [update_of_ne other] at member
          exact inv.right x completion member
      · intro x
        simp only [ruby_hit_callback, if_true]
        by_cases other : x = d
        · subst other
          simpa [put] using once
        · simp only [update_of_ne other]
          exact inv.once x
    · -- The next part is on its way to the controller.
      rw [issued_eq] at result
      obtain rfl := result
      refine ⟨_, ledgers', rfl, inv.positive, sizes, sounds, ?_, inv.right, ?_⟩
      · intro x
        simp only [ruby_hit_callback]
        by_cases other : x = d
        · subst other
          simp only [update_self]
          exact .queued msg' busy rfl ready away chunk'' part
            ⟨next.written, next.unwritten, next.read⟩
        · simp only [update_of_ne other]
          exact others x other
      · intro x
        simp only [ruby_hit_callback]
        by_cases other : x = d
        · subst other
          simpa [put, busy] using once
        · simp only [update_of_ne other]
          exact inv.once x

/-- A write that does not bring what it leaves alone loses it. -/
theorem Inv.lost (inv : t.Inv ledgers) {b n : Nat} (state : (t.view b).dir.getState = .M_DWRI)
    (lost : ¬(t.view b).Covers) (taken : t.stepBlock b (.memory n) = some r) :
    ∃ t', r = .ok t' ∧ ¬t'.Correct := by
  obtain ⟨-, -, r', performed, rfl⟩ := stepBlock_eq taken
  have sound := inv.sound b
  have size := sound.size.trans (inv.sizes b)
  obtain ⟨phase, blk, coherent, agree⟩ := sound.coherent
  simp only [System.perform, Option.bind_eq_some_iff] at performed
  obtain ⟨msg, found, performed⟩ := performed
  -- The directory took the block from its owner, and waits for the memory.
  cases coherent.settled with
  | I _ dir_eq | M _ _ _ dir_eq | IM _ _ _ _ dir_eq =>
    simp [Directory.Machine.getState, dir_eq] at state
  | MI _ _ _ _ _ dir_eq tbe_eq | ID _ _ _ dir_eq tbe_eq | ID_W _ _ _ dir_eq tbe_eq =>
    simp [Directory.Machine.getState, dir_eq, tbe_eq] at state
  | recalling _ _ _ _ _ _ state_eq dir_eq tbe_eq =>
    obtain rfl | rfl := state_eq <;> simp [Directory.Machine.getState, dir_eq, tbe_eq] at state
  | recalled c d dirState tbe _ _ _ dir_eq tbe_eq mem_eq =>
    simp only [Directory.Machine.getState, dir_eq, tbe_eq.1] at state
    subst state
    obtain ⟨data, mem_eq⟩ := mem_eq
    rw [mem_eq] at found
    obtain rfl : n = 0 := by
      cases n with
      | zero => rfl
      | succ n => cases found
    obtain rfl := Option.some.inj found
    simp only [System.memoryEvent] at performed
    rw [System.recalled_write_eq dir_eq tbe_eq.1 tbe_eq.2] at performed
    obtain rfl := Option.some.inj performed
    refine ⟨_, rfl, fun correct => lost ?_⟩
    have requested := ((sound.dma d).of_pending (by
      simp [Directory.Machine.pending, dir_eq, tbe_eq] :
        (t.view b).dir.pending = some ⟨.WRITE, tbe.physicalAddress, d, tbe.dataBlk, tbe.len⟩)
      rfl).2.2
    have memory := correct.memory b
    simp only [put, update_self, Directory.Machine.getState, forall_const] at memory
    intro tbe' same i inside outside
    rw [dir_eq] at same
    obtain rfl := Option.some.inj same
    have wants := requested.wanted trivial rfl i inside
    rw [if_neg outside] at wants
    -- What nobody wanted to be written is still what it was before.
    calc tbe.dataBlk i
        = ((t.view b).wanted d i).getD ((t.view b).latest i) := memory i (size ▸ inside)
      _ = (t.view b).latest i := by rw [wants, Option.getD_none]
      _ = blk i := (agree trivial i inside).symm
      _ = (t.view b).dir.dataBlk i := by rw [dir_eq]

theorem Inv.perform (inv : t.Inv ledgers) {op : Op Cache Dma} (whole : t.Whole op)
    (taken : t.perform op = some r) :
    r = .error .invalidTransition ∨ ∃ t' ledgers', r = .ok t' ∧ t'.Inv ledgers' := by
  cases op with
  | block b op =>
    obtain stuck | ⟨t', result, inv'⟩ := inv.block whole taken
    · exact .inl stuck
    · exact .inr ⟨t', ledgers, result, inv'⟩
  | makeRequest d paddr len write data => exact .inr (inv.makeRequest len.property taken)
  | issue d => exact .inr (inv.issue taken)
  | answer d b n => exact .inr (inv.answer taken)

omit [DecidableEq Dma] in
/-- At first every block is at the directory, or at one cache. -/
theorem Initial.sound (blockSize : Nat) (init : Initial Cache) :
    Sound True (.start blockSize) (init.system blockSize : System Cache Dma) := by
  cases init with
  | memory dataBlk => exact sound_start True blockSize dataBlk
  | owned o stale dirty =>
    have phase_o : update (fun _ => Phase.idle) o (.holding (.owner false)) o =
        (.holding (.owner false) : Phase Cache) := update_self ..
    have phase_ne : ∀ c, c ≠ o →
        update (fun _ => Phase.idle) o (.holding (.owner false)) c =
          (.idle : Phase Cache) := fun c apart => update_of_ne apart _ _
    have only : ∀ c, (update (fun _ => Phase.idle) o (.holding (.owner false)) c :
        Phase Cache).Holds → c = o := by
      intro c held
      by_contra apart
      rw [phase_ne c apart] at held
      exact held
    have quiet : ∀ c, (update (fun _ => Phase.idle) o (.holding (.owner false)) c :
        Phase Cache).next = none := by
      intro c
      by_cases here : c = o
      · rw [here, phase_o]
        rfl
      · rw [phase_ne c here]
        rfl
    refine ⟨⟨update (fun _ => .idle) o (.holding (.owner false)), dirty,
      ⟨?_, ?_, ?_, ?_, ?_, ?_, ?_⟩, fun _ i _ => rfl⟩, ?_, ?_, rfl, rfl⟩
    · intro c
      by_cases here : c = o
      · subst here
        rw [phase_o]
        exact ⟨⟨none, by simp [system, System.station]⟩, rfl, rfl, rfl⟩
      · rw [phase_ne c here]
        refine ⟨?_, rfl, rfl, rfl⟩
        simp only [system, System.station, update_of_ne here]
        exact Phase.Machine.empty none
    · intro c
      by_cases here : c = o
      · subst here
        rw [phase_o]
        exact iff_of_true (Finset.mem_singleton_self c) trivial
      · rw [phase_ne c here]
        exact iff_of_false (fun member => here (Finset.mem_singleton.mp member)) id
    · exact fun c c' held held' => (only c held).trans (only c' held').symm
    · exact fun c r leads => by cases (quiet c).symm.trans leads
    · exact fun c c' r leads => by cases (quiet c).symm.trans leads
    · intro c invalid
      by_cases here : c = o
      · rw [here, phase_o] at invalid
        exact absurd invalid id
      · rw [phase_ne c here] at invalid
        exact absurd invalid id
    · refine .M o stale ⟨o, ?_⟩ rfl rfl
      rw [phase_o]
      trivial
    · exact fun _ load member => by cases member
    · exact fun d => .quiet rfl rfl (fun msg pending => by cases pending) id rfl

theorem inv_start (blockSizeBits : Nat) (init : Nat → Initial Cache) :
    (start blockSizeBits init : DmaSystem Cache Dma).Inv fun _ => .start (2 ^ blockSizeBits) := by
  have controllers : ∀ b, ((init b).system (2 ^ blockSizeBits) : System Cache Dma).dma =
      fun _ => .READY := by
    intro b
    cases init b <;> rfl
  refine ⟨Nat.two_pow_pos blockSizeBits, fun b => rfl, ?_, ?_, ?_, fun d => rfl⟩
  · intro b
    have sound : Sound True (.start (2 ^ blockSizeBits))
        ((init b).system (2 ^ blockSizeBits) : System Cache Dma) := Initial.sound _ _
    have view_eq : (start blockSizeBits init : DmaSystem Cache Dma).view b =
        (init b).system (2 ^ blockSizeBits) := by
      simp only [view, start, ← controllers b]
    rwa [view_eq]
  · exact fun d => .idle rfl rfl rfl fun b => id
  · exact fun d r member => by cases member

/--
Caches, memory and devices have what they were promised, up to an event without its transition,
exactly as long as every DMA write into a block that a cache had brings back what it does not write.
-/
theorem correct_iff_whole (blockSizeBits : Nat) (init : Nat → Initial Cache)
    (ops : List (Op Cache Dma)) :
    Machine.Always step
        (fun st => st = .error .invalidTransition ∨ ∃ t, st = .ok t ∧ t.Correct)
        (.ok (start blockSizeBits init : DmaSystem Cache Dma)) ops ↔
      Machine.Meets step (fun st op => ∀ t, st = .ok t → t.Whole op)
        (.ok (start blockSizeBits init : DmaSystem Cache Dma)) ops := by
  refine Machine.always_iff_meets_of_invariant
    (I := fun st => st = .error .invalidTransition ∨ ∃ t ledgers, st = .ok t ∧ t.Inv ledgers)
    ?_ ?_ ?_ (.inr ⟨_, _, rfl, inv_start blockSizeBits init⟩)
  · rintro st (stuck | ⟨t, ledgers, rfl, inv⟩)
    · exact .inl stuck
    · exact .inr ⟨t, rfl, inv.correct⟩
  · rintro _ op r (rfl | ⟨t, ledgers, rfl, inv⟩) whole taken
    · cases taken
    · exact inv.perform (whole t rfl) taken
  · rintro _ op r (rfl | ⟨t, ledgers, rfl, inv⟩) lossy taken
    · cases taken
    · simp only [Except.ok.injEq, forall_eq'] at lossy
      -- Only the answer of the memory to a write can lose anything.
      cases op with
      | block b op =>
        cases op with
        | memory n =>
          simp only [Whole, Classical.not_imp] at lossy
          obtain ⟨t', rfl, wrong⟩ := inv.lost lossy.1 lossy.2 taken
          rintro (stuck | ⟨t'', same, correct⟩)
          · cases stuck
          · obtain rfl := Except.ok.inj same
            exact wrong correct
        | _ => exact absurd trivial lossy
      | _ => exact absurd trivial lossy

/--
A cache changed a block to sevens, and a device writes one byte of it: the bytes beside it are
zeros when the device is told that its request is done.
-/
theorem write_loses_bytes :
    ∃ t, Machine.run step
        (.ok (start 3 fun _ => .owned () (fun _ => 0) fun _ => 7 : DmaSystem Unit Unit))
        [.makeRequest () 0 ⟨1, Nat.le_refl 1⟩ true fun _ => 1, .issue (), .block 0 (.dmaServe () 0),
          .block 0 (.forwarded ()), .block 0 (.request () 0), .block 0 (.memory 0),
          .answer () 0 0] = some (.ok t) ∧
      (t.completed ()).length = 1 ∧ (t.blocks 0).dir.dataBlk 1 = 0 ∧
      (t.blocks 0).latest 1 = 7 ∧ ¬t.Correct := by
  refine ⟨_, rfl, rfl, rfl, rfl, fun correct => ?_⟩
  have same := correct.memory 0 rfl 1 (Nat.lt_of_sub_eq_succ rfl)
  exact absurd (show (0 : UInt8) = 7 from same) (by decide)

end DmaSystem

end MIExample

end GemDroid
