import GemDroid.Ip.CoderRun

/-! The frames of a decoder one after another, and the reads left over between them. -/

namespace GemDroid

namespace Coder

/-- The reads a frame still has to make. -/
def readsLeft (c : Coder) : Int :=
  max c.dependenceCount 0 + max c.ip.reqCount 0

private theorem dataReads_even {size : Int} (whole : size ≤ 0 ∨ cacheLineSize ∣ size) :
    max (Rounding.ceilDiv size cacheLineSize) 0 = max (size.tdiv cacheLineSize) 0 := by
  -- Without data both counts are at most zero, and whole lines need no rounding.
  rcases whole with empty | ⟨n, rfl⟩
  · have lines := Rounding.ceilDiv_le (n := 0) (by decide : 0 < cacheLineSize)
      (by omega : size ≤ cacheLineSize * 0)
    have quotient := Rounding.tdiv_nonpos empty (by decide : 0 ≤ cacheLineSize)
    omega
  · rw [Rounding.ceilDiv_mul_left _ (by decide), Int.mul_tdiv_cancel_left _ (by decide)]

private theorem dependentReads_even {size : Int}
    (whole : size ≤ 0 ∨ 5 * cacheLineSize ∣ size) :
    max (Rounding.ceilDiv (size * 2) (5 * cacheLineSize)) 0 +
        max (Rounding.ceilDiv (Rounding.ceilDiv size cacheLineSize * 3) 5) 0 =
      max (size.tdiv cacheLineSize) 0 := by
  -- Five lines split into two of the reference and three of the data.
  rcases whole with empty | ⟨n, rfl⟩
  · have lines := Rounding.ceilDiv_le (n := 0) (by decide : 0 < cacheLineSize)
      (by omega : size ≤ cacheLineSize * 0)
    have reference := Rounding.ceilDiv_le (n := 0) (by decide : 0 < 5 * cacheLineSize)
      (by omega : size * 2 ≤ 5 * cacheLineSize * 0)
    have data := Rounding.ceilDiv_le (n := 0) (by decide : (0 : Int) < 5)
      (by omega : Rounding.ceilDiv size cacheLineSize * 3 ≤ 5 * 0)
    have quotient := Rounding.tdiv_nonpos empty (by decide : 0 ≤ cacheLineSize)
    omega
  · have lines : 5 * cacheLineSize * n = cacheLineSize * (5 * n) := by ring
    have reference : Rounding.ceilDiv (5 * cacheLineSize * n * 2) (5 * cacheLineSize) = n * 2 := by
      rw [Int.mul_assoc, Rounding.ceilDiv_mul_left _ (by decide)]
    have data : Rounding.ceilDiv (5 * n * 3) 5 = n * 3 := by
      rw [Int.mul_assoc, Rounding.ceilDiv_mul_left _ (by decide)]
    rw [reference, lines, Rounding.ceilDiv_mul_left _ (by decide), data,
      Int.mul_tdiv_cancel_left _ (by decide)]
    omega

theorem accept_readsLeft {c : Coder} (free : c.ip.isBusy = false) {req : IpRequest}
    (spent : c.dependenceCount ≤ 0)
    (whole : req.size ≤ 0 ∨
      (if c.isPFrame req then 5 * cacheLineSize ∣ req.size else cacheLineSize ∣ req.size)) :
    (c.accept req).readsLeft = max (c.accept req).inputToBeProcessedInCL 0 := by
  -- The flags that make a frame dependent are read before the request changes them.
  have sameFrame : isPFrame req { c with
      ip := (c.ip.enqueueIPReq req).1, reqOutAddr := c.outputBase } = c.isPFrame req := by
    simp [isPFrame, Ip.enqueueIPReq, free, IpPower.wakeUp]
  have lines : (c.ip.enqueueIPReq req).1.reqCount =
      Rounding.ceilDiv req.size cacheLineSize := by
    simp [Ip.enqueueIPReq, free]
  have target : (c.accept req).inputToBeProcessedInCL = req.size.tdiv cacheLineSize := rfl
  by_cases dependent : c.isPFrame req
  · have counts : (c.accept req).dependenceCount =
        Rounding.ceilDiv (req.size * 2) (5 * cacheLineSize) ∧
        (c.accept req).ip.reqCount =
          Rounding.ceilDiv (Rounding.ceilDiv req.size cacheLineSize * 3) 5 := by
      simp [accept, splitReads, sameFrame, dependent, lines]
    rw [if_pos dependent] at whole
    rw [readsLeft, counts.1, counts.2, target, dependentReads_even whole]
  · have counts : (c.accept req).dependenceCount = c.dependenceCount ∧
        (c.accept req).ip.reqCount = Rounding.ceilDiv req.size cacheLineSize := by
      simp [accept, splitReads, sameFrame, dependent, lines]
    rw [if_neg dependent] at whole
    rw [readsLeft, counts.1, counts.2, target, dataReads_even whole, Int.max_eq_right spent,
      Int.zero_add]

end Coder

/-- A frame was reported with all of its reads processed. -/
structure FrameReport.Balanced (r : FrameReport) : Prop where
  issued : (r.issued : Int) = r.processed
  landed : r.inFlight = 0
  drained : r.buffered = 0

namespace CoderSystem

/--
Frames whose reads come out even.

The size is a multiple of the line, and for a dependent frame of five lines, so that no share of
the reads is rounded.
-/
def EvenReads (s : CoderSystem) : CoderEvent → Prop
  | .enqueueIPReq req =>
    s.coder.ip.isBusy = true ∨ req.size ≤ 0 ∨
      (if s.coder.isPFrame req then 5 * cacheLineSize ∣ req.size else cacheLineSize ∣ req.size)
  | .tick _ _ | .memResponse _ => True

/-- What holds of a decoder in every phase: all reports so far were balanced. -/
structure Reported (s : CoderSystem) : Prop where
  balanced : ∀ r ∈ s.reports, r.Balanced
  decoder : s.coder.config.kind = .decoder
  noLatency : s.coder.ip.ioLatency = 0

/-- A decoder at work on a frame, with as many reads to make as lines to process. -/
structure Working (s : CoderSystem) : Prop extends Reported s where
  busy : s.coder.ip.isBusy = true
  conserved : ∃ base, s.FrameInv base
  budget : s.reads.length + s.coder.readsLeft = max s.coder.inputToBeProcessedInCL 0

/-- A decoder with nothing in flight, nothing buffered and no reference reads left over. -/
structure Settled (s : CoderSystem) : Prop extends Reported s where
  landed : s.inFlight = 0
  inEmpty : s.coder.currInBuffer = 0
  outEmpty : s.coder.currOutBuffer = 0
  spent : s.coder.dependenceCount ≤ 0

/-- A decoder that was never called sleeps, and a tick does not wake it. -/
structure Unused (s : CoderSystem) : Prop extends Settled s where
  asleep : s.coder.ip.power.powerState = .idle
  still : s.coder.ip.power.cyclesToWake = 0
  fresh : s.coder.ip.power.idleCycles = 0

/-- Where a decoder stands between its first call and its next. -/
def DecoderInv (s : CoderSystem) : Prop :=
  s.Unused ∨ s.Working ∨ (s.coder.ip.isBusy = false ∧ s.Settled)

variable {s : CoderSystem}

theorem Working.withPower (working : s.Working) (power : IpPower) :
    Working { s with coder := s.coder.withPower power } := by
  obtain ⟨base, inv⟩ := working.conserved
  exact { working with conserved := ⟨base, inv.withPower power⟩ }

theorem Working.sendDataOut (working : s.Working) (accepted : Bool) :
    Working (s.absorb (s.coder.sendDataOut accepted)) := by
  -- The budget of reads has no part in writing.
  obtain ⟨base, inv⟩ := working.conserved
  have conserved := inv.sendDataOut accepted
  unfold Coder.sendDataOut at conserved ⊢
  split at conserved
  case isTrue taken =>
    rw [if_pos taken]
    exact { working with conserved := ⟨base, conserved⟩ }
  case isFalse kept =>
    rw [if_neg kept]
    exact working

/-- Every accepted read is one fewer to make, first of the reference and then of the data. -/
theorem Working.request (working : s.Working) (accepted : Bool) :
    Working (s.absorb (s.coder.request accepted)) := by
  -- The read that is made moves from the budget to the reads made.
  obtain ⟨base, inv⟩ := working.conserved
  have conserved := inv.request accepted
  have budget := working.budget
  simp only [Coder.request, working.decoder] at conserved ⊢
  simp only [Coder.readsLeft] at budget
  by_cases reference : 0 < s.coder.dependenceCount
  · simp only [reference, if_true, Coder.requestDependentData] at conserved ⊢
    by_cases full : s.coder.config.inBufferSize ≤ s.coder.reqSent
    · rw [if_pos full]
      exact working
    · simp only [full, if_false] at conserved ⊢
      cases accepted with
      | false => exact working
      | true =>
        refine { working with conserved := ⟨base, conserved⟩, budget := ?_ }
        simp only [absorb, record, Coder.readsLeft, if_true, List.foldl_cons, List.foldl_nil,
          List.length_append, List.length_singleton]
        omega
  · simp only [reference, if_false, Coder.requestData, Ip.sendMemoryReq] at conserved ⊢
    by_cases room : 0 < s.coder.ip.reqCount ∧ s.coder.reqSent < s.coder.config.inBufferSize
    · rw [if_pos room] at conserved ⊢
      cases accepted with
      | false => exact working
      | true =>
        simp only [if_true, inv.isRead] at conserved ⊢
        refine { working with conserved := ⟨base, conserved⟩, budget := ?_ }
        simp only [absorb, record, Coder.readsLeft, List.foldl_cons, List.foldl_nil,
          List.length_append, List.length_singleton]
        omega
    · rw [if_neg room]
      exact working

theorem compute_frame (c : Coder) :
    c.compute.config = c.config ∧ c.compute.ip.ioLatency = c.ip.ioLatency ∧
      c.compute.ip.isBusy = c.ip.isBusy ∧ c.compute.readsLeft = c.readsLeft ∧
      c.compute.inputToBeProcessedInCL = c.inputToBeProcessedInCL := by
  -- The three classes share the shape of a cycle, so it is looked at once.
  have shared : ∀ (room latency : Int) (produced : Int → Int),
      let t := (c.processWith room latency produced).1
      t.config = c.config ∧ t.ip.ioLatency = c.ip.ioLatency ∧ t.ip.isBusy = c.ip.isBusy ∧
        t.readsLeft = c.readsLeft ∧ t.inputToBeProcessedInCL = c.inputToBeProcessedInCL := by
    intro room latency produced
    unfold Coder.processWith
    split
    · exact ⟨rfl, rfl, rfl, rfl, rfl⟩
    · split
      · dsimp only
        split <;> exact ⟨rfl, rfl, rfl, rfl, rfl⟩
      · split <;> exact ⟨rfl, rfl, rfl, rfl, rfl⟩
  unfold Coder.compute Coder.process
  split
  · split <;> exact shared _ _ _
  · exact ⟨rfl, rfl, rfl, rfl, rfl⟩

theorem Working.compute (working : s.Working) :
    Working { s with coder := s.coder.compute } := by
  -- The compute unit moves lines between buffers and touches no count of reads.
  obtain ⟨base, inv⟩ := working.conserved
  obtain ⟨config, latency, busy, left, target⟩ := compute_frame s.coder
  refine ⟨⟨working.balanced, ?_, latency.trans working.noLatency⟩, busy.trans working.busy,
    ⟨base, inv.compute⟩, ?_⟩
  · rw [config]
    exact working.decoder
  · simp only [left, target]
    exact working.budget

theorem Working.finished (working : s.Working)
    (processed : s.coder.inputProcessedInCL = s.coder.inputToBeProcessedInCL)
    (written : s.coder.currOutBuffer = 0) :
    s.Settled ∧ FrameReport.Balanced
      ⟨s.reads.length, s.coder.inputProcessedInCL, s.inFlight, s.coder.currInBuffer⟩ := by
  obtain ⟨base, inv⟩ := working.conserved
  have budget := working.budget
  have reads := inv.reads
  have inNonneg := inv.inNonneg
  have processedNonneg := inv.processedNonneg
  simp only [Coder.readsLeft] at budget
  -- What was read beyond the processed lines cannot exceed a budget of exactly those lines.
  have rest : s.inFlight = 0 ∧ s.coder.currInBuffer = 0 ∧ s.coder.dependenceCount ≤ 0 ∧
      (s.reads.length : Int) = s.coder.inputProcessedInCL := by
    split at reads <;> omega
  obtain ⟨landed, drained, spent, all⟩ := rest
  exact ⟨⟨working.toReported, landed, drained, written, spent⟩, ⟨all, landed, drained⟩⟩

theorem Working.complete (working : s.Working) :
    DecoderInv (s.absorb s.coder.complete) := by
  -- Only a frame that is processed and written is reported.
  unfold Coder.complete
  split
  case isFalse => exact .inr (.inl working)
  case isTrue done =>
    obtain ⟨settled, balanced⟩ := working.finished done.1 done.2
    refine .inr (.inr ⟨rfl, { settled with balanced := ?_ }⟩)
    intro r member
    simp only [absorb, List.foldl_cons, List.foldl_nil, record, List.mem_append,
      List.mem_singleton] at member
    rcases member with earlier | rfl
    · exact working.balanced r earlier
    · exact balanced

theorem DecoderInv.tick (inv : s.DecoderInv) (governor : Governor)
    (write read : Bool) : DecoderInv (s.absorb (s.coder.tick governor write read)) := by
  rcases inv with unused | working | ⟨free, settled⟩
  · -- Nothing wakes a decoder that was never called.
    have asleep : s.coder.tick governor write read = (s.coder, []) := by
      simp [Coder.tick, IpPower.updatePower, unused.asleep, unused.still, unused.fresh,
        ipPStateEnterTime]
    rw [asleep]
    exact .inl unused
  · obtain ⟨power, pass | ⟨-, work⟩⟩ := s.coder.tick_cases governor write read
    · rw [pass]
      exact .inr (.inl (working.withPower power))
    · rw [work]
      obtain ⟨t, worked, same⟩ := work_parts write read (fun _ w => w.sendDataOut write)
        (fun _ w => w.request read) (fun _ w => w.compute) (working.withPower power)
      exact same ▸ worked.complete
  · obtain ⟨power, pass | ⟨busy, -⟩⟩ := s.coder.tick_cases governor write read
    · rw [pass]
      exact .inr (.inr ⟨free, { settled with }⟩)
    · simp [free] at busy

theorem Settled.accept (settled : s.Settled) (free : s.coder.ip.isBusy = false) {req : IpRequest}
    (isRead : req.isRead = true)
    (even : req.size ≤ 0 ∨ (if s.coder.isPFrame req then 5 * cacheLineSize ∣ req.size
      else cacheLineSize ∣ req.size)) :
    s.coder.enqueueIPReq req = .ok (s.coder.accept req, true) ∧
      Working { s with coder := s.coder.accept req, reads := [], writes := [] } := by
  -- A settled decoder passes the assertions of `enqueueIPReq` on its buffers.
  have ready : s.coder.Ready := ⟨free, settled.inEmpty, settled.outEmpty, settled.noLatency⟩
  have begun := frameInv_accept ready isRead s.reports
  have landed := settled.landed
  refine ⟨ready.enqueueIPReq req, ⟨settled.balanced, ?_, ?_⟩, ?_, ⟨s.coder.outputBase, ?_⟩, ?_⟩
  · simpa [Coder.accept] using settled.decoder
  · unfold Coder.accept Coder.splitReads
    split <;> simpa [Ip.enqueueIPReq, free] using settled.noLatency
  · unfold Coder.accept Coder.splitReads
    split <;> simp [Ip.enqueueIPReq, free]
  · rw [landed]
    exact begun
  · simpa using Coder.accept_readsLeft free settled.spent even

/-- A request for input data; no caller asks a decoder to write. -/
def AsksToRead : CoderEvent → Prop
  | .enqueueIPReq req => req.isRead = true
  | .tick _ _ | .memResponse _ => True

theorem DecoderInv.settled_of_free (inv : s.DecoderInv)
    (free : s.coder.ip.isBusy = false) : s.Settled := by
  rcases inv with unused | working | ⟨-, settled⟩
  · exact unused.toSettled
  · simp [working.busy] at free
  · exact settled

theorem DecoderInv.enqueue_ok (inv : s.DecoderInv) (req : IpRequest) :
    ∃ accepted, s.coder.enqueueIPReq req = .ok accepted := by
  cases busy : s.coder.ip.isBusy with
  | true => exact ⟨(s.coder, false), by simp [Coder.enqueueIPReq, Ip.enqueueIPReq, busy]⟩
  | false =>
    have settled := inv.settled_of_free busy
    have ready : s.coder.Ready := ⟨busy, settled.inEmpty, settled.outEmpty, settled.noLatency⟩
    exact ⟨_, ready.enqueueIPReq req⟩

/-- Every event in a run of even frames keeps the invariant. -/
theorem DecoderInv.step {governor : Governor} {t : CoderSystem} {e : CoderEvent}
    (inv : s.DecoderInv) (reading : AsksToRead e) (even : s.EvenReads e)
    (taken : s.step governor e = some t) : t.DecoderInv := by
  cases e with
  | enqueueIPReq req =>
    cases busy : s.coder.ip.isBusy with
    | true =>
      have refused : s.coder.enqueueIPReq req = .ok (s.coder, false) := by
        simp [Coder.enqueueIPReq, Ip.enqueueIPReq, busy]
      simp only [CoderSystem.step, refused, Option.some.injEq] at taken
      exact taken ▸ inv
    | false =>
      have settled := inv.settled_of_free busy
      obtain ⟨accepted, working⟩ :=
        settled.accept busy reading (even.resolve_left (by simp [busy]))
      simp only [CoderSystem.step, accepted, Option.some.injEq] at taken
      exact taken ▸ .inr (.inl working)
  | tick write read =>
    simp only [CoderSystem.step, Option.some.injEq] at taken
    exact taken ▸ inv.tick governor write read
  | memResponse isRead =>
    cases isRead with
    | true =>
      simp only [CoderSystem.step] at taken
      split at taken
      case isFalse => simp at taken
      case isTrue flying =>
        simp only [Option.some.injEq] at taken
        -- Only a decoder at work has a read in flight.
        rcases inv with unused | working | ⟨-, settled⟩
        · exact absurd unused.landed (by omega)
        · obtain ⟨base, conserved⟩ := working.conserved
          exact taken ▸ .inr (.inl
            { working with conserved := ⟨base, conserved.readResponse flying⟩ })
        · exact absurd settled.landed (by omega)
    | false =>
      simp only [CoderSystem.step, Option.some.injEq] at taken
      subst taken
      rcases inv with unused | working | ⟨free, settled⟩
      · exact .inl { unused with }
      · obtain ⟨base, conserved⟩ := working.conserved
        exact .inr (.inl { working with conserved := ⟨base, conserved.writeResponse⟩ })
      · exact .inr (.inr ⟨free, { settled with }⟩)

theorem decoderInv_start (raw : Coder) {config : CoderConfig} (decoder : config.kind = .decoder)
    (ipType : IpType) (dvfs : IpDvfs) (spent : raw.dependenceCount ≤ 0) :
    DecoderInv (start (raw.init config ipType dvfs)) :=
  .inl ⟨⟨⟨by simp [start], decoder, rfl⟩, rfl, rfl, rfl, spent⟩, rfl, rfl, rfl⟩

/--
A decoder whose frames come out even reports each frame with every read processed.

No read is in flight or buffered at a report, and the assertions of the next frame hold.
-/
theorem decoder_reports_balanced (governor : Governor) (raw : Coder) (config : CoderConfig)
    (decoder : config.kind = .decoder) (ipType : IpType) (dvfs : IpDvfs)
    (spent : raw.dependenceCount ≤ 0) (es : List CoderEvent) (s : CoderSystem)
    (reading : ∀ e ∈ es, AsksToRead e)
    (even : Machine.Meets (step governor) EvenReads (start (raw.init config ipType dvfs)) es)
    (ran : Machine.run (step governor) (start (raw.init config ipType dvfs)) es = some s) :
    (∀ r ∈ s.reports, r.Balanced) ∧
      ∀ req, ∃ accepted, s.coder.enqueueIPReq req = .ok accepted := by
  -- The first call finds an unused decoder, and each later one a settled decoder.
  have inv : s.DecoderInv := Machine.run_preserves_of_meets
    (fun _ _ _ inv allowed taken => inv.step allowed.1 allowed.2 taken)
    (decoderInv_start raw decoder ipType dvfs spent) (even.and_of_forall reading) ran
  refine ⟨?_, inv.enqueue_ok⟩
  rcases inv with unused | working | ⟨-, settled⟩
  · exact unused.balanced
  · exact working.balanced
  · exact settled.balanced

theorem run_wake (s : CoderSystem) (n : Nat)
    (asleep : s.coder.ip.power.powerState = .idle)
    (left : s.coder.ip.power.cyclesToWake = n + 1) :
    Machine.run (step .disabled) s (List.replicate (n + 1) (.tick true true)) =
      some s.awake := by
  -- Each tick spends one waking cycle, and the last one makes the accelerator active.
  let waking (k : Nat) : CoderSystem :=
    { s with
      coder := s.coder.withPower { s.coder.ip.power with cyclesToWake := n + 1 - k } }
  have begun : s = waking 0 := by
    simp only [waking, Coder.withPower, Int.sub_zero, Nat.cast_zero, ← left]
  have linked : ∀ k < n,
      step .disabled (waking k) (.tick true true) = some (waking (k + 1)) := by
    intro k below
    have more : 1 < (waking k).coder.ip.power.cyclesToWake := by
      simp only [waking, Coder.withPower]
      omega
    have next : (n : Int) + 1 - k - 1 = n + 1 - (k + 1 : Nat) := by omega
    simp only [step, Coder.tick_resting
      (IpPower.updatePower_waking (p := (waking k).coder.ip.power) asleep more)]
    simp only [waking, absorb, Coder.withPower, List.foldl_nil, next]
  have last : (waking n).coder.ip.power.cyclesToWake = 1 := by
    simp only [waking, Coder.withPower]
    omega
  rw [List.replicate_succ', Machine.run_concat, begun, Machine.run_replicate linked,
    Option.bind_some]
  simp only [step, Coder.tick_resting
    (IpPower.updatePower_woken (p := (waking n).coder.ip.power) asleep last)]
  rfl

/-- The events of a first frame: the call, the wake-up and then `rest`. -/
def firstFrame (req : IpRequest) (rest : List CoderEvent) : List CoderEvent :=
  .enqueueIPReq req :: (List.replicate 109200 (.tick true true) ++ rest)

theorem run_firstFrame (req : IpRequest) (rest : List CoderEvent) :
    Machine.run (step .disabled) (start videoDecoder) (firstFrame req rest) =
      Machine.run (step .disabled)
        (awake { start videoDecoder with coder := videoDecoder.accept req }) rest := by
  have ready : videoDecoder.Ready := ⟨rfl, rfl, rfl, rfl⟩
  have accepted : step .disabled (start videoDecoder) (.enqueueIPReq req) =
      some { start videoDecoder with coder := videoDecoder.accept req } := by
    simp only [step, start, ready.enqueueIPReq req]
  have asleep : (videoDecoder.accept req).ip.power.powerState = .idle := by
    unfold Coder.accept Coder.splitReads
    split <;> rfl
  have called : (videoDecoder.accept req).ip.power.cyclesToWake = 109199 + 1 := by
    unfold Coder.accept Coder.splitReads
    split <;> rfl
  rw [firstFrame, Machine.run_cons, accepted, Option.bind_some, Machine.run_append,
    run_wake _ 109199 asleep called, Option.bind_some]

/-- The rest of a run in which the first `n` reads are answered at once. -/
def promptReads (n cycles : Nat) : List CoderEvent :=
  (List.replicate n [.tick true true, .memResponse true]).flatten ++
    List.replicate cycles (.tick true true)

/-- A dependent frame of five lines is reported with its five reads processed. -/
theorem five_line_frame_balanced :
    ∃ es s, Machine.run (step .disabled) (start videoDecoder) es = some s ∧
      s.reports ≠ [] ∧ ∀ r ∈ s.reports, r.Balanced := by
  let rest := promptReads 5 100
  have short : (Machine.run (step .disabled)
      (awake { start videoDecoder with coder := videoDecoder.accept (videoFrame 1 320) })
      rest).any (fun s => s.reports ≠ []) = true := by
    decide +kernel
  obtain ⟨s, replayed, checked⟩ := (Option.any_eq_true _ _).mp short
  have ran := (run_firstFrame (videoFrame 1 320) rest).trans replayed
  -- The frame is the only request of the run, and it is a read of five lines.
  have calls : ∀ req, .enqueueIPReq req ∈ firstFrame (videoFrame 1 320) rest →
      req = videoFrame 1 320 := by
    intro req among
    have later : .enqueueIPReq req ∉ rest := by simp [rest, promptReads]
    simpa only [firstFrame, List.mem_cons, List.mem_append, List.mem_replicate, reduceCtorEq,
      and_false, false_or, later, or_false, CoderEvent.enqueueIPReq.injEq] using among
  refine ⟨_, s, ran, of_decide_eq_true checked, (decoder_reports_balanced .disabled _
    videoDecoderConfig rfl .vd _ (by decide) _ s ?_ ?_ ran).1⟩
  · intro e among
    cases e with
    | enqueueIPReq req => exact calls req among ▸ rfl
    | tick write read => trivial
    | memResponse isRead => trivial
  · apply Machine.meets_of_forall
    intro e among t
    cases e with
    | enqueueIPReq req =>
      rw [calls req among]
      refine .inr (.inr ?_)
      split <;> decide
    | tick write read => trivial
    | memResponse isRead => trivial

/--
A dependent frame of one line reads the reference and the data, but processes one line.

The line left over in the input buffer fails the assertion of the next frame.
-/
theorem one_line_frame_unbalanced :
    ∃ es s, Machine.run (step .disabled) (start videoDecoder) es = some s ∧
      (∃ r ∈ s.reports, r.issued = 2 ∧ r.processed = 1) ∧
      s.coder.enqueueIPReq (videoFrame 2 64) = .error .currInBufferNonzero := by
  let rest := promptReads 2 28
  have short : (Machine.run (step .disabled)
      (awake { start videoDecoder with coder := videoDecoder.accept (videoFrame 1 64) })
      rest).any (fun s => (∃ r ∈ s.reports, r.issued = 2 ∧ r.processed = 1) ∧
        s.coder.ip.isBusy = false ∧ s.coder.currInBuffer = 1) = true := by
    decide +kernel
  obtain ⟨s, replayed, checked⟩ := (Option.any_eq_true _ _).mp short
  obtain ⟨unbalanced, free, left⟩ := of_decide_eq_true checked
  refine ⟨_, s, (run_firstFrame (videoFrame 1 64) rest).trans replayed, unbalanced, ?_⟩
  simp [Coder.enqueueIPReq, Ip.enqueueIPReq, free, left]

end CoderSystem

end GemDroid
