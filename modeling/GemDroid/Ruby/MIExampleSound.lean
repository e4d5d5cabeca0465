import GemDroid.Ruby.MIExamplePhases

/-! What every step of the MI example protocol keeps, and what the steps of a cache do. -/

namespace GemDroid

namespace MIExample

variable {Cache Dma : Type}

/-- The DMA request that the directory is working on. -/
def Directory.Machine.pending (m : Directory.Machine Cache Dma) : Option (DMARequestMsg Dma) :=
  m.tbe.bind fun tbe => tbe.dmaRequestor.bind fun d =>
    match tbe.tbeState with
    | .M_DRD | .ID => some ⟨.READ, tbe.physicalAddress, d, tbe.dataBlk, tbe.len⟩
    | .M_DWR | .M_DWRI | .ID_W => some ⟨.WRITE, tbe.physicalAddress, d, tbe.dataBlk, tbe.len⟩
    | _ => none

/-- The state of a DMA controller whose request is under way. -/
def DMARequestType.busy : DMARequestType → DMA.State
  | .READ => .BUSY_RD
  | .WRITE => .BUSY_WR

/-- The state of a DMA controller whose answer is under way. -/
def DMAResponseType.busy : DMAResponseType → DMA.State
  | .DATA => .BUSY_RD
  | .ACK => .BUSY_WR

/-- The two blocks have the same bytes. -/
def Agree (blockSize : Nat) (blk blk' : DataBlock) : Prop :=
  ∀ i < blockSize, blk i = blk' i

/-- The bytes of a message are those that are wanted in the block. -/
def Wants (blockSize : Nat) (wanted : Nat → Option UInt8) (address len : Nat)
    (dataBlk : DataBlock) :
    Prop :=
  ∀ i < blockSize, wanted i =
    if address % blockSize ≤ i ∧ i < address % blockSize + len then some (dataBlk i) else none

/--
What the DMA controllers know of a block: which of them have a request there, and how many writes
were acknowledged to each before.
-/
structure Ledger (Dma : Type) where
  blockSize : Nat
  dma : Dma → DMA.State
  flight : Dma → Prop
  count : Dma → Nat

variable {ledger : Ledger Dma}

/-- How many DMA writes an answer stands for. -/
def DMAResponseType.applications : DMAResponseType → Nat
  | .DATA => 0
  | .ACK => 1

/-- A request of a DMA controller that waits for its answer. -/
structure Requested (data : Prop) (ledger : Ledger Dma) (s : System Cache Dma)
    (d : Dma) (msg : DMARequestMsg Dma) : Prop where
  requestor : msg.requestor = d
  busy : s.dma d = msg.type.busy
  wanted : data → msg.type = .WRITE →
    Wants s.blockSize (s.wanted d) msg.physicalAddress msg.len msg.dataBlk
  here : ledger.flight d
  counted : s.applied d = ledger.count d

/-- An answer that a DMA controller waits for. -/
structure Answered (data : Prop) (ledger : Ledger Dma) (s : System Cache Dma)
    (d : Dma) (msg : DMAResponseMsg) : Prop where
  busy : s.dma d = msg.type.busy
  served : data → msg.type = .DATA → Agree s.blockSize msg.dataBlk (s.served d)
  here : ledger.flight d
  counted : s.applied d = ledger.count d + msg.type.applications

/--
Where the request of a DMA controller is, if it is at this block, and how many writes were
acknowledged to it before.
-/
inductive DmaFits (data : Prop) (ledger : Ledger Dma) (s : System Cache Dma)
    (d : Dma) : Prop where
  | quiet (requests : s.dmaRequests d = []) (responses : s.dmaResponses d = [])
    (elsewhere : ∀ msg, s.dir.pending = some msg → msg.requestor ≠ d) (away : ¬ledger.flight d)
    (counted : s.applied d = ledger.count d)
  | asked (msg : DMARequestMsg Dma) (requests : s.dmaRequests d = [msg])
    (responses : s.dmaResponses d = [])
    (elsewhere : ∀ msg, s.dir.pending = some msg → msg.requestor ≠ d)
    (requested : Requested data ledger s d msg)
  | pending (msg : DMARequestMsg Dma) (requests : s.dmaRequests d = [])
    (responses : s.dmaResponses d = []) (here : s.dir.pending = some msg)
    (requested : Requested data ledger s d msg)
  | answered (msg : DMAResponseMsg) (requests : s.dmaRequests d = [])
    (responses : s.dmaResponses d = [msg])
    (elsewhere : ∀ msg, s.dir.pending = some msg → msg.requestor ≠ d)
    (answered : Answered data ledger s d msg)

/-- What every step keeps; the data only as long as it is asked for. -/
structure Sound (data : Prop) (ledger : Ledger Dma) (s : System Cache Dma) : Prop where
  coherent : ∃ phase blk, Consistent phase blk s ∧ (data → Agree s.blockSize blk s.latest)
  loads : data → ∀ load ∈ s.loads, Agree s.blockSize load.1 load.2
  dma : ∀ d, DmaFits data ledger s d
  size : s.blockSize = ledger.blockSize
  controllers : s.dma = ledger.dma

/-- A step that leaves the DMA controllers and their messages alone. -/
structure SameDma (s s' : System Cache Dma) : Prop where
  blockSize : s'.blockSize = s.blockSize
  dma : s'.dma = s.dma
  requests : s'.dmaRequests = s.dmaRequests
  responses : s'.dmaResponses = s.dmaResponses
  served : s'.served = s.served
  wanted : s'.wanted = s.wanted
  applied : s'.applied = s.applied
  pending : s'.dir.pending = s.dir.pending

variable {data : Prop} {s s' : System Cache Dma}

/-- A step of which a DMA controller notices nothing. -/
structure Unnoticed (ledger ledger' : Ledger Dma) (s s' : System Cache Dma) (d : Dma) : Prop where
  flight : ledger'.flight d ↔ ledger.flight d
  count : ledger'.count d = ledger.count d
  blockSize : s'.blockSize = s.blockSize
  dma : s'.dma d = s.dma d
  requests : s'.dmaRequests d = s.dmaRequests d
  responses : s'.dmaResponses d = s.dmaResponses d
  served : s'.served d = s.served d
  wanted : s'.wanted d = s.wanted d
  applied : s'.applied d = s.applied d
  pending : ∀ msg, msg.requestor = d → (s'.dir.pending = some msg ↔ s.dir.pending = some msg)

theorem DmaFits.of_unnoticed {ledger' : Ledger Dma} {d : Dma}
    (same : Unnoticed ledger ledger' s s' d) (fits : DmaFits data ledger s d) :
    DmaFits data ledger' s' d := by
  have requested : ∀ msg, Requested data ledger s d msg → Requested data ledger' s' d msg := by
    intro msg ⟨requestor, busy, wants, here, counted⟩
    exact ⟨requestor, same.dma.trans busy, by rwa [same.blockSize, same.wanted],
      same.flight.mpr here, by rw [same.applied, counted, same.count]⟩
  have elsewhere : (∀ msg, s.dir.pending = some msg → msg.requestor ≠ d) →
      ∀ msg, s'.dir.pending = some msg → msg.requestor ≠ d :=
    fun before msg pending mine => before msg ((same.pending msg mine).mp pending) mine
  -- The request is where it was.
  cases fits with
  | quiet requests responses others away counted =>
    exact .quiet (same.requests.trans requests) (same.responses.trans responses)
      (elsewhere others) (fun flying => away (same.flight.mp flying))
      (by rw [same.applied, counted, same.count])
  | asked msg requests responses others good =>
    exact .asked msg (same.requests.trans requests) (same.responses.trans responses)
      (elsewhere others) (requested msg good)
  | pending msg requests responses here good =>
    exact .pending msg (same.requests.trans requests) (same.responses.trans responses)
      ((same.pending msg good.requestor).mpr here) (requested msg good)
  | answered msg requests responses others good =>
    exact .answered msg (same.requests.trans requests) (same.responses.trans responses)
      (elsewhere others) ⟨same.dma.trans good.busy,
        by rw [same.blockSize, same.served]; exact good.served, same.flight.mpr good.here,
        by rw [same.applied, good.counted, same.count]⟩

theorem SameDma.unnoticed (same : SameDma s s') (d : Dma) : Unnoticed ledger ledger s s' d := by
  obtain ⟨blockSize, dma, requests, responses, served, wanted, applied, pending⟩ := same
  exact ⟨Iff.rfl, rfl, blockSize, by rw [dma], by rw [requests], by rw [responses], by rw [served],
    by rw [wanted], by rw [applied], fun _ _ => by rw [pending]⟩

theorem Sound.of_same (sound : Sound data ledger s) (same : SameDma s s')
    (coherent : ∃ phase blk, Consistent phase blk s' ∧ (data → Agree s.blockSize blk s'.latest))
    (loads : data → ∀ load ∈ s'.loads, Agree s.blockSize load.1 load.2) : Sound data ledger s' := by
  refine ⟨?_, ?_, fun d => (sound.dma d).of_unnoticed (same.unnoticed d),
    same.blockSize.trans sound.size, same.dma.trans sound.controllers⟩
  · rwa [same.blockSize]
  · rwa [same.blockSize]

theorem DmaFits.of_pending {d : Dma} {msg : DMARequestMsg Dma} (fits : DmaFits data ledger s d)
    (pending : s.dir.pending = some msg) (requestor : msg.requestor = d) :
    s.dmaRequests d = [] ∧ s.dmaResponses d = [] ∧ Requested data ledger s d msg := by
  cases fits with
  | quiet _ _ elsewhere | asked _ _ _ elsewhere | answered _ _ _ elsewhere =>
    exact absurd requestor (elsewhere msg pending)
  | pending msg' requests responses here requested =>
    rw [here] at pending
    obtain rfl := Option.some.inj pending
    exact ⟨requests, responses, requested⟩

variable [DecidableEq Dma]

/-- The directory answers the request that it works on. -/
theorem DmaFits.answer {d : Dma} {m : DMARequestMsg Dma} {a : DMAResponseMsg}
    (fits : ∀ d, DmaFits data ledger s d) (pending : s.dir.pending = some m)
    (requestor : m.requestor = d) (ended : s'.dir.pending = none)
    (blockSize : s'.blockSize = s.blockSize) (dma : s'.dma = s.dma)
    (requests : s'.dmaRequests = s.dmaRequests) (wanted : s'.wanted = s.wanted)
    (responses : s'.dmaResponses =
      Function.update s.dmaResponses d (s.dmaResponses d ++ [a]))
    (served : ∀ x, x ≠ d → s'.served x = s.served x) (kind : a.type.busy = m.type.busy)
    (applied : s'.applied =
      Function.update s.applied d (s.applied d + a.type.applications))
    (right : data → a.type = .DATA → Agree s.blockSize a.dataBlk (s'.served d)) :
    ∀ x, DmaFits data ledger s' x := by
  intro x
  have free : ∀ m, s'.dir.pending = some m → m.requestor ≠ x := by
    intro msg' some'
    rw [ended] at some'
    cases some'
  by_cases here : x = d
  · subst here
    obtain ⟨no_request, no_response, requested⟩ := (fits x).of_pending pending requestor
    refine .answered a (by rw [requests, no_request]) ?_ free ⟨?_, ?_, requested.here, ?_⟩
    · rw [responses, Function.update_self, no_response]
      rfl
    · rw [dma, requested.busy, kind]
    · rwa [blockSize]
    · rw [applied, Function.update_self, requested.counted]
  · -- The other controllers wait for something else.
    refine (fits x).of_unnoticed ⟨Iff.rfl, rfl, blockSize, by rw [dma], by rw [requests],
      by rw [responses, Function.update_of_ne here], served x here, by rw [wanted],
      by rw [applied, Function.update_of_ne here], fun msg mine => ?_⟩
    rw [ended, pending]
    refine iff_of_false (by simp) fun same => here ?_
    rw [← mine, ← Option.some.inj same, requestor]

/-- The directory takes up a request. -/
theorem DmaFits.serve {d : Dma} {msg m : DMARequestMsg Dma} (fits : ∀ d, DmaFits data ledger s d)
    (idle : s.dir.pending = none) (request : s.dmaRequests d = [msg])
    (pending : s'.dir.pending = some m) (requestor : m.requestor = msg.requestor)
    (kind : m.type = msg.type) (same : msg.type = .WRITE → m = msg)
    (blockSize : s'.blockSize = s.blockSize) (dma : s'.dma = s.dma)
    (requests : s'.dmaRequests = Function.update s.dmaRequests d [])
    (responses : s'.dmaResponses = s.dmaResponses) (served : s'.served = s.served)
    (wanted : s'.wanted = s.wanted) (applied : s'.applied = s.applied) :
    ∀ x, DmaFits data ledger s' x := by
  intro x
  -- Only the controller whose request it is notices anything.
  have asked : s.dmaResponses d = [] ∧ Requested data ledger s d msg := by
    cases fits d with
    | quiet none' | pending _ none' _ _ _ | answered _ none' _ _ _ =>
      rw [request] at none'
      cases none'
    | asked msg'' request' responses' _ requested =>
      rw [request] at request'
      obtain rfl := List.singleton_injective request'
      exact ⟨responses', requested⟩
  obtain ⟨no_response, requested⟩ := asked
  by_cases here : x = d
  · subst here
    refine .pending m (by rw [requests, Function.update_self]) (by rw [responses, no_response])
      pending ⟨requestor.trans requested.requestor, by rw [dma, requested.busy, kind], ?_,
        requested.here, by rw [applied, requested.counted]⟩
    intro right write
    rw [kind] at write
    rw [same write, blockSize, wanted]
    exact requested.wanted right write
  · refine (fits x).of_unnoticed ⟨Iff.rfl, rfl, blockSize, by rw [dma],
      by rw [requests, Function.update_of_ne here], by rw [responses], by rw [served],
      by rw [wanted], by rw [applied], fun msg mine => ?_⟩
    rw [idle, pending]
    refine iff_of_false (fun same => here ?_) (by simp)
    rw [← mine, ← Option.some.inj same, requestor, requested.requestor]

end MIExample

end GemDroid
