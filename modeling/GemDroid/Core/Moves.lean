import GemDroid.Core.Tick
import GemDroid.Lib.Outcome
import Mathlib.Logic.Relation

/-! The reorder buffer as an abstract machine, and how its operations move it. -/

namespace GemDroid

open Outcome Relation

namespace Rob

/-- What can happen to the buffer of a core that issues out of order or not. -/
inductive Move (ooo : Bool) (r : Rob) : Rob → Prop
  /-- Compute instructions that are all executed leave the head. -/
  | retire {head : Transaction} {rest : List Transaction}
      (found : r.outstandingTransactions = head :: rest) (compute : head.isMemory = false)
      (done : head.numberOfInstructions = 0) (drained : ooo → head.instrExecutedOoo = 0) :
      Move ooo r { r with
        outstandingTransactions := rest
        outstandingTransactionsSize := r.outstandingTransactionsSize - 1 }
  /-- A load or store that was answered leaves the head. -/
  | commit {head : Transaction} {rest : List Transaction}
      (found : r.outstandingTransactions = head :: rest) (memory : head.isMemory = true)
      (ready : head.canBeCommitted = true) :
      Move ooo r { r with
        outstandingTransactions := rest
        outstandingTransactionsSize := r.outstandingTransactionsSize - 1
        committedInsns := r.committedInsns + 1
        memCommits := r.memCommits + 1 }
  /-- A load or store that waited too long is forced out of the head. -/
  | force {head : Transaction} {rest : List Transaction}
      (found : r.outstandingTransactions = head :: rest) (memory : head.isMemory = true)
      (waiting : head.canBeCommitted = false) :
      Move ooo r { r with
        outstandingTransactions := rest
        outstandingTransactionsSize := r.outstandingTransactionsSize - 1
        deadlocksFaced := r.deadlocksFaced + 1 }
  /-- An instruction is executed, ahead of its turn only while the buffer allows it. -/
  | execute {t : Transaction} {before after : List Transaction}
      (found : r.outstandingTransactions = before ++ t :: after) (compute : t.isMemory = false)
      (left : 0 < t.numberOfInstructions) (room : ooo → r.numberOfInstrExecutedOoO < robSize) :
      Move ooo r { r with
        outstandingTransactions := before ++
          { t with
            numberOfInstructions := t.numberOfInstructions - 1
            instrExecutedOoo := t.instrExecutedOoo + 1 } :: after
        numberOfInstrExecutedOoO := r.numberOfInstrExecutedOoO + if ooo then 1 else 0
        committedInsns := r.committedInsns + 1 }
  /-- Compute instructions reach the head and are ahead of nothing any more. -/
  | drain {head : Transaction} {rest : List Transaction} (mode : ooo = true)
      (found : r.outstandingTransactions = head :: rest) (compute : head.isMemory = false) :
      Move ooo r { r with
        outstandingTransactions := head.resetInstrCommitted :: rest
        numberOfInstrExecutedOoO := r.numberOfInstrExecutedOoO - head.instrExecutedOoo }
  /-- The agent takes the request of a load or store. -/
  | issue {t : Transaction} {before after : List Transaction} (ticks : Int) (isRead : Bool)
      (found : r.outstandingTransactions = before ++ t :: after) (memory : t.isMemory = true)
      (unissued : t.isIssued = false) :
      Move ooo r { r with
        outstandingTransactions := before ++ t.issueToMem ticks :: after
        inFlight := r.inFlight ++ [⟨t.tag, t.addr, isRead⟩] }
  /-- The instructions of a CPU line are appended. -/
  | addInstructions {insns : Int} {t : Transaction}
      (room : r.outstandingTransactionsSize < maxTransactions)
      (built : Transaction.new .cpu insns (-1) r.nextTag = .ok t) :
      Move ooo r { r with
        outstandingTransactions := r.outstandingTransactions ++ [t]
        outstandingTransactionsSize := r.outstandingTransactionsSize + 1
        nextTag := r.nextTag + 1
        insnsRead := r.insnsRead + insns }
  /-- A load or store is appended, since none of its address waits. -/
  | addMemory {kind : InstrType} {addr : Addr} {t : Transaction}
      (room : r.outstandingTransactionsSize < maxTransactions) (memory : kind ≠ .cpu)
      (fresh : ∀ u ∈ r.outstandingTransactions, u.addr = addr → u.canBeCommitted = true)
      (built : Transaction.new kind 0 addr r.nextTag = .ok t) :
      Move ooo r { r with
        outstandingTransactions := r.outstandingTransactions ++ [t]
        outstandingTransactionsSize := r.outstandingTransactionsSize + 1
        nextTag := r.nextTag + 1 }

/-- Any number of moves. -/
abbrev Moves (ooo : Bool) : Rob → Rob → Prop :=
  ReflTransGen (Move ooo)

/-- The size counter is the length of the buffer and within its bound. -/
def Sized (r : Rob) : Prop :=
  r.outstandingTransactionsSize = r.outstandingTransactions.length ∧
    r.outstandingTransactionsSize ≤ maxTransactions

theorem Move.sized {ooo : Bool} {r s : Rob} (move : Move ooo r s) (sized : r.Sized) : s.Sized := by
  -- A move removes one entry, replaces one or appends one, and the counter goes along.
  obtain ⟨exact', bounded⟩ := sized
  cases move with
  | retire found | commit found | force found =>
    simp only [Sized, found, List.length_cons] at *
    omega
  | execute found | issue _ _ found =>
    simp only [Sized, found, List.length_append, List.length_cons] at *
    omega
  | drain _ found =>
    simp only [Sized, found, List.length_cons] at *
    omega
  | addInstructions room | addMemory room =>
    simp only [Sized, List.length_append, List.length_cons, List.length_nil] at *
    omega

theorem Moves.sized {ooo : Bool} {r s : Rob} (moves : Moves ooo r s) (sized : r.Sized) :
    s.Sized := by
  -- The induction is on the moves, the last of which is taken from a state of the right size.
  induction moves with
  | refl => exact sized
  | tail _ move ih => exact move.sized ih

theorem Sized.scanned {r : Rob} (sized : r.Sized) : r.scanned = r.outstandingTransactions := by
  obtain ⟨exact', bounded⟩ := sized
  rw [Rob.scanned, min_eq_left bounded, exact', Int.toNat_natCast, List.take_length]

theorem searchInROB_fresh {r : Rob} {addr : Addr} (sized : r.Sized)
    (missing : r.searchInROB addr = -1 ∨ r.searchInROB addr = -2) :
    ∀ u ∈ r.outstandingTransactions, u.addr = addr → u.canBeCommitted = true := by
  -- An index is never negative, so the search ended without a hit.
  intro u member same
  rw [searchInROB, sized.scanned] at missing
  cases found : r.outstandingTransactions.findIdx?
      (fun t => decide (t.addr = addr) && !t.canBeCommitted) with
  | some i =>
    rw [found] at missing
    simp only at missing
    omega
  | none =>
    have absent := List.findIdx?_eq_none_iff.mp found u member
    simpa [same] using absent

end Rob

theorem Transaction.new_fault {kind : InstrType} {insns : Int} {addr : Addr} {tag : Nat}
    {fault : CoreFault} (failed : Transaction.new kind insns addr tag = .error fault) :
    fault = .addrOne := by
  -- The constructor has one branch that fails.
  unfold Transaction.new at failed
  split at failed
  · exact (Except.error.inj failed).symm
  · cases failed

theorem Transaction.new_fields {kind : InstrType} {insns : Int} {addr : Addr} {tag : Nat}
    {t : Transaction} (built : Transaction.new kind insns addr tag = .ok t) :
    t = { transactionType := kind, numberOfInstructions := insns, instrExecutedOoo := 0, addr,
          canBeCommitted := false, insertedTick := -1, isIssued := false, tag } := by
  -- The constructor has one branch that succeeds, and it fixes every field.
  unfold Transaction.new at built
  split at built
  · cases built
  · exact (Except.ok.inj built).symm

/-- The faults that the trace or the flow table is to blame for. -/
def CoreFault.FromInput (fault : CoreFault) : Prop :=
  fault = .addrOne ∨ fault = .flowOverflow

namespace Rob

variable {ooo : Bool} {r : Rob} {head : Transaction} {rest : List Transaction}

theorem commitHeadTransaction_eq (sized : r.Sized)
    (found : r.outstandingTransactions = head :: rest) (ready : head.canBeCommitted = true) :
    r.commitHeadTransaction = .ok { r with
      outstandingTransactions := rest
      outstandingTransactionsSize := r.outstandingTransactionsSize - 1 } := by
  -- A buffer with a head has a size of one or more, so the counter stays at zero or above.
  have positive : ¬ r.outstandingTransactionsSize - 1 < 0 := by
    rw [sized.1, found, List.length_cons]
    omega
  simp [commitHeadTransaction, found, ready, positive]

theorem commitHeadTransaction_marked (sized : r.Sized)
    (found : r.outstandingTransactions = head :: rest) :
    (r.setTransaction 0 head.commitTransaction).commitHeadTransaction = .ok { r with
      outstandingTransactions := rest
      outstandingTransactionsSize := r.outstandingTransactionsSize - 1 } := by
  -- Marking leaves the length, and with it the counter, as it was.
  have placed : (r.setTransaction 0 head.commitTransaction).outstandingTransactions =
      head.commitTransaction :: rest := by
    simp [setTransaction, found]
  have kept : (r.setTransaction 0 head.commitTransaction).Sized := by
    simpa [Sized, setTransaction] using sized
  rw [commitHeadTransaction_eq kept placed rfl]
  rfl

theorem commitMemory_ends (ooo : Bool) (sized : r.Sized)
    (found : r.outstandingTransactions = head :: rest)
    (memory : head.isMemory = true) (ready : head.canBeCommitted = true) :
    Ends CoreFault.FromInput r.commitMemory fun s =>
      Move ooo r s ∧ s.outstandingTransactions = rest := by
  -- The head is ready, so none of the assertions of its removal fails.
  simp only [commitMemory, commitHeadTransaction_eq sized found ready, ends_bind, ends_ok,
    ends_pure]
  exact ⟨.commit found memory ready, rfl⟩

theorem commitEmpty_ends (ooo : Bool) (sized : r.Sized)
    (found : r.outstandingTransactions = head :: rest)
    (compute : head.isMemory = false) (done : head.numberOfInstructions = 0)
    (drained : ooo → head.instrExecutedOoo = 0) :
    Ends CoreFault.FromInput (r.commitEmpty head) fun s =>
      Move ooo r s ∧ s.outstandingTransactions = rest := by
  -- The source marks the head itself before it removes it.
  rw [commitEmpty, commitHeadTransaction_marked sized found]
  exact ⟨.retire found compute done drained, rfl⟩

theorem checkDeadlock_ends (ooo : Bool) (sized : r.Sized) (ticks : Int) :
    Ends CoreFault.FromInput (r.checkDeadlock ticks) (Moves ooo r) := by
  -- Only an issued load or store that waits too long at the head is removed.
  unfold checkDeadlock
  split
  case isFalse => exact .refl
  case isTrue occupied =>
    cases found : r.outstandingTransactions with
    | nil =>
      rw [sized.1, found] at occupied
      simp at occupied
    | cons head rest =>
      simp only
      split
      case isFalse => exact .refl
      case isTrue blocked =>
        simp only [Bool.and_eq_true, Bool.not_eq_true', decide_eq_true_eq] at blocked
        obtain ⟨⟨⟨memory, _⟩, waiting⟩, _⟩ := blocked
        rw [commitHeadTransaction_marked sized found]
        exact .single (.force found memory waiting)

theorem split_at {l : List Transaction} {i : Nat} {t : Transaction} (found : l[i]? = some t) :
    ∃ before after, l = before ++ t :: after ∧ ∀ u, l.set i u = before ++ u :: after := by
  -- The entry itself is what the two parts leave out.
  obtain ⟨below, entry⟩ := List.getElem?_eq_some_iff.mp found
  refine ⟨l.take i, l.drop (i + 1), ?_, fun u => List.set_eq_take_append_cons_drop ..|>.trans ?_⟩
  · rw [← entry, List.cons_getElem_drop_succ, List.take_append_drop]
  · rw [if_pos below]

theorem issueToMem_ends (ooo : Bool) {i : Nat} {t : Transaction} (ticks : Int)
    (found : r.outstandingTransactions[i]? = some t) (memory : t.isMemory = true)
    (unissued : t.isIssued = false) :
    Ends CoreFault.FromInput (r.issueToMem i t ticks) fun s =>
      Move ooo r s ∧
        s.outstandingTransactions.length = r.outstandingTransactions.length := by
  -- A load or store passes the assertion of `isRead`, and replacing it keeps the length.
  obtain ⟨before, after, whole, replaced⟩ := split_at found
  have kind : t.transactionType ≠ .cpu := by simpa [Transaction.isMemory] using memory
  simp only [issueToMem, Transaction.isRead, if_neg kind, ends_bind, ends_ok, ends_pure,
    setTransaction, replaced]
  exact ⟨.issue ticks _ whole memory unissued, by simp [whole]⟩

/--
A response marks the first transaction of its address, if there is one.

The record of the response does not depend on what it marked.
-/
theorem memCoreResponse_cases (sized : r.Sized) (request : CoreRequest) :
    ((∀ u ∈ r.outstandingTransactions, u.addr ≠ request.addr) ∧
      (r.memCoreResponse request).1 = { r with
        inFlight := r.inFlight.erase request
        answered := r.answered ++ [request.tag] }) ∨
    ∃ before t after, r.outstandingTransactions = before ++ t :: after ∧
      t.addr = request.addr ∧ (∀ u ∈ before, u.addr ≠ request.addr) ∧
      (r.memCoreResponse request).1 = { r with
        outstandingTransactions := before ++ t.commitTransaction :: after
        inFlight := r.inFlight.erase request
        answered := r.answered ++ [request.tag] } := by
  -- An exact counter makes the search visit the whole buffer in order.
  simp only [memCoreResponse, markTransactionCompleted, sized.scanned]
  cases found : r.outstandingTransactions.findIdx? (fun t => decide (t.addr = request.addr)) with
  | none =>
    refine .inl ⟨fun u member => ?_, rfl⟩
    simpa using List.findIdx?_eq_none_iff.mp found u member
  | some i =>
    obtain ⟨below, matching, earlier⟩ := List.findIdx?_eq_some_iff_getElem.mp found
    refine .inr ⟨r.outstandingTransactions.take i, r.outstandingTransactions[i],
      r.outstandingTransactions.drop (i + 1), ?_, by simpa using matching, ?_, ?_⟩
    · rw [List.cons_getElem_drop_succ, List.take_append_drop]
    · intro u member
      obtain ⟨j, inside, entry⟩ := List.mem_take_iff_getElem.mp member
      have short : j < i := by omega
      simpa [entry] using earlier j short
    · simp only [List.modify_eq_take_cons_drop below]

theorem commitInstruction_eq {i : Nat} {t : Transaction} (left : 0 < t.numberOfInstructions) :
    r.commitInstruction i t = .ok { r with
      outstandingTransactions := r.outstandingTransactions.set i
        { t with
          numberOfInstructions := t.numberOfInstructions - 1
          instrExecutedOoo := t.instrExecutedOoo + 1 }
      committedInsns := r.committedInsns + 1 } := by
  -- An instruction that is left passes the assertion of `commit_instruction`.
  have some' : t.numberOfInstructions ≠ 0 := by omega
  simp only [commitInstruction, Transaction.commitInstruction, if_neg some']
  rfl

theorem pushTransaction_eq (t : Transaction)
    (room : r.outstandingTransactionsSize < maxTransactions) :
    r.pushTransaction t = .ok { r with
      outstandingTransactions := r.outstandingTransactions ++ [t]
      outstandingTransactionsSize := r.outstandingTransactionsSize + 1
      nextTag := r.nextTag + 1 } := by
  -- The size before the push is below the limit, so the size after it is within.
  have within : ¬ maxTransactions < r.outstandingTransactionsSize + 1 := by omega
  rw [pushTransaction, if_neg within]

theorem addInstructions_ends (ooo : Bool) (insns : Int)
    (room : r.outstandingTransactionsSize < maxTransactions) :
    Ends CoreFault.FromInput (r.addInstructions insns) (Moves ooo r) := by
  -- Compute instructions are built with address -1, which no assertion refuses.
  simp only [Rob.addInstructions, ends_bind]
  cases built : Transaction.new .cpu insns (-1) r.nextTag with
  | error fault => simp [Transaction.new] at built
  | ok t =>
    simp only [ends_ok, pushTransaction_eq t room, ends_pure]
    exact .single (.addInstructions room built)

theorem processMMURequest_ends (ooo : Bool) (sized : r.Sized) (isRead : Bool) (addr : Addr)
    (room : r.outstandingTransactionsSize < maxTransactions) :
    Ends CoreFault.FromInput (r.processMMURequest isRead addr) (Moves ooo r) := by
  -- A hit drops the request, since a transaction of its address waits already.
  unfold processMMURequest
  simp only
  split
  case isFalse => exact .refl
  case isTrue missing =>
    rw [ends_bind]
    have memory : (if isRead then InstrType.mmuLd else .mmuSt) ≠ .cpu := by cases isRead <;> decide
    cases built : Transaction.new (if isRead then InstrType.mmuLd else .mmuSt) 0 addr
        r.nextTag with
    | error fault =>
      exact .inl (Transaction.new_fault built)
    | ok t =>
      rw [ends_ok, pushTransaction_eq t room]
      exact .single (.addMemory room memory (searchInROB_fresh sized missing) built)

end Rob

end GemDroid
